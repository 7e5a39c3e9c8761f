import Tenancy.Plan.Sql
import Tenancy.Proofs.Restrict.Leaves

namespace Tenancy

/-!
# Sites — the joins of a plan and the scopes in whose trees they stand

* `Plan.joins` — the joins of a plan, as they are read;
* `Plan.Surroundings` — the scopes that have a node in one of their trees;
* `Plan.Site`, `Plan.joinSites` — each join of a plan with its surroundings;
* `map_node_joinSites` — the sites of a plan are its joins;
* `Plan.treeJoins` — the joins of one tree;
* `map_node_filter_joinSites` — the sites in whose surroundings a scope is are the joins of its
  trees.

Equal joins may stand in several places of a plan, so a join is told from others by its place in the
order of reading and not by what it is.
-/

namespace Plan

/-! ### Surroundings -/

/-- The scopes in whose trees a node stands, from the innermost outwards. -/
structure Surroundings where
  /-- Those whose tree goes on to the node, read through joins and parentheses. -/
  around : List Nat := []
  /-- Those whose tree goes on to the node through joins alone. -/
  reaching : List Nat := []

namespace Surroundings

/-- The scopes whose tree goes on to the node: through parentheses too, or through joins alone. -/
def scopes (s : Surroundings) (through : Bool) : List Nat :=
  if through then s.around else s.reaching

section

variable (through : Bool) (n : Nat)

@[simp] theorem scopes_empty : ({} : Surroundings).scopes through = [] := by
  cases through <;> rfl

@[simp] theorem scopes_singleton : (Surroundings.mk [n] [n]).scopes through = [n] := by
  cases through <;> rfl

@[simp] theorem scopes_cons (s : Surroundings) :
    (Surroundings.mk (n :: s.around) (n :: s.reaching)).scopes through = n :: s.scopes through := by
  cases through <;> rfl

end

/-- Where a part stands that counts for `ρ`, if its node is `p` with number `n` and stands in
`s`. -/
def inside (s : Surroundings) (n : Nat) (p : Plan) (ρ : Role) : Surroundings :=
  match p, ρ with
  -- What a query reads is its own affair.
  | select _, .source => ⟨[n], [n]⟩
  -- Only the sides of an outer join are sources.
  | join .., .source => ⟨n :: s.around, n :: s.reaching⟩
  | join .., .inherit => s
  | group _, _ => ⟨s.around, []⟩
  | _, _ => {}

end Surroundings

/-- A join of a plan, and where it stands. -/
structure Site extends Surroundings where
  /-- The kind of the join. -/
  kind : JoinKind
  /-- Its left side. -/
  left : Plan
  /-- Its right side. -/
  right : Plan
  /-- Its `ON`. -/
  on : Option Plan

/-- The join at the site. -/
def Site.node (σ : Site) : Plan := join σ.kind σ.left σ.right σ.on

/-- The site of a node, if it is a join. -/
def site? (s : Surroundings) : Plan → Option Site
  | join kind l r on => some { s with kind, left := l, right := r, on }
  | _ => none

/-! ### The joins of a plan -/

/-- The joins of a plan, as they are read. -/
def joins : Plan → List Plan := picked isJoin

theorem joins_of_not_join {p : Plan} (h : p.isJoin = false) :
    p.joins = p.parts.flatMap (·.2.joins) :=
  picked_eq h

theorem joins_eq (s : Surroundings) (p : Plan) :
    p.joins = (p.site? s).toList.map Site.node ++ p.parts.flatMap (·.2.joins) := by
  cases p with
  | join kind l r on =>
    rw [joins, picked, nodes_eq, List.filter_cons, List.filter_flatMap]
    rfl
  | _ => exact joins_of_not_join rfl

theorem throughAnd_joins : ThroughAnd joins := fun ps => by
  rw [joins_of_not_join rfl, parts, List.flatMap_map]

/-- The parts of a node, each with the number of its first owner. -/
def numberParts (n : Nat) : List (Role × Plan) → List (Nat × Role × Plan)
  | [] => []
  | c :: cs => (n, c) :: numberParts (n + c.2.owners.length) cs

theorem snd_mem_of_mem_numberParts {n : Nat} {cs : List (Role × Plan)} {c : Nat × Role × Plan}
    (h : c ∈ numberParts n cs) : c.2 ∈ cs := by
  induction cs generalizing n with
  | nil => simp [numberParts] at h
  | cons d cs ih =>
    rcases List.mem_cons.1 h with rfl | h
    · exact List.mem_cons_self
    · exact List.mem_cons_of_mem _ (ih h)

theorem map_snd_numberParts (n : Nat) (cs : List (Role × Plan)) :
    (numberParts n cs).map (·.2) = cs := by
  induction cs generalizing n with
  | nil => rfl
  | cons c cs ih => rw [numberParts, List.map_cons, ih]

theorem imposeParts_eq_map (e : Restriction) (n : Nat) (cs : List (Role × Plan)) :
    imposeParts e n cs = (numberParts n cs).map fun c => (c.2.1, (c.2.2.impose e c.1).value) := by
  induction cs generalizing n with
  | nil => rfl
  | cons c cs ih => rw [imposeParts, numberParts, List.map_cons, ih]

/-- The joins of a plan, as they are read, each with its surroundings. The plan stands in `s`, and
its first owner has number `n`. -/
def sites (s : Surroundings) (n : Nat) (p : Plan) : List Site :=
  (p.site? s).toList ++ (numberParts (n + p.owner?.toList.length) p.parts).attach.flatMap fun c =>
    c.1.2.2.sites (s.inside n p c.1.2.1) c.1.1
termination_by sizeOf p
decreasing_by exact sizeOf_lt_of_mem_parts (snd_mem_of_mem_numberParts c.2)

/-- The joins of a whole plan, each with its surroundings. -/
def joinSites (p : Plan) : List Site := p.sites {} 0

/-- The joins of parts, one after another; a part that counts for `ρ` stands in `inside ρ`. -/
def sitesParts (inside : Role → Surroundings) (n : Nat) (cs : List (Role × Plan)) : List Site :=
  (numberParts n cs).flatMap fun c => c.2.2.sites (inside c.2.1) c.1

theorem sitesParts_cons (inside : Role → Surroundings) (n : Nat) (c : Role × Plan)
    (cs : List (Role × Plan)) :
    sitesParts inside n (c :: cs)
      = c.2.sites (inside c.1) n ++ sitesParts inside (n + c.2.owners.length) cs := by
  rw [sitesParts, numberParts, List.flatMap_cons, sitesParts]

theorem sites_eq (s : Surroundings) (n : Nat) (p : Plan) :
    p.sites s n = (p.site? s).toList
      ++ sitesParts (s.inside n p) (n + p.owner?.toList.length) p.parts := by
  rw [sites, sitesParts, List.flatMap_subtype
    (g := fun c => c.2.2.sites (s.inside n p c.2.1) c.1) (fun _ _ => rfl), List.unattach_attach]

/-- However a plan stands and is numbered, its sites are its joins. -/
theorem map_node_sites (s : Surroundings) (n : Nat) (p : Plan) :
    (p.sites s n).map Site.node = p.joins := by
  induction p using inductionOnParts generalizing s n with
  | step p ih =>
    have hparts : ∀ (inside : Role → Surroundings) (n : Nat) (cs : List (Role × Plan)),
        cs ⊆ p.parts → (sitesParts inside n cs).map Site.node = cs.flatMap (·.2.joins) := by
      intro inside n cs hcs
      induction cs generalizing n with
      | nil => rfl
      | cons c cs ihcs =>
        obtain ⟨hc, hcs⟩ := List.cons_subset.1 hcs
        rw [sitesParts_cons, List.map_append, ih c hc, ihcs _ hcs, List.flatMap_cons]
    rw [sites_eq, List.map_append, hparts _ _ _ (List.Subset.refl _), ← joins_eq]

theorem map_node_joinSites (p : Plan) : p.joinSites.map Site.node = p.joins :=
  map_node_sites {} 0 p

/-! ### The joins of a tree -/

/-- The joins of a tree, read through parentheses too, or through joins alone. -/
def treeJoins (through : Bool) : Plan → List Plan
  | join kind l r on => join kind l r on :: (l.treeJoins through ++ r.treeJoins through)
  | group p => if through then p.treeJoins through else []
  | _ => []

/-- The joins of sites in whose surroundings scope `k` is. -/
def joinsWithin (through : Bool) (k : Nat) (σs : List Site) : List Plan :=
  (σs.filter fun σ => k ∈ σ.scopes through).map Site.node

section

variable (through : Bool) (k : Nat)

theorem joinsWithin_append (σs τs : List Site) :
    joinsWithin through k (σs ++ τs) = joinsWithin through k σs ++ joinsWithin through k τs := by
  rw [joinsWithin, List.filter_append, List.map_append, joinsWithin, joinsWithin]

theorem joinsWithin_site? (s : Surroundings) (p : Plan) :
    joinsWithin through k (p.site? s).toList
      = if k ∈ s.scopes through then (p.site? s).toList.map Site.node else [] := by
  cases p with
  | join kind l r on =>
    have hscopes : (Site.mk s kind l r on).scopes through = s.scopes through := rfl
    split <;> simp [joinsWithin, site?, *]
  | _ => simp [joinsWithin, site?]

variable {through k}

/-- What a node does to the scopes around it, as far as trees go. -/
theorem joinsWithin_node (s : Surroundings) {n : Nat} {p : Plan} (hk : p.owner?.isSome → k ≠ n) :
    (if k ∈ s.scopes through then (p.site? s).toList.map Site.node else [])
        ++ (p.parts.flatMap fun c => if k ∈ (s.inside n p c.1).scopes through
          then c.2.treeJoins through else [])
      = if k ∈ s.scopes through then p.treeJoins through else [] := by
  cases p with
  | select q =>
    have hne : k ≠ n := hk rfl
    simp [site?, parts, Surroundings.inside, hne, treeJoins, List.flatMap_map]
  | join kind l r on =>
    cases hkind : kind.isOuter with
    | true =>
      have hne : k ≠ n := hk (by rw [isSome_owner?_join, hkind])
      by_cases hs : k ∈ s.scopes through <;>
        simp [site?, parts, Surroundings.inside, hkind, hne, hs, treeJoins, Site.node,
          List.flatMap_map]
    | false =>
      by_cases hs : k ∈ s.scopes through <;>
        simp [site?, parts, Surroundings.inside, hkind, hs, treeJoins, Site.node,
          List.flatMap_map]
  | group p =>
    cases through <;> simp [site?, parts, Surroundings.inside, Surroundings.scopes, treeJoins]
  | _ => simp [site?, parts, Surroundings.inside, treeJoins, List.flatMap_map]

private theorem joinsWithin_sitesParts_of_forall {inside : Role → Surroundings} {n : Nat}
    {cs : List (Role × Plan)} (hk : k < n ∨ n + (cs.flatMap (·.2.owners)).length ≤ k)
    (h : ∀ c ∈ cs, ∀ s n, k < n ∨ n + c.2.owners.length ≤ k →
      joinsWithin through k (c.2.sites s n)
        = if k ∈ s.scopes through then c.2.treeJoins through else []) :
    joinsWithin through k (sitesParts inside n cs)
      = cs.flatMap fun c => if k ∈ (inside c.1).scopes through
        then c.2.treeJoins through else [] := by
  induction cs generalizing n with
  | nil => rfl
  | cons c cs ih =>
    rw [List.flatMap_cons, List.length_append] at hk
    rw [sitesParts_cons, joinsWithin_append, h c List.mem_cons_self _ _ (by omega),
      ih (by omega) fun c' hc' => h c' (List.mem_cons_of_mem _ hc'), List.flatMap_cons]

/-- A scope from outside is around the joins of a plan as far as the tree of the plan goes. -/
theorem joinsWithin_sites (p : Plan) (s : Surroundings) (n : Nat)
    (hk : k < n ∨ n + p.owners.length ≤ k) :
    joinsWithin through k (p.sites s n)
      = if k ∈ s.scopes through then p.treeJoins through else [] := by
  induction p using inductionOnParts generalizing s n with
  | step p ih =>
    rw [owners_eq, List.length_append] at hk
    have hne : p.owner?.isSome → k ≠ n := by
      intro ho
      obtain ⟨o, ho⟩ := Option.isSome_iff_exists.1 ho
      rw [ho, Option.toList_some, List.length_singleton] at hk
      omega
    rw [sites_eq, joinsWithin_append, joinsWithin_site?,
      joinsWithin_sitesParts_of_forall (by omega) fun c hc s n => ih c hc s n,
      joinsWithin_node s hne]

theorem joinsWithin_sitesParts (inside : Role → Surroundings) {n : Nat} {cs : List (Role × Plan)}
    (hk : k < n ∨ n + (cs.flatMap (·.2.owners)).length ≤ k) :
    joinsWithin through k (sitesParts inside n cs)
      = cs.flatMap fun c => if k ∈ (inside c.1).scopes through
        then c.2.treeJoins through else [] :=
  joinsWithin_sitesParts_of_forall hk fun c _ => joinsWithin_sites c.2

/-- A scope node has the joins of its trees around it. -/
theorem joinsWithin_parts_of_owner (s : Surroundings) {n : Nat} {p : Plan} (ho : p.owner?.isSome) :
    (p.parts.flatMap fun c => if n ∈ (s.inside n p c.1).scopes through
        then c.2.treeJoins through else [])
      = p.trees.flatMap (treeJoins through) := by
  cases p with
  | select q => simp [parts, Surroundings.inside, trees, List.flatMap_map]
  | join kind l r on =>
    rw [isSome_owner?_join] at ho
    simp [parts, Surroundings.inside, ho, trees, List.flatMap_map]
  | _ => simp [owner?] at ho

/-- The scopes around a part are those around its node and the scope of the node. -/
theorem lt_of_mem_scopes_inside {s : Surroundings} {n : Nat} {p : Plan} {c : Role × Plan}
    (hs : ∀ k ∈ s.scopes through, k < n) (hc : c ∈ p.parts) {k : Nat}
    (hk : k ∈ (s.inside n p c.1).scopes through) : k < n + p.owner?.toList.length := by
  have hlt : k ∈ s.scopes through → k < n + p.owner?.toList.length :=
    fun hk => Nat.lt_add_right _ (hs k hk)
  unfold Surroundings.inside at hk
  split at hk
  · rw [Surroundings.scopes_singleton, List.mem_singleton] at hk
    simp [owner?, hk]
  · next kind l r on hrole =>
    cases ho : kind.isOuter with
    | true =>
      rw [Surroundings.scopes_cons, List.mem_cons] at hk
      rcases hk with rfl | hk
      · simp [owner?, ho]
      · exact hlt hk
    | false =>
      -- The sides of an inner join are no sources.
      exact absurd hrole (role_ne_source (by simp [owner?, ho]) hc)
  · exact hlt hk
  · cases through with
    | false => exact absurd hk List.not_mem_nil
    | true => exact hlt hk
  · simp at hk

private theorem joinsWithin_sitesParts_scopeNodes {inside : Role → Surroundings} {m : Plan}
    (n i : Nat) {cs : List (Role × Plan)}
    (hinside : ∀ c ∈ cs, ∀ k ∈ (inside c.1).scopes through, k < n)
    (hm : (cs.flatMap (·.2.scopeNodes))[i]? = some m)
    (h : ∀ c ∈ cs, ∀ s n i, (∀ k ∈ s.scopes through, k < n) → c.2.scopeNodes[i]? = some m →
      joinsWithin through (n + i) (c.2.sites s n) = m.trees.flatMap (treeJoins through)) :
    joinsWithin through (n + i) (sitesParts inside n cs) = m.trees.flatMap (treeJoins through) := by
  induction cs generalizing n i with
  | nil => simp at hm
  | cons c cs ih =>
    have hlt := hinside c List.mem_cons_self
    have hcs : ∀ d ∈ cs, ∀ k ∈ (inside d.1).scopes through, k < n := fun d hd =>
      hinside d (List.mem_cons_of_mem _ hd)
    rw [List.flatMap_cons, List.getElem?_append] at hm
    rw [sitesParts_cons, joinsWithin_append]
    split at hm
    · next hi =>
      -- The parts behind have other numbers, and what is around them has smaller ones.
      have hrest : ∀ d ∈ cs, n + i ∉ (inside d.1).scopes through := fun d hd hk =>
        absurd (hcs d hd _ hk) (by omega)
      rw [length_scopeNodes] at hi
      rw [h c List.mem_cons_self _ n i hlt hm, joinsWithin_sitesParts _ (.inl (by omega)),
        List.flatMap_eq_nil_iff.2 fun d hd => if_neg (hrest d hd), List.append_nil]
    · next hi =>
      rw [length_scopeNodes] at hi hm
      have htail := ih (n + c.2.owners.length) _
        (fun d hd k hk => Nat.lt_add_right _ (hcs d hd k hk)) hm
        fun d hd => h d (List.mem_cons_of_mem _ hd)
      have hindex : n + c.2.owners.length + (i - c.2.owners.length) = n + i := by omega
      rw [hindex] at htail
      rw [joinsWithin_sites c.2 _ _ (.inr (by omega)),
        if_neg fun hk => absurd (hlt _ hk) (by omega), List.nil_append, htail]

/-- The joins that a scope has around it are those of its trees, however the plan stands and is
numbered. -/
theorem joinsWithin_scopeNodes {p m : Plan} (s : Surroundings) (n i : Nat)
    (hs : ∀ k ∈ s.scopes through, k < n) (hm : p.scopeNodes[i]? = some m) :
    joinsWithin through (n + i) (p.sites s n) = m.trees.flatMap (treeJoins through) := by
  induction p using inductionOnParts generalizing s n i with
  | step p ih =>
    have hsite : joinsWithin through (n + i) (p.site? s).toList = [] := by
      rw [joinsWithin_site?, if_neg fun hk => absurd (hs _ hk) (by omega)]
    have hinside : ∀ c ∈ p.parts, ∀ k ∈ (s.inside n p c.1).scopes through,
        k < n + p.owner?.toList.length := fun c hc k hk => lt_of_mem_scopes_inside hs hc hk
    rw [sites_eq, joinsWithin_append, hsite, List.nil_append]
    rw [scopeNodes_eq] at hm
    cases ho : p.owner? with
    | none =>
      rw [ho] at hm hinside
      exact joinsWithin_sitesParts_scopeNodes n i hinside hm ih
    | some o =>
      rw [ho, Option.isSome_some, if_pos rfl, List.singleton_append] at hm
      rw [ho, Option.toList_some, List.length_singleton] at hinside
      rw [Option.toList_some, List.length_singleton]
      cases i with
      | zero =>
        obtain rfl : p = m := Option.some.inj hm
        rw [joinsWithin_sitesParts _ (.inl (by omega)), Nat.add_zero,
          joinsWithin_parts_of_owner s (by rw [ho, Option.isSome_some])]
      | succ i =>
        have hparts := joinsWithin_sitesParts_scopeNodes (n + 1) i hinside hm ih
        rwa [Nat.add_assoc, Nat.add_comm 1 i] at hparts

end

/-- The sites in whose surroundings a scope is are the joins of its trees, in this order. -/
theorem map_node_filter_joinSites (through : Bool) {p m : Plan} {n : Nat}
    (hm : p.scopeNodes[n]? = some m) :
    (p.joinSites.filter fun σ => n ∈ σ.scopes through).map Site.node
      = m.trees.flatMap (treeJoins through) := by
  have hnone : ∀ k ∈ ({} : Surroundings).scopes through, k < 0 := by simp
  have hsites := joinsWithin_scopeNodes _ 0 n hnone hm
  rwa [Nat.zero_add] at hsites

/-- A join is in one of the trees of each scope that is in its surroundings. -/
theorem node_mem_treeJoins {p : Plan} {σ : Site} (hσ : σ ∈ p.joinSites) {through : Bool} {n : Nat}
    (hn : n ∈ σ.scopes through) {m : Plan} (hm : p.scopeNodes[n]? = some m) :
    σ.node ∈ m.trees.flatMap (treeJoins through) := by
  rw [← map_node_filter_joinSites through hm]
  exact List.mem_map_of_mem (List.mem_filter.2 ⟨hσ, decide_eq_true hn⟩)

end Plan

end Tenancy
