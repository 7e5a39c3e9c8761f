import Tenancy.Plan.Sql
import Tenancy.Proofs.Scope.Links
import Tenancy.Proofs.Scope.Numbering

namespace Tenancy

/-!
# Sources — the outer joins in the source of a `SELECT`, and their scopes

* `Plan.Encloses` — a scope node is around another one, with none between them;
* `Scope.Family` — the scope around a scope is that of the scope node around its node;
* `Plan.JoinsInSources` — a plan with joins in the sources of `SELECT`s and nowhere else;
* `exists_select_reaches` — there every scope is reached by a `SELECT`;
* `ons_subset_of_reaches` — what a scope reaches is in the tree of joins that it has as its source;
* `exists_seen` — each tenant relation of the source is read in a scope that is reached.
-/

namespace Plan

/-! ### Scope nodes around scope nodes -/

/-- The scope node `q` is in the plan, and no scope node of the plan is around it. -/
inductive Outermost (q : Plan) : Plan → Prop
  /-- The plan itself. -/
  | self : q.owner?.isSome → Outermost q q
  /-- A node inside a part. -/
  | part {p : Plan} {c : Role × Plan} : p.owner? = none → c ∈ p.parts → Outermost q c.2 →
    Outermost q p

/-- The scope node `q` is inside the node, and no other scope node of the node is around it. -/
def Encloses (p q : Plan) : Prop := ∃ c ∈ p.parts, Outermost q c.2

theorem outermost_iff_of_owner {p q : Plan} (hp : p.owner?.isSome) : Outermost q p ↔ q = p := by
  constructor
  · intro h
    cases h with
    | self _ => rfl
    | part hnone => simp [hnone] at hp
  · rintro rfl
    exact .self hp

theorem outermost_iff_encloses {p q : Plan} (hp : p.owner? = none) :
    Outermost q p ↔ p.Encloses q := by
  constructor
  · intro h
    cases h with
    | self ho => simp [hp] at ho
    | part _ hc hq => exact ⟨_, hc, hq⟩
  · rintro ⟨c, hc, hq⟩
    exact .part hp hc hq

theorem Outermost.owner {p q : Plan} (h : Outermost q p) : q.owner?.isSome := by
  induction h with
  | self ho => exact ho
  | part _ _ _ ih => exact ih

theorem Outermost.sizeOf_le {p q : Plan} (h : Outermost q p) : sizeOf q ≤ sizeOf p := by
  induction h with
  | self _ => exact Nat.le_refl _
  | part _ hc _ ih => exact Nat.le_of_lt (Nat.lt_of_le_of_lt ih (sizeOf_lt_of_mem_parts hc))

theorem Encloses.sizeOf_lt {p q : Plan} (h : p.Encloses q) : sizeOf q < sizeOf p := by
  obtain ⟨c, hc, hq⟩ := h
  exact Nat.lt_of_le_of_lt hq.sizeOf_le (sizeOf_lt_of_mem_parts hc)

end Plan

/-! ### Scopes around scopes -/

namespace Scope

/-- A row of scopes with their nodes, the first of which has number `n`, in a scope with the number
`parent`. The nodes `roots` are those that no scope node of the row is around. -/
structure Family (parent : Option Nat) (n : Nat) (roots : Plan → Prop) (row : List (Scope × Plan)) :
    Prop where
  around : ∀ {i : Nat} {s : Scope} {q : Plan}, row[i]? = some (s, q) →
    (s.parent = parent ∧ roots q) ∨
      ∃ j s' q', j < i ∧ row[j]? = some (s', q') ∧ s.parent = some (n + j) ∧ q'.Encloses q
  root : ∀ {q : Plan}, roots q → ∃ (i : Nat) (s : Scope), row[i]? = some (s, q) ∧ s.parent = parent
  enclosed : ∀ {j : Nat} {s : Scope} {q q' : Plan}, row[j]? = some (s, q) → q.Encloses q' →
    ∃ (i : Nat) (s' : Scope), row[i]? = some (s', q') ∧ s'.parent = some (n + j)

variable {parent : Option Nat} {n : Nat} {P Q : Plan → Prop} {xs ys : List (Scope × Plan)}

theorem Family.congr (h : Family parent n P xs) (hPQ : ∀ q, P q ↔ Q q) : Family parent n Q xs where
  around hi := (h.around hi).imp_left fun ⟨hp, hq⟩ => ⟨hp, (hPQ _).1 hq⟩
  root hq := h.root ((hPQ _).2 hq)
  enclosed := h.enclosed

theorem Family.nil : Family parent n (fun _ => False) [] :=
  ⟨by simp, False.elim, by simp⟩

theorem Family.append (hxs : Family parent n P xs) (hys : Family parent (n + xs.length) Q ys) :
    Family parent n (fun q => P q ∨ Q q) (xs ++ ys) := by
  have hleft : ∀ {i : Nat} {x : Scope × Plan}, xs[i]? = some x → (xs ++ ys)[i]? = some x := by
    intro i x hi
    rw [List.getElem?_append_left (List.getElem?_eq_some_iff.1 hi).1, hi]
  have hright : ∀ {i : Nat} {x : Scope × Plan}, ys[i]? = some x →
      (xs ++ ys)[xs.length + i]? = some x := by
    intro i x hi
    rw [List.getElem?_append_right (by omega), Nat.add_sub_cancel_left, hi]
  constructor
  · intro i s q hi
    rw [List.getElem?_append] at hi
    split at hi
    · rcases hxs.around hi with ⟨hp, hq⟩ | ⟨j, s', q', hj, hs', hp, hq⟩
      · exact .inl ⟨hp, .inl hq⟩
      · exact .inr ⟨j, s', q', hj, hleft hs', hp, hq⟩
    · rcases hys.around hi with ⟨hp, hq⟩ | ⟨j, s', q', hj, hs', hp, hq⟩
      · exact .inl ⟨hp, .inr hq⟩
      · exact .inr ⟨xs.length + j, s', q', by omega, hright hs', by rw [hp, Nat.add_assoc], hq⟩
  · rintro q (hq | hq)
    · obtain ⟨i, s, hi, hp⟩ := hxs.root hq
      exact ⟨i, s, hleft hi, hp⟩
    · obtain ⟨i, s, hi, hp⟩ := hys.root hq
      exact ⟨_, s, hright hi, hp⟩
  · intro j s q q' hj hq
    rw [List.getElem?_append] at hj
    split at hj
    · obtain ⟨i, s', hi, hp⟩ := hxs.enclosed hj hq
      exact ⟨i, s', hleft hi, hp⟩
    · obtain ⟨i, s', hi, hp⟩ := hys.enclosed hj hq
      exact ⟨_, s', hright hi, by rw [hp]; congr 1; omega⟩

/-- A scope in front of the row that it is around of. -/
theorem Family.cons {s : Scope} {p : Plan} (hs : s.parent = parent)
    (hxs : Family (some n) (n + 1) p.Encloses xs) :
    Family parent n (· = p) ((s, p) :: xs) := by
  constructor
  · intro i t q hi
    cases i with
    | zero =>
      obtain ⟨rfl, rfl⟩ : s = t ∧ p = q := by simpa using hi
      exact .inl ⟨hs, rfl⟩
    | succ i =>
      refine .inr ?_
      rcases hxs.around hi with ⟨hp, hq⟩ | ⟨j, s', q', hj, hs', hp, hq⟩
      · exact ⟨0, s, p, by omega, rfl, hp, hq⟩
      · exact ⟨j + 1, s', q', by omega, hs', by rw [hp]; congr 1; omega, hq⟩
  · rintro q rfl
    exact ⟨0, s, rfl, hs⟩
  · intro j t q q' hj hq
    cases j with
    | zero =>
      obtain ⟨rfl, rfl⟩ : s = t ∧ p = q := by simpa using hj
      obtain ⟨i, s', hi, hp⟩ := hxs.root hq
      exact ⟨i + 1, s', hi, hp⟩
    | succ j =>
      obtain ⟨i, s', hi, hp⟩ := hxs.enclosed hj hq
      exact ⟨i + 1, s', hi, by rw [hp]; congr 1; omega⟩

end Scope

namespace Plan

open ScopeTree (numberAll numberAll_append)
open Scope (Family Reaches)

/-- The scopes of several parts, one part after another. -/
private theorem family_numberAll_flatMap {g : Partitioning} {reading : Reading}
    {parent : Option Nat} {inherited : List Relation} (n : Nat) {cs : List (Role × Plan)}
    (h : ∀ c ∈ cs, ∀ n, Family parent n (Outermost · c.2)
      ((numberAll parent inherited n (c.2.survey g (c.1.reading reading)).inner).zip
        c.2.scopeNodes)) :
    Family parent n (fun q => ∃ c ∈ cs, Outermost q c.2)
      ((numberAll parent inherited n (surveyParts g reading cs).inner).zip
        (cs.flatMap (·.2.scopeNodes))) := by
  rw [inner_surveyParts]
  induction cs generalizing n with
  | nil => exact Family.nil.congr (by simp)
  | cons c cs ih =>
    have hlength := (records_numberAll g c.2 (c.1.reading reading) parent inherited n).length_eq
    rw [List.flatMap_cons, List.flatMap_cons, numberAll_append, List.zip_append hlength]
    refine ((h c List.mem_cons_self n).append ?_).congr fun q =>
      (List.exists_mem_cons_iff (fun c' => Outermost q c'.2) c cs).symm
    rw [List.length_zip, ← hlength, Nat.min_self]
    exact ih _ fun c' hc' => h c' (List.mem_cons_of_mem _ hc')

/-- However a survey is numbered, the scope around a scope is that of the node around its node. -/
theorem family_numberAll (g : Partitioning) (p : Plan) (reading : Reading) (parent : Option Nat)
    (inherited : List Relation) (n : Nat) :
    Family parent n (Outermost · p)
      ((numberAll parent inherited n (p.survey g reading).inner).zip p.scopeNodes) := by
  induction p using inductionOnParts generalizing reading parent inherited n with
  | step p ih =>
    rw [scopeNodes_eq]
    cases h : p.owner? with
    | none =>
      rw [survey_of_not_owner h, Findings.inner_append, inner_mention]
      exact (family_numberAll_flatMap n fun c hc n => ih c hc _ _ _ n).congr fun q =>
        (outermost_iff_encloses h).symm
    | some o =>
      rw [survey_of_owner h]
      simp only [Findings.scope, numberAll, ScopeTree.number, List.append_nil, Option.isSome_some,
        if_true, List.singleton_append, List.zip_cons_cons]
      have hparts : ∀ inherited, Family (some n) (n + 1) p.Encloses
          ((numberAll (some n) inherited (n + 1) (p.interior g).inner).zip
            (p.parts.flatMap (·.2.scopeNodes))) := fun inherited =>
        family_numberAll_flatMap (n + 1) fun c hc => ih c hc (c.1.reading .condition) _ inherited
      have hself : ∀ q, q = p ↔ Outermost q p := fun q =>
        (outermost_iff_of_owner (by rw [h, Option.isSome_some])).symm
      refine Family.congr ?_ hself
      exact .cons rfl (hparts _)

variable {g : Partitioning} {p : Plan}

private theorem getElem?_zip_scopes {i : Nat} {s : Scope} {q : Plan} :
    ((p.scopes g).zip p.scopeNodes)[i]? = some (s, q) ↔
      (p.scopes g)[i]? = some s ∧ p.scopeNodes[i]? = some q :=
  List.getElem?_zip_eq_some

/-- A scope is at the top of the plan, or in the scope of the node around its node. -/
theorem exists_encloses {i : Nat} {s : Scope} {q : Plan} (hs : (p.scopes g)[i]? = some s)
    (hq : p.scopeNodes[i]? = some q) : (s.parent = none ∧ Outermost q p) ∨
      ∃ j q', j < i ∧ p.scopeNodes[j]? = some q' ∧ s.parent = some j ∧ q'.Encloses q := by
  refine ((family_numberAll g p .condition none [] 0).around
    (getElem?_zip_scopes.2 ⟨hs, hq⟩)).imp_right ?_
  rintro ⟨j, s', q', hj, hs', hp, henc⟩
  exact ⟨j, q', hj, (getElem?_zip_scopes.1 hs').2, by rw [hp, Nat.zero_add], henc⟩

theorem exists_scope_of_encloses (g : Partitioning) {j : Nat} {q q' : Plan}
    (hq : p.scopeNodes[j]? = some q) (h : q.Encloses q') :
    ∃ (i : Nat) (s : Scope), (p.scopes g)[i]? = some s ∧ p.scopeNodes[i]? = some q' ∧
      s.parent = some j := by
  obtain ⟨s, hs, -⟩ := exists_getElem?_of_forall₂ (records_scopes g p).flip hq
  obtain ⟨i, s', hi, hp⟩ :=
    (family_numberAll g p .condition none [] 0).enclosed (getElem?_zip_scopes.2 ⟨hs, hq⟩) h
  obtain ⟨hs', hq'⟩ := getElem?_zip_scopes.1 hi
  exact ⟨i, s', hs', hq', by rw [hp, Nat.zero_add]⟩

/-! ### What reaches what -/

end Plan

namespace Scope

variable {scopes : List Scope}

theorem Reaches.trans {k m n : Nat} (h : Reaches scopes k m) (h' : Reaches scopes m n) :
    Reaches scopes k n := by
  induction h' with
  | refl => exact h
  | outerJoin hs ho hp _ ih => exact .outerJoin hs ho hp ih

/-- A `SELECT` reaches whatever is between it and a scope that it reaches. -/
theorem Reaches.of_select {k m n : Nat} {s : Scope} (h : Reaches scopes m n)
    (h' : Reaches scopes k n) (hs : scopes[k]? = some s) (ho : s.owner = .select) :
    Reaches scopes k m := by
  induction h with
  | refl => exact h'
  | outerJoin hn houter hp _ ih =>
    refine ih ?_
    cases h' with
    | refl =>
      -- The `SELECT` itself is no outer join.
      rw [Option.some.inj (hs.symm.trans hn), houter] at ho
      cases ho
    | outerJoin hn' _ hp' h' =>
      obtain rfl := Option.some.inj (hn.symm.trans hn')
      obtain rfl := Option.some.inj (hp.symm.trans hp')
      exact h'

end Scope

namespace Plan

open Scope (Reaches)

variable {g : Partitioning}

/-! ### Joins in sources -/

/-- May a join stand as this part of a node, which stands where a join may stand or may not? -/
def takesJoins (inSource : Bool) : Plan → Role → Bool
  | select _, ρ => ρ = .source
  | join .., ρ => ρ ≠ .condition
  | group _, _ => inSource
  | _, _ => false

/-- Every join in the plan stands in the source of a `SELECT`, with joins and parentheses around it
alone; at the top a join may stand if `inSource`. -/
inductive JoinsInSources : Bool → Plan → Prop
  /-- A node whose parts are such plans. -/
  | node {inSource : Bool} {p : Plan} : (p.isJoin = true → inSource = true) →
    (∀ c ∈ p.parts, JoinsInSources (p.takesJoins inSource c.1) c.2) → JoinsInSources inSource p

variable {inSource : Bool} {p q : Plan}

theorem JoinsInSources.part (h : p.JoinsInSources inSource) {c : Role × Plan} (hc : c ∈ p.parts) :
    c.2.JoinsInSources (p.takesJoins inSource c.1) := by
  cases h with
  | node _ hparts => exact hparts c hc

theorem JoinsInSources.eq_true (h : p.JoinsInSources inSource) (hp : p.isJoin = true) :
    inSource = true := by
  cases h with
  | node hjoin _ => exact hjoin hp

theorem JoinsInSources.of_mem_nodes (h : p.JoinsInSources inSource) (hq : q ∈ p.nodes) :
    ∃ b, q.JoinsInSources b := by
  induction p using inductionOnParts generalizing inSource with
  | step p ih =>
    rw [nodes_eq p, List.mem_cons, List.mem_flatMap] at hq
    rcases hq with rfl | ⟨c, hc, hq⟩
    · exact ⟨inSource, h⟩
    · exact ih c hc (h.part hc) hq

theorem exists_eq_join (h : p.owner? = some .outerJoin) :
    ∃ kind l r on, p = join kind l r on := by
  cases p with
  | join kind l r on => exact ⟨kind, l, r, on, rfl⟩
  | _ => simp [owner?] at h

theorem takesJoins_of_not_join (h : p.owner? = none) (hp : p.isJoin = false) (ρ : Role) :
    p.takesJoins false ρ = false := by
  cases p with
  | select q => simp [owner?] at h
  | join kind l r on => simp [isJoin] at hp
  | _ => rfl

/-- Where no join may stand the outermost scope nodes are `SELECT`s. -/
theorem JoinsInSources.ne_outerJoin (h : p.JoinsInSources false) (hq : Outermost q p) :
    q.owner? ≠ some .outerJoin := by
  induction hq with
  | self _ =>
    intro ho
    obtain ⟨kind, l, r, on, rfl⟩ := exists_eq_join ho
    exact Bool.false_ne_true (h.eq_true rfl)
  | @part p c hp hc _ ih =>
    have hjoin : p.isJoin = false := Bool.eq_false_iff.2 fun hj => Bool.false_ne_true (h.eq_true hj)
    have hpart := h.part hc
    rw [takesJoins_of_not_join hp hjoin] at hpart
    exact ih hpart

theorem JoinsInSources.eq_true_of_outermost (h : p.JoinsInSources inSource) (hq : Outermost q p)
    (ho : q.owner? = some .outerJoin) : inSource = true := by
  cases inSource with
  | true => rfl
  | false => exact absurd ho (h.ne_outerJoin hq)

/-- The `ON` conditions of an outermost join of a tree are conditions of the tree. -/
theorem JoinsInSources.ons_subset (h : p.JoinsInSources inSource) (hq : Outermost q p)
    (ho : q.owner? = some .outerJoin) : q.ons ⊆ p.ons := by
  induction hq generalizing inSource with
  | self _ => exact List.Subset.refl _
  | @part p c hp hc hq ih =>
    have hpart := h.part hc
    have htakes := hpart.eq_true_of_outermost hq ho
    cases p with
    | join kind l r on =>
      simp only [parts, List.mem_cons, List.mem_map] at hc
      rcases hc with rfl | rfl | ⟨d, hd, rfl⟩
      · exact fun x hx => List.mem_append_left _ (List.mem_append_left _ (ih hpart hx))
      · exact fun x hx => List.mem_append_left _ (List.mem_append_right _ (ih hpart hx))
      · simp [takesJoins] at htakes
    | group p =>
      obtain rfl := List.mem_singleton.1 hc
      exact ih hpart
    | select query => simp [owner?] at hp
    | _ => exact absurd htakes Bool.false_ne_true

/-! ### The tree of a scope node -/

theorem exists_eq_select (h : p.owner? = some .select) : ∃ query, p = select query := by
  cases p with
  | select query => exact ⟨query, rfl⟩
  | join kind l r on => by_cases hkind : kind.isOuter <;> simp [owner?, hkind] at h
  | _ => simp [owner?] at h

/-- The tree of joins that a scope node has as its source, or is. -/
def tree? : Plan → Option Plan
  | select q => q.source
  | p => some p

/-- The `ON` conditions of the tree of a scope node. -/
def sourceOns (p : Plan) : List Plan := p.tree?.elim [] ons

/-- The relations of the tree of a scope node. -/
def sourceRelations (p : Plan) : List Relation := p.tree?.elim [] relations

theorem ons_subset_sourceOns (hp : p.owner?.isSome) {t : Plan} (ht : (.source, t) ∈ p.parts) :
    t.ons ⊆ p.sourceOns := by
  intro x hx
  cases p with
  | select q =>
    have hsource : q.source = some t := by simpa [parts] using ht
    rw [sourceOns, tree?, hsource]
    exact hx
  | join kind l r on =>
    rw [isSome_owner?_join] at hp
    simp only [parts, hp, if_true, List.mem_cons, Prod.mk.injEq, true_and, List.mem_map] at ht
    rcases ht with rfl | rfl | ⟨_, _, ht, -⟩
    · exact List.mem_append_left _ (List.mem_append_left _ hx)
    · exact List.mem_append_left _ (List.mem_append_right _ hx)
    · cases ht
  | _ => simp [owner?] at hp

/-- Only as a source does a scope node take joins. -/
theorem eq_source_of_takesJoins (hp : p.owner?.isSome) {c : Role × Plan} (hc : c ∈ p.parts)
    (h : p.takesJoins inSource c.1 = true) : c.1 = .source := by
  cases p with
  | select q => simpa [takesJoins] using h
  | join kind l r on =>
    rw [isSome_owner?_join] at hp
    simp only [parts, hp, if_true, List.mem_cons, List.mem_map] at hc
    rcases hc with rfl | rfl | ⟨_, _, rfl⟩
    · rfl
    · rfl
    · simp [takesJoins] at h
  | _ => simp [owner?] at hp

/-- The tree of an outer join is in the tree of the node around it. -/
theorem JoinsInSources.sourceOns_subset (h : p.JoinsInSources inSource) (hp : p.owner?.isSome)
    (hq : p.Encloses q) (ho : q.owner? = some .outerJoin) : q.sourceOns ⊆ p.sourceOns := by
  have hself : q.sourceOns = q.ons := by
    obtain ⟨kind, l, r, on, rfl⟩ := exists_eq_join ho
    rfl
  obtain ⟨⟨ρ, t⟩, ht, hq⟩ := hq
  have hpart := h.part ht
  obtain rfl : ρ = .source := eq_source_of_takesJoins hp ht (hpart.eq_true_of_outermost hq ho)
  rw [hself]
  exact List.Subset.trans (hpart.ons_subset hq ho) (ons_subset_sourceOns hp ht)

/-- A relation of the source of a scope node is a relation of one of its sources. -/
theorem exists_source_of_mem_sourceRelations (hp : p.owner?.isSome) {r : Relation}
    (hr : r ∈ p.sourceRelations) : ∃ t, (.source, t) ∈ p.parts ∧ r ∈ t.relations := by
  cases p with
  | select q =>
    cases hsource : q.source with
    | none => simp [sourceRelations, tree?, hsource] at hr
    | some t =>
      rw [sourceRelations, tree?, hsource] at hr
      exact ⟨t, by simp [parts, hsource], hr⟩
  | join kind l r' on =>
    rw [isSome_owner?_join] at hp
    rcases List.mem_append.1 hr with hr | hr
    · exact ⟨l, by simp [parts, hp], hr⟩
    · exact ⟨r', by simp [parts, hp], hr⟩
  | _ => simp [owner?] at hp

/-- A tenant table, which may have an alias, is read where a source stands. -/
theorem mem_seen_of_relation? {r : Relation} (hcovers : g.covers r.table)
    (hr : p.relation? = some r) : r ∈ (p.survey g .source).seen := by
  have href : r ∈ (Findings.reference g .source r).seen := by
    simp [Findings.reference, Reading.source, hcovers]
  cases p with
  | table name =>
    obtain rfl := Option.some.inj hr
    exact href
  | aliased p a =>
    cases p with
    | table name =>
      obtain rfl := Option.some.inj hr
      exact href
    | _ => simp [relation?] at hr
  | _ => simp [relation?] at hr

/-- A tenant relation of a tree is read by the tree, or is in one of its outermost outer joins. -/
theorem seen_or_exists_outermost {r : Relation} (hcovers : g.covers r.table)
    (hr : r ∈ p.relations) : r ∈ (p.survey g .source).seen ∨
      ∃ q, Outermost q p ∧ q.owner? = some .outerJoin ∧ r ∈ q.relations := by
  induction p using inductionOnTree with
  | join kind left right on ihl ihr =>
    cases hkind : kind.isOuter with
    | true => exact .inr ⟨_, .self (by simp [owner?, hkind]), by simp [owner?, hkind], hr⟩
    | false =>
      have hnone : (join kind left right on).owner? = none := by simp [owner?, hkind]
      have hside : ∀ side, side = left ∨ side = right →
          (r ∈ (side.survey g .source).seen ∨
            ∃ q, Outermost q side ∧ q.owner? = some .outerJoin ∧ r ∈ q.relations) →
          r ∈ ((join kind left right on).survey g .source).seen ∨ ∃ q,
            Outermost q (join kind left right on) ∧ q.owner? = some .outerJoin ∧
              r ∈ q.relations := by
        intro side hside h
        have hmem : (.inherit, side) ∈ (join kind left right on).parts := by
          rcases hside with rfl | rfl <;> simp [parts, hkind]
        rcases h with hseen | ⟨q, hq, ho, hr⟩
        · refine .inl ?_
          rw [survey_of_not_owner hnone, Findings.seen_append, seen_surveyParts]
          exact List.mem_append_right _ (List.mem_flatMap.2 ⟨_, hmem, hseen⟩)
        · exact .inr ⟨q, .part hnone hmem hq, ho, hr⟩
      rcases List.mem_append.1 hr with hr | hr
      · exact hside left (.inl rfl) (ihl hr)
      · exact hside right (.inr rfl) (ihr hr)
  | group p ih =>
    refine (ih hr).imp id ?_
    rintro ⟨q, hq, ho, hr⟩
    have hpart : (Role.inherit, p) ∈ (group p).parts := List.mem_singleton_self _
    exact ⟨q, .part rfl hpart hq, ho, hr⟩
  | leaf p hleaf =>
    rw [relations_of_leaf hleaf, Option.mem_toList] at hr
    exact .inl (mem_seen_of_relation? hcovers hr)

/-! ### Scopes of one `SELECT` -/

/-- Every scope is reached by a `SELECT`. -/
theorem JoinsInSources.exists_select_reaches (h : p.JoinsInSources false) {n : Nat} {s : Scope}
    (hs : (p.scopes g)[n]? = some s) :
    ∃ k query, Reaches (p.scopes g) k n ∧ p.scopeNodes[k]? = some (select query) := by
  induction n using Nat.strongRecOn generalizing s with
  | ind n ih =>
    obtain ⟨q, hq, hrecords⟩ := exists_records hs
    cases ho : s.owner with
    | select =>
      obtain ⟨query, rfl⟩ := exists_eq_select (hrecords.owner.trans (congrArg some ho))
      exact ⟨n, query, .refl, hq⟩
    | outerJoin =>
      rcases exists_encloses hs hq with ⟨-, htop⟩ | ⟨j, q', hj, hq', hp, -⟩
      · exact absurd (hrecords.owner.trans (congrArg some ho)) (h.ne_outerJoin htop)
      · obtain ⟨s', hs', -⟩ := exists_getElem?_of_forall₂ (records_scopes g p).flip hq'
        obtain ⟨k, query, hk, hquery⟩ := ih j hj hs'
        exact ⟨k, query, .outerJoin hs ho hp hk, hquery⟩

/-- The tree of a scope that is reached is in the tree of the scope that reaches it. -/
theorem JoinsInSources.sourceOns_subset_of_reaches (h : p.JoinsInSources inSource) {k n : Nat}
    {q q' : Plan} (hreaches : Reaches (p.scopes g) k n) (hq : p.scopeNodes[k]? = some q)
    (hq' : p.scopeNodes[n]? = some q') : q'.sourceOns ⊆ q.sourceOns := by
  induction hreaches generalizing q' with
  | refl =>
    obtain rfl := Option.some.inj (hq.symm.trans hq')
    exact List.Subset.refl _
  | outerJoin hs ho hp _ ih =>
    rcases exists_encloses hs hq' with ⟨hnone, -⟩ | ⟨j, around, -, hj, hp', henc⟩
    · simp [hp] at hnone
    · obtain rfl := Option.some.inj (hp.symm.trans hp')
      obtain ⟨hnode, howner⟩ := List.mem_filter.1 (List.mem_of_getElem? hj)
      obtain ⟨b, hjoins⟩ := h.of_mem_nodes hnode
      obtain ⟨_, hq'', hrecords⟩ := exists_records hs
      obtain rfl := Option.some.inj (hq''.symm.trans hq')
      refine List.Subset.trans (hjoins.sourceOns_subset howner henc ?_) (ih hj)
      rw [hrecords.owner, ho]

/-- Each tenant relation of the source of a scope is read in a scope that it reaches. -/
theorem exists_seen {k : Nat} {q : Plan} (hq : p.scopeNodes[k]? = some q) {r : Relation}
    (hcovers : g.covers r.table) (hr : r ∈ q.sourceRelations) :
    ∃ m s, Reaches (p.scopes g) k m ∧ (p.scopes g)[m]? = some s ∧ r ∈ s.seen := by
  induction hn : sizeOf q using Nat.strongRecOn generalizing k q with
  | ind n ih =>
    obtain ⟨s, hs, hrecords⟩ := exists_getElem?_of_forall₂ (records_scopes g p).flip hq
    obtain ⟨t, ht, hr⟩ :=
      exists_source_of_mem_sourceRelations (List.mem_filter.1 (List.mem_of_getElem? hq)).2 hr
    rcases seen_or_exists_outermost hcovers hr with hseen | ⟨q', hq', ho, hr⟩
    · refine ⟨k, s, .refl, hs, ?_⟩
      rw [hrecords.seen, List.mem_eraseDups, interior, seen_surveyParts]
      exact List.mem_flatMap.2 ⟨_, ht, hseen⟩
    · have henc : q.Encloses q' := ⟨_, ht, hq'⟩
      obtain ⟨i, s', hs', hi, hp⟩ := exists_scope_of_encloses g hq henc
      have hrelations : r ∈ q'.sourceRelations := by
        obtain ⟨kind, l, r, on, rfl⟩ := exists_eq_join ho
        exact hr
      obtain ⟨m, s'', hm, hs'', hseen⟩ := ih _ (hn ▸ henc.sizeOf_lt) hi hrelations rfl
      obtain ⟨_, hi', hrecords'⟩ := exists_records hs'
      obtain rfl := Option.some.inj (hi'.symm.trans hi)
      have howner : s'.owner = .outerJoin := Option.some.inj (hrecords'.owner.symm.trans ho)
      exact ⟨m, s'', (Reaches.outerJoin hs' howner hp .refl).trans hm, hs'', hseen⟩

end Plan

end Tenancy
