import Mathlib.Data.List.Perm.Basic
import Tenancy.Proofs.Restrict.Additions
import Tenancy.Proofs.Restrict.Sites
import Tenancy.Proofs.Restrict.Trees

namespace Tenancy

/-!
# Linking — the links that restriction adds, join by join

* `value_linkAll_join`, `foldl_linkedOn` — linking a join for several keys adds one link at most;
* `Plan.Site.link?` — the link that a restriction adds at a site;
* `Plan.imposeIn` — what becomes of a plan that is a part of a larger one;
* `flatMap_parts_imposeIn` — what is collected from its parts;
* `Plan.Site.Becomes` — what becomes of the join at a site;
* `forall₂_becomes_joinSites` — the joins of a restricted plan are those of the plan, each with its
  link;
* `perm_links_impose` — and there are no other links but those of the plan.
-/

namespace Plan

variable {g : Partitioning}

/-! ### The links of a plan -/

/-- The links in a plan, wherever they stand, as they are read. -/
def links : Plan → List Plan := picked isLink

theorem throughAnd_links : ThroughAnd links := fun ps => by
  rw [links, picked_eq rfl, parts, List.flatMap_map]

/-! ### Several keys at one join -/

theorem value_linkAll_nil (p : Plan) : (linkAll g [] p).value = p := rfl

theorem linkAll_append (keys keys' : List Column) (p : Plan) :
    (linkAll g (keys ++ keys') p).value = (linkAll g keys' (linkAll g keys p).value).value := by
  induction keys generalizing p with
  | nil => rfl
  | cons k keys ih => rw [List.cons_append, value_linkAll_cons, ih, value_linkAll_cons]

theorem linkAll_of_not_join (keys : List Column) {p : Plan}
    (h : ∀ kind l r on, p ≠ join kind l r on) : (linkAll g keys p).value = p := by
  refine linkAll_induction (motive := fun q => q = p) rfl fun k _ q hq => ?_
  rw [hq, link_of_not_join g k h, Logged.value_pure]

/-- Which link a join needs depends on what its sides read and on the links in its `ON`. -/
theorem missingLink?_eq_of_onLinks (key : Column) {l l' r r' : Plan} {on on' : Option Plan}
    (hl : l'.leftmost = l.leftmost) (hls : l'.relations = l.relations)
    (hr : r'.leftmost = r.leftmost) (hon : onLinks on' = onLinks on) :
    missingLink? g key l' r' on' = missingLink? g key l r on := by
  have hlinks : ∀ other, hasLink key other on' = hasLink key other on := fun other => by
    rw [Bool.eq_iff_iff, hasLink_iff, hasLink_iff, ← mem_onLinks, ← mem_onLinks, hon]
  have hdef : ∀ l r on, missingLink? g key l r on = if r.leftmost = some key.relation then
      (anchor? g l key.relation).filter fun other => !hasLink key other on else none :=
    fun _ _ _ => rfl
  rw [missingLink?_congr key hl hls hr, hdef, hdef]
  simp only [hlinks]

/-- Linking a join for several keys is linking its sides and then its `ON`. -/
theorem value_linkAll_join (keys : List Column) (kind : JoinKind) (l r : Plan)
    (on : Option Plan) :
    (linkAll g keys (join kind l r on)).value
      = join kind (linkAll g keys l).value (linkAll g keys r).value
          (keys.foldl (fun on key => linkedOn g key l r on) on) := by
  induction keys generalizing l r on with
  | nil => rfl
  | cons k keys ih =>
    -- The sides read what they read before they were linked.
    have hsame : ∀ key on, linkedOn g key (l.link g k).value (r.link g k).value on
        = linkedOn g key l r on := fun key on => by
      rw [linkedOn, linkedOn, missingLink?_link]
    simp only [value_linkAll_cons, value_link_join, ih, hsame, List.foldl_cons]

/-- The `ON` with a link, if there is one to be added. -/
def addLink (link : Option (Column × Column)) (on : Option Plan) : Option Plan :=
  link.elim on fun k => addCondition on (keyLink k.1 k.2)

/-- The first link that a join of `l` and `r` needs for one of several keys. -/
def firstLink? (g : Partitioning) (keys : List Column) (l r : Plan) (on : Option Plan) :
    Option (Column × Column) :=
  keys.findSome? fun key => (missingLink? g key l r on).map (key, ·)

theorem foldl_linkedOn_of_forall {keys : List Column} {l r : Plan} {on : Option Plan}
    (h : ∀ key ∈ keys, missingLink? g key l r on = none) :
    keys.foldl (fun on key => linkedOn g key l r on) on = on := by
  induction keys with
  | nil => rfl
  | cons k keys ih =>
    rw [List.foldl_cons, linkedOn, h k List.mem_cons_self, Option.elim_none]
    exact ih fun key hkey => h key (List.mem_cons_of_mem _ hkey)

/-- Only one relation is brought in from the right, and it has one key: linking for several keys
adds one link at most. -/
theorem foldl_linkedOn {keys : List Column} (hkeys : ∀ key ∈ keys, keyOf? g key.relation = some key)
    (l r : Plan) (on : Option Plan) :
    keys.foldl (fun on key => linkedOn g key l r on) on
      = addLink (firstLink? g keys l r on) on := by
  induction keys with
  | nil => rfl
  | cons k keys ih =>
    have hrest : ∀ key ∈ keys, keyOf? g key.relation = some key := fun key hkey =>
      hkeys key (List.mem_cons_of_mem _ hkey)
    rw [List.foldl_cons, firstLink?, List.findSome?_cons]
    cases hmissing : missingLink? g k l r on with
    | none =>
      rw [linkedOn, hmissing, Option.elim_none, Option.map_none]
      exact ih hrest
    | some other =>
      have hon : linkedOn g k l r on = addLink (some (k, other)) on := by
        rw [linkedOn, hmissing]
        rfl
      -- A key that is still to come is that of another relation, or this very key.
      refine (foldl_linkedOn_of_forall fun key hkey => ?_).trans hon
      by_cases hr : r.leftmost = some key.relation
      · obtain rfl : k = key := by
          have hrel := (of_missingLink?_eq_some hmissing).1.symm.trans hr
          have hk := hkeys k List.mem_cons_self
          rw [Option.some.inj hrel, hrest key hkey] at hk
          exact (Option.some.inj hk).symm
        exact missingLink?_linkedOn_self l r on
      · rw [missingLink?, if_neg hr]

/-! ### The link of a site -/

/-- The keys for which the scopes around a node link it, in this order. -/
def Surroundings.linkKeys (e : Restriction) (s : Surroundings) : List Column :=
  s.reaching.flatMap e.linkKeys

/-- The link that a restriction adds at a site. -/
def Site.link? (e : Restriction) (σ : Site) : Option (Column × Column) :=
  firstLink? e.partitioning (σ.linkKeys e) σ.left σ.right σ.on

/-- That link as a condition. -/
def Site.added (e : Restriction) (σ : Site) : List Plan :=
  (σ.link? e).toList.map fun k => keyLink k.1 k.2

theorem keyOf?_of_mem_linkKeys {e : Restriction} {s : Surroundings} {key : Column}
    (h : key ∈ s.linkKeys e) : keyOf? e.partitioning key.relation = some key := by
  obtain ⟨n, _, h⟩ := List.mem_flatMap.1 h
  obtain ⟨r, _, hr⟩ := List.mem_filterMap.1 h
  obtain ⟨p, _, rfl⟩ := Option.map_eq_some_iff.1 hr
  exact hr

theorem Site.link?_congr {e : Restriction} (σ τ : Site)
    (hs : τ.toSurroundings = σ.toSurroundings) (hl : τ.left.leftmost = σ.left.leftmost)
    (hls : τ.left.relations = σ.left.relations) (hr : τ.right.leftmost = σ.right.leftmost)
    (hon : onLinks τ.on = onLinks σ.on) : τ.link? e = σ.link? e := by
  rw [Site.link?, Site.link?, hs, firstLink?, firstLink?]
  simp only [missingLink?_eq_of_onLinks _ hl hls hr hon]

theorem ThroughAnd.flatMap_addLink {β : Type} {f : Plan → List β} (hf : ThroughAnd f)
    (link : Option (Column × Column)) (on : Option Plan) :
    (addLink link on).toList.flatMap f
      = on.toList.flatMap f ++ (link.toList.map fun k => keyLink k.1 k.2).flatMap f := by
  cases link with
  | none => exact (List.append_nil _).symm
  | some k =>
    rw [addLink, Option.elim_some, hf.flatMap_addCondition]
    simp

/-! ### Parts of larger plans -/

/-- What becomes of a plan that stands in `s` in a larger plan and whose first owner has number `n`:
its own scopes are done first, and then the scopes around it add their links. -/
def imposeIn (e : Restriction) (s : Surroundings) (n : Nat) (p : Plan) : Plan :=
  (linkAll e.partitioning (s.linkKeys e) (p.impose e n).value).value

/-- What becomes of a join whose sides and `ON` are done. Its scope, if it owns one, and those
around it link its sides, and those around it link the join. -/
theorem value_linkAll_enforce_join (e : Restriction) (s : Surroundings) (n : Nat)
    (kind : JoinKind) (l r : Plan) (on : Option Plan) :
    (linkAll e.partitioning (s.linkKeys e) ((join kind l r on).enforce e n)).value
      = join kind
        (linkAll e.partitioning ((s.inside n (join kind l r on)
          (if kind.isOuter then .source else .inherit)).linkKeys e) l).value
        (linkAll e.partitioning ((s.inside n (join kind l r on)
          (if kind.isOuter then .source else .inherit)).linkKeys e) r).value
        (addLink ((Site.mk s kind l r on).link? e)
          (if kind.isOuter then addOn (e.keyConditions n) on else on)) := by
  cases hkind : kind.isOuter with
  | true =>
    have hlink : firstLink? e.partitioning (s.linkKeys e)
        (linkAll e.partitioning (e.linkKeys n) l).value
        (linkAll e.partitioning (e.linkKeys n) r).value (addOn (e.keyConditions n) on)
        = (Site.mk s kind l r on).link? e := by
      refine Site.link?_congr ⟨s, kind, l, r, on⟩ ⟨s, kind, _, _, _⟩ rfl
        (leftmost_linkAll _ l) (relations_linkAll _ l) (leftmost_linkAll _ r) ?_
      exact onLinks_addOn (List.Subset.refl _) on
    rw [enforce, if_pos hkind, value_linkAll_join,
      foldl_linkedOn fun key hkey => keyOf?_of_mem_linkKeys hkey, hlink]
    simp only [← linkAll_append]
    rfl
  | false =>
    rw [enforce, hkind, if_neg Bool.false_ne_true, value_linkAll_join,
      foldl_linkedOn fun key hkey => keyOf?_of_mem_linkKeys hkey]
    rfl

section

variable {β : Type} {f : Plan → List β} (hf : ThroughAnd f)
  (hkeys : ∀ key value, f (tenantKey key value) = []) (e : Restriction) (s : Surroundings) (n : Nat)
include hf hkeys

/-- What is collected from the parts of a node once it is enforced and linked: that of its parts,
linked as they stand, and that of the link of the node. -/
theorem ThroughAnd.flatMap_parts_linkAll_enforce (p : Plan) :
    (linkAll e.partitioning (s.linkKeys e) (p.enforce e n)).value.parts.flatMap (f ·.2)
      = (p.parts.flatMap fun c =>
          f (linkAll e.partitioning ((s.inside n p c.1).linkKeys e) c.2).value)
        ++ (p.site? s).toList.flatMap fun σ => (σ.added e).flatMap f := by
  have hcs : ∀ c ∈ e.keyConditions n, f c = [] := fun c hc => by
    obtain ⟨_, _, rfl⟩ := eq_tenantKey_of_mem_keyConditions hc
    exact hkeys _ _
  cases p with
  | select q =>
    have hwheres := (adds_addWheres _ q.wheres).flatMap_eq hf hcs
    rw [linkAll_of_not_join _ (by simp [enforce])]
    cases hs : q.source <;>
      simp [enforce, parts, site?, Surroundings.inside, Surroundings.linkKeys, value_linkAll_nil,
        hs, hwheres, List.flatMap_map]
  | join kind l r on =>
    have hon := (adds_addOn _ on).flatMap_eq hf hcs
    rw [value_linkAll_enforce_join]
    cases hkind : kind.isOuter <;>
      simp [parts, site?, Surroundings.inside, Surroundings.linkKeys, value_linkAll_nil, hkind, hon,
        hf.flatMap_addLink, Site.added, List.flatMap_map]
  | _ =>
    rw [linkAll_of_not_join _ (by simp [enforce])]
    simp [enforce, parts, site?, Surroundings.inside, Surroundings.linkKeys, value_linkAll_nil,
      List.flatMap_map]

omit hf hkeys in
/-- What is imposed below a join does not change which link is added to it. -/
theorem map_link?_site?_imposeBelow (p : Plan) :
    ((p.imposeBelow e n).site? s).map (Site.link? e) = (p.site? s).map (Site.link? e) := by
  cases p with
  | join kind l r on =>
    exact congrArg some <| Site.link?_congr ⟨s, kind, l, r, on⟩ ⟨s, kind, _, _, _⟩ rfl
      (leftmost_impose e _ l) (relations_impose e _ l) (leftmost_impose e _ r)
      (onLinks_imposeOption e _ on)
  | _ => rfl

/-- What is collected from the parts of a node that stands in a larger plan: that of what becomes
of each part, and that of the link of the node. -/
theorem ThroughAnd.flatMap_parts_imposeIn (p : Plan) :
    (p.imposeIn e s n).parts.flatMap (f ·.2)
      = ((numberParts (n + p.owner?.toList.length) p.parts).flatMap fun c =>
          f (c.2.2.imposeIn e (s.inside n p c.2.1) c.1))
        ++ (p.site? s).toList.flatMap fun σ => (σ.added e).flatMap f := by
  have hinside : s.inside n (p.imposeBelow e n) = s.inside n p := by
    funext ρ
    cases p <;> cases ρ <;> rfl
  have hadded : (((p.imposeBelow e n).site? s).toList.flatMap fun σ => (σ.added e).flatMap f)
      = (p.site? s).toList.flatMap fun σ => (σ.added e).flatMap f := by
    have hlink := congrArg Option.toList (map_link?_site?_imposeBelow e s n p)
    rw [Option.toList_map, Option.toList_map] at hlink
    have hcollect := congrArg (List.flatMap fun link : Option (Column × Column) =>
      (link.toList.map fun k => keyLink k.1 k.2).flatMap f) hlink
    rwa [List.flatMap_map, List.flatMap_map] at hcollect
  rw [imposeIn, value_impose, hf.flatMap_parts_linkAll_enforce hkeys, hadded, parts_imposeBelow,
    imposeParts_eq_map, List.flatMap_map, hinside]
  rfl

end

/-! ### What becomes of the joins -/

/-- The join `j` is what a restriction makes of the join at a site: up to synthetic conditions it is
that join, and behind the links that its `ON` has stands the link of the site, if there is one. An
inner join is given no other condition. -/
structure Site.Becomes (e : Restriction) (σ : Site) (j : Plan) : Prop where
  flatten : j.flatten isSynthetic = σ.node.flatten isSynthetic
  on : ∃ l r on, j = join σ.kind l r (addLink (σ.link? e) on) ∧ onLinks on = onLinks σ.on ∧
    (σ.kind.isOuter = false → on.isSome = σ.on.isSome)

theorem flatten_imposeIn (e : Restriction) (s : Surroundings) (n : Nat) (p : Plan) :
    (p.imposeIn e s n).flatten isSynthetic = p.flatten isSynthetic :=
  (missesLinks_flatten.rewriteUp_linkAll _ _ _).trans (flatten_impose e n p)

/-- What becomes of a join itself. -/
theorem becomes_site (e : Restriction) (s : Surroundings) (n : Nat) (kind : JoinKind)
    (l r : Plan) (on : Option Plan) :
    (Site.mk s kind l r on).Becomes e ((join kind l r on).imposeIn e s n) := by
  refine ⟨flatten_imposeIn e s n _, ?_⟩
  have hlink := Option.some.inj (map_link?_site?_imposeBelow e s n (join kind l r on))
  rw [imposeIn, value_impose, imposeBelow, value_linkAll_enforce_join]
  refine ⟨_, _, _, by rw [← hlink], ?_, fun hkind => ?_⟩
  · split
    · rw [onLinks_addOn (List.Subset.refl _), onLinks_imposeOption]
    · rw [onLinks_imposeOption]
  · rw [if_neg (by simp [hkind])]
    cases on <;> rfl

theorem becomes_site? (e : Restriction) (s : Surroundings) (n : Nat) (p : Plan) :
    List.Forall₂ (Site.Becomes e) (p.site? s).toList
      (((p.imposeIn e s n).site? s).toList.map Site.node) := by
  cases p with
  | join kind l r on =>
    have hjoin := becomes_site e s n kind l r on
    obtain ⟨l', r', on', heq, -⟩ := hjoin.on
    rw [heq] at hjoin ⊢
    exact .cons hjoin .nil
  | _ =>
    rw [imposeIn, linkAll_of_not_join _ (by simp [impose])]
    exact .nil

/-- However a plan stands and is numbered, its joins become those of what becomes of it. -/
theorem forall₂_becomes_sites (e : Restriction) (s : Surroundings) (n : Nat) (p : Plan) :
    List.Forall₂ (Site.Becomes e) (p.sites s n) (p.imposeIn e s n).joins := by
  induction p using inductionOnParts generalizing s n with
  | step p ih =>
    -- A link has no joins.
    have hadded : ((p.site? s).toList.flatMap fun σ => (σ.added e).flatMap joins) = [] := by
      simp [Site.added, List.flatMap_map, joins, picked, nodes, subnodes, isJoin]
    rw [sites_eq, joins_eq s, throughAnd_joins.flatMap_parts_imposeIn (fun _ _ => rfl), hadded,
      List.append_nil]
    exact List.rel_append (becomes_site? e s n p) <| forall₂_flatMap fun c hc =>
      ih c.2 (snd_mem_of_mem_numberParts hc) _ _

theorem isLink_imposeIn (e : Restriction) (s : Surroundings) (n : Nat) (p : Plan) :
    (p.imposeIn e s n).isLink = p.isLink := by
  cases p with
  | join kind l r on =>
    obtain ⟨l', r', on', heq, -⟩ := (becomes_site e s n kind l r on).on
    rw [heq]
    rfl
  | _ =>
    rw [imposeIn, linkAll_of_not_join _ (by simp [impose])]
    rfl

theorem Site.flatMap_links_added (e : Restriction) (σ : Site) :
    (σ.added e).flatMap links = σ.added e := by
  rw [Site.added]
  cases σ.link? e <;> rfl

/-- What becomes of a node has the link of the node and those of what becomes of its parts. -/
theorem perm_links_imposeIn_parts (e : Restriction) (s : Surroundings) (n : Nat) {p : Plan}
    (hlink : p.isLink = false) :
    (p.imposeIn e s n).links.Perm ((p.site? s).toList.flatMap (Site.added e)
      ++ (numberParts (n + p.owner?.toList.length) p.parts).flatMap fun c =>
        (c.2.2.imposeIn e (s.inside n p c.2.1) c.1).links) := by
  rw [links, picked_eq ((isLink_imposeIn e s n p).trans hlink), ← links,
    throughAnd_links.flatMap_parts_imposeIn fun _ _ => rfl]
  simp only [Site.flatMap_links_added]
  exact List.perm_append_comm

/-- However a plan stands and is numbered, what becomes of it has the links of its sites, and those
it had. -/
theorem perm_links_imposeIn (e : Restriction) (s : Surroundings) (n : Nat) (p : Plan) :
    (p.imposeIn e s n).links.Perm ((p.sites s n).flatMap (Site.added e) ++ p.links) := by
  induction p using inductionOnParts generalizing s n with
  | step p ih =>
    rw [sites_eq]
    cases hlink : p.isLink with
    | true =>
      cases p with
      | keyLink key other =>
        rw [imposeIn, linkAll_of_not_join _ (by simp [impose])]
        exact .refl _
      | _ => simp [isLink] at hlink
    | false =>
      have hparts := (List.Perm.flatMap_left
        (numberParts (n + p.owner?.toList.length) p.parts) fun c hc =>
          ih c.2 (snd_mem_of_mem_numberParts hc) (s.inside n p c.2.1) c.1).trans
        (List.flatMap_append_perm _ _ _).symm
      have hlinks : ((numberParts (n + p.owner?.toList.length) p.parts).flatMap (·.2.2.links))
          = p.links := by
        rw [links, picked_eq hlink]
        conv_rhs => rw [← map_snd_numberParts (n + p.owner?.toList.length) p.parts,
          List.flatMap_map]
      rw [hlinks] at hparts
      rw [List.flatMap_append, List.append_assoc, sitesParts, List.flatMap_assoc]
      exact (perm_links_imposeIn_parts e s n hlink).trans (hparts.append_left _)

/-! ### Whole plans -/

/-- The joins of a restricted plan are those of the plan, each with the link of its site. -/
theorem forall₂_becomes_joinSites (e : Restriction) (p : Plan) :
    List.Forall₂ (Site.Becomes e) p.joinSites (p.impose e 0).value.joins :=
  forall₂_becomes_sites e {} 0 p

/-- A restricted plan has the links of its sites, and those it had. -/
theorem perm_links_impose (e : Restriction) (p : Plan) :
    (p.impose e 0).value.links.Perm (p.joinSites.flatMap (Site.added e) ++ p.links) :=
  perm_links_imposeIn e {} 0 p

end Plan

end Tenancy
