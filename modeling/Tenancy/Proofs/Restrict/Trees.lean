import Tenancy.Proofs.Restrict.Placement
import Tenancy.Proofs.Scope.Sources

namespace Tenancy

/-!
# Trees — what restriction does to the trees of joins in a plan

* `exists_value_impose_join` — imposing on a join is linking its sides and adding to its `ON`;
* `relations_impose`, `leftmost_impose` — a tree reads what it has read;
* `Plan.Ties` — a link among conditions ties one relation to another;
* `Plan.onLinks`, `onLinks_imposeOption` — the links of an `ON`, which imposing on it leaves alone;
* `ties_link`, `ties_impose` — no link is taken away;
* `Plan.LinksBack` — every link of a tree leads to an anchor on its left;
* `LinksBack.lt` — if the relations of the tree are distinct, it leads to an earlier one;
* `joinsInSources_impose` — joins stay in sources;
* `pinned_impose`, `mem_pinned_link` — outside the scopes of a plan links are all that newly ties a
  relation;
* `exists_tree?_scopeNodes` — the tree of a scope node is imposed on and linked, so all this holds
  of it.
-/

namespace Plan

variable {g : Partitioning}

/-! ### What a tree reads -/

theorem LinkedFrom.leftmost_eq {p q : Plan} (h : LinkedFrom g p q) : q.leftmost = p.leftmost :=
  h.induction (motive := fun q => q.leftmost = p.leftmost) rfl fun key q hq =>
    (leftmost_link g key q).trans hq

theorem LinkedFrom.relations_eq {p q : Plan} (h : LinkedFrom g p q) :
    q.relations = p.relations :=
  h.induction (motive := fun q => q.relations = p.relations) rfl fun key q hq =>
    (relations_link g key q).trans hq

theorem leftmost_linkAll (keys : List Column) (p : Plan) :
    (linkAll g keys p).value.leftmost = p.leftmost :=
  (linkedFrom_linkAll keys p).leftmost_eq

theorem relations_linkAll (keys : List Column) (p : Plan) :
    (linkAll g keys p).value.relations = p.relations :=
  (linkedFrom_linkAll keys p).relations_eq

/-- Imposing on a join is imposing on its sides and on its `ON`, adding links to the sides, and
adding some of the tenant conditions of the scope behind the `ON`. -/
theorem exists_value_impose_join (e : Restriction) (n : Nat) (kind : JoinKind) (l r : Plan)
    (on : Option Plan) : ∃ l' r' conditions n₁ n₂ n₃,
      LinkedFrom e.partitioning (l.impose e n₁).value l' ∧
      LinkedFrom e.partitioning (r.impose e n₂).value r' ∧ conditions ⊆ e.keyConditions n ∧
      ((join kind l r on).impose e n).value
        = join kind l' r' (addOn conditions (imposeOption e n₃ on).value) := by
  rw [value_impose, imposeBelow, enforce]
  split
  · exact ⟨_, _, _, _, _, _, linkedFrom_linkAll _ _, linkedFrom_linkAll _ _,
      List.Subset.refl _, rfl⟩
  · exact ⟨_, _, [], _, _, _, .refl, .refl, List.nil_subset _, by rw [addOn_nil]⟩

theorem isBranch_impose (e : Restriction) (n : Nat) (p : Plan) :
    (p.impose e n).value.isBranch = p.isBranch := by
  cases p with
  | join kind l r on =>
    obtain ⟨l', r', conditions, n₁, n₂, n₃, -, -, -, heq⟩ :=
      exists_value_impose_join e n kind l r on
    rw [heq]
    rfl
  | _ => rfl

theorem relation?_impose (e : Restriction) (n : Nat) (p : Plan) :
    (p.impose e n).value.relation? = p.relation? := by
  cases p with
  | join kind l r on =>
    obtain ⟨l', r', conditions, n₁, n₂, n₃, -, -, -, heq⟩ :=
      exists_value_impose_join e n kind l r on
    rw [heq]
    rfl
  | aliased p a =>
    cases p with
    | join kind l r on =>
      obtain ⟨l', r', conditions, n₁, n₂, n₃, -, -, -, heq⟩ :=
        exists_value_impose_join e n kind l r on
      simp only [impose, Logged.value_bind, Logged.value_pure] at heq ⊢
      rw [heq]
      rfl
    | _ => rfl
  | _ => rfl

theorem leftmost_impose (e : Restriction) (n : Nat) (p : Plan) :
    (p.impose e n).value.leftmost = p.leftmost := by
  induction p using inductionOnTree generalizing n with
  | join kind l r on ih _ =>
    obtain ⟨l', r', conditions, n₁, n₂, n₃, hl, -, -, heq⟩ :=
      exists_value_impose_join e n kind l r on
    rw [heq, leftmost, leftmost, hl.leftmost_eq, ih]
  | group p ih => exact ih n
  | leaf p hleaf =>
    rw [leftmost_of_leaf ((isBranch_impose e n p).trans hleaf), leftmost_of_leaf hleaf,
      relation?_impose]

theorem relations_impose (e : Restriction) (n : Nat) (p : Plan) :
    (p.impose e n).value.relations = p.relations := by
  induction p using inductionOnTree generalizing n with
  | join kind l r on ihl ihr =>
    obtain ⟨l', r', conditions, n₁, n₂, n₃, hl, hr, -, heq⟩ :=
      exists_value_impose_join e n kind l r on
    rw [heq, relations, relations, hl.relations_eq, hr.relations_eq, ihl, ihr]
  | group p ih => exact ih n
  | leaf p hleaf =>
    rw [relations_of_leaf ((isBranch_impose e n p).trans hleaf), relations_of_leaf hleaf,
      relation?_impose]

/-! ### Links among conditions -/

/-- A link among the conditions ties the relation `r` to the relation `a`. -/
def Ties (conditions : List Plan) (r a : Relation) : Prop :=
  ∃ key other, keyLink key other ∈ conditions.flatMap conjuncts ∧ key.relation = r ∧
    other.relation = a

theorem Ties.mono {cs ds : List Plan} (h : cs ⊆ ds) {r a : Relation} (hties : Ties cs r a) :
    Ties ds r a := by
  obtain ⟨key, other, hlink, hr, ha⟩ := hties
  obtain ⟨c, hc, hlink⟩ := List.mem_flatMap.1 hlink
  exact ⟨key, other, List.mem_flatMap.2 ⟨c, h hc, hlink⟩, hr, ha⟩

theorem ties_append {cs ds : List Plan} {r a : Relation} :
    Ties (cs ++ ds) r a ↔ Ties cs r a ∨ Ties ds r a := by
  constructor
  · rintro ⟨key, other, hlink, hr, ha⟩
    rw [List.flatMap_append, List.mem_append] at hlink
    exact hlink.imp (fun h => ⟨key, other, h, hr, ha⟩) fun h => ⟨key, other, h, hr, ha⟩
  · rintro (h | h)
    · exact h.mono (List.subset_append_left _ _)
    · exact h.mono (List.subset_append_right _ _)

theorem not_ties_nil {r a : Relation} : ¬ Ties [] r a := by
  rintro ⟨_, _, hlink, -⟩
  simp at hlink

theorem Adds.ties {cs ps ps' : List Plan} (h : Adds cs ps ps') {r a : Relation}
    (hties : Ties ps r a) : Ties ps' r a := by
  obtain ⟨key, other, hlink, hr, ha⟩ := hties
  exact ⟨key, other, (h.mem_flatMap throughAnd_conjuncts _).2 (.inl hlink), hr, ha⟩

/-- No link is taken away by linking. -/
theorem ties_link (key : Column) {p : Plan} {r a : Relation} (h : Ties p.ons r a) :
    Ties (p.link g key).value.ons r a := by
  induction p using link.induct with
  | case1 kind left right on ihl ihr =>
    rw [ons, ties_append, ties_append] at h
    rw [value_link_join, ons, ties_append, ties_append]
    exact h.imp (Or.imp ihl ihr) fun h => (adds_linkedOn g key _ _ on).ties h
  | case2 p hp => rwa [link_of_not_join g key hp]

theorem LinkedFrom.ties {p q : Plan} (h : LinkedFrom g p q) {r a : Relation}
    (hties : Ties p.ons r a) : Ties q.ons r a :=
  h.induction (motive := fun q => Ties q.ons r a) hties fun key _ hq => ties_link key hq

/-- The links among the conjuncts of an `ON`. -/
def onLinks (on : Option Plan) : List Plan :=
  on.toList.flatMap fun c => c.conjuncts.filter isLink

private theorem throughAnd_onLinks : ThroughAnd fun c => c.conjuncts.filter isLink := fun ps => by
  simp only [throughAnd_conjuncts.apply_and, List.filter_flatMap]

theorem mem_onLinks {on : Option Plan} {key other : Column} :
    keyLink key other ∈ onLinks on ↔ keyLink key other ∈ on.toList.flatMap conjuncts := by
  rw [onLinks, ← List.filter_flatMap, List.mem_filter]
  exact and_iff_left rfl

theorem ties_iff_onLinks {on : Option Plan} {r a : Relation} :
    Ties on.toList r a ↔
      ∃ key other, keyLink key other ∈ onLinks on ∧ key.relation = r ∧ other.relation = a := by
  simp only [Ties, mem_onLinks]

theorem onLinks_addCondition (on : Option Plan) (key other : Column) :
    onLinks (addCondition on (keyLink key other)) = onLinks on ++ [keyLink key other] :=
  throughAnd_onLinks.flatMap_addCondition on _

/-- Tenant conditions are no links. -/
theorem onLinks_addOn {e : Restriction} {n : Nat} {conditions : List Plan}
    (h : conditions ⊆ e.keyConditions n) (on : Option Plan) :
    onLinks (addOn conditions on) = onLinks on := by
  refine (adds_addOn _ on).flatMap_eq throughAnd_onLinks fun c hc => ?_
  obtain ⟨_, _, rfl⟩ := eq_tenantKey_of_mem_keyConditions (h hc)
  rfl

theorem keepsAnd_surface : KeepsAnd surface :=
  keepsAnd_rewriteUp (fun _ => rfl) fun p => by
    cases p with
    | join kind l r on => rw [surfaceNode]; split <;> rfl
    | _ => rfl

theorem isLink_surface (p : Plan) : p.surface.isLink = p.isLink := by
  cases p with
  | join kind l r on => rw [surface_join]; split <;> rfl
  | _ => rw [surface, rewriteUp_eq]; rfl

theorem filter_isLink_map_surface (ps : List Plan) :
    (ps.map surface).filter isLink = ps.filter isLink := by
  induction ps with
  | nil => rfl
  | cons p ps ih =>
    rw [List.map_cons, List.filter_cons, List.filter_cons, ih]
    cases hp : p.isLink with
    | true => cases p <;> first | rfl | simp [isLink] at hp
    | false =>
      -- The surface of another node is no link.
      rw [isLink_surface, hp]
      rfl

/-- Imposing on an `ON` keeps its links. -/
theorem onLinks_imposeOption (e : Restriction) (n : Nat) (on : Option Plan) :
    onLinks (imposeOption e n on).value = onLinks on := by
  cases on with
  | none => rfl
  | some p =>
    have hsurface : ∀ q : Plan, q.conjuncts.filter isLink = q.surface.conjuncts.filter isLink :=
      fun q => by rw [keepsAnd_surface.conjuncts, filter_isLink_map_surface]
    simp only [onLinks, imposeOption, Logged.value_bind, Logged.value_pure, Option.toList_some,
      List.flatMap_singleton]
    rw [hsurface, surface_impose, ← hsurface]

/-- No link of a tree is taken away by imposing. -/
theorem ties_impose (e : Restriction) (n : Nat) {p : Plan} {r a : Relation} (h : Ties p.ons r a) :
    Ties (p.impose e n).value.ons r a := by
  induction p using inductionOnTree generalizing n with
  | join kind left right on ihl ihr =>
    obtain ⟨l', r', conditions, n₁, n₂, n₃, hl, hr, -, heq⟩ :=
      exists_value_impose_join e n kind left right on
    rw [ons, ties_append, ties_append] at h
    rw [heq, ons, ties_append, ties_append]
    refine h.imp (Or.imp (fun h => hl.ties (ihl n₁ h)) fun h => hr.ties (ihr n₂ h)) fun h =>
      (adds_addOn conditions _).ties ?_
    obtain ⟨key, other, hlink, hr, ha⟩ := h
    exact ⟨key, other, by rwa [← mem_onLinks, onLinks_imposeOption, mem_onLinks], hr, ha⟩
  | group p ih => exact ih n h
  | leaf p hleaf =>
    rw [ons_of_leaf hleaf] at h
    exact absurd h not_ties_nil

/-! ### Links lead back -/

/-- Every link of the tree stands at a join that brings its relation in from the right, and leads to
the anchor on the left. -/
def LinksBack (g : Partitioning) : Plan → Prop
  | join _ l r on => l.LinksBack g ∧ r.LinksBack g ∧ ∀ key other,
      keyLink key other ∈ on.toList.flatMap conjuncts →
        r.leftmost = some key.relation ∧ anchor? g l key.relation = some other
  | group p => p.LinksBack g
  | _ => True

theorem linksBack_of_leaf {p : Plan} (h : p.isBranch = false) : p.LinksBack g := by
  cases p with
  | join | group => simp [isBranch] at h
  | _ => trivial

/-- A tree without links. -/
theorem linksBack_of_forall {p : Plan} (h : ∀ c ∈ p.nodes, c.isSynthetic = false) :
    p.LinksBack g := by
  induction p using inductionOnTree with
  | join kind l r on ihl ihr =>
    have hpart : ∀ c ∈ (join kind l r on).parts, ∀ d ∈ c.2.nodes, d.isSynthetic = false :=
      fun c hc d hd => h d (nodes_subset_of_mem_parts hc hd)
    refine ⟨ihl (hpart _ List.mem_cons_self),
      ihr (hpart _ (List.mem_cons_of_mem _ List.mem_cons_self)), fun key other hlink => ?_⟩
    obtain ⟨c, hc, hlink⟩ := List.mem_flatMap.1 hlink
    have hmem : (Role.condition, c) ∈ (join kind l r on).parts := by
      simp [parts, Option.mem_toList.1 hc]
    exact absurd (hpart _ hmem _ (mem_nodes_of_mem_conjuncts hlink)) (by simp [isSynthetic])
  | group p ih =>
    exact ih fun c hc => h c (nodes_subset_of_mem_parts (List.mem_singleton_self _) hc)
  | leaf p hleaf => exact linksBack_of_leaf hleaf

theorem anchor?_congr {l l' : Plan} (hl : l'.leftmost = l.leftmost)
    (hls : l'.relations = l.relations) (r : Relation) : anchor? g l' r = anchor? g l r := by
  rw [anchor?, anchor?, hl, hls]

theorem linksBack_link (key : Column) {p : Plan} (h : p.LinksBack g) :
    (p.link g key).value.LinksBack g := by
  induction p using link.induct with
  | case1 kind l r on ihl ihr =>
    obtain ⟨hl, hr, hon⟩ := h
    rw [value_link_join]
    refine ⟨ihl hl, ihr hr, fun k other hlink => ?_⟩
    rw [leftmost_link, anchor?_congr (leftmost_link g key l) (relations_link g key l)]
    rcases ((adds_linkedOn g key _ _ on).mem_flatMap throughAnd_conjuncts _).1 hlink with
      hlink | hlink
    · exact hon k other hlink
    · -- The link is the one that was missing.
      obtain ⟨c, hc, hlink⟩ := List.mem_flatMap.1 hlink
      obtain ⟨o, ho, rfl⟩ := List.mem_map.1 hc
      obtain ⟨rfl, rfl⟩ : k = key ∧ other = o := by simpa [conjuncts] using hlink
      rw [missingLink?_link, Option.mem_toList] at ho
      exact of_missingLink?_eq_some ho
  | case2 p hp => rwa [link_of_not_join g key hp]

theorem LinkedFrom.linksBack {p q : Plan} (h : LinkedFrom g p q) (hp : p.LinksBack g) :
    q.LinksBack g :=
  h.induction hp fun key _ hq => linksBack_link key hq

theorem linksBack_impose (e : Restriction) (n : Nat) {p : Plan} (h : p.LinksBack e.partitioning) :
    (p.impose e n).value.LinksBack e.partitioning := by
  induction p using inductionOnTree generalizing n with
  | join kind l r on ihl ihr =>
    obtain ⟨l', r', conditions, n₁, n₂, n₃, hl', hr', hsubset, heq⟩ :=
      exists_value_impose_join e n kind l r on
    obtain ⟨hl, hr, hon⟩ := h
    rw [heq]
    refine ⟨hl'.linksBack (ihl n₁ hl), hr'.linksBack (ihr n₂ hr), fun key other hlink => ?_⟩
    rw [hr'.leftmost_eq, leftmost_impose, anchor?_congr
      (hl'.leftmost_eq.trans (leftmost_impose e n₁ l))
      (hl'.relations_eq.trans (relations_impose e n₁ l))]
    -- Imposing adds tenant conditions behind the `ON`, and no links.
    rw [← mem_onLinks, onLinks_addOn hsubset, onLinks_imposeOption, mem_onLinks] at hlink
    exact hon key other hlink
  | group p ih => exact ih n h
  | leaf p hleaf => exact linksBack_of_leaf ((isBranch_impose e n p).trans hleaf)

/-- In a tree with distinct relations every link leads to an earlier tenant relation. -/
theorem LinksBack.lt {p : Plan} (h : p.LinksBack g) (hdistinct : p.relations.Nodup)
    {r a : Relation} (hties : Ties p.ons r a) : r ∈ p.relations ∧ a ∈ p.relations ∧
      g.covers a.table ∧ p.relations.idxOf a < p.relations.idxOf r := by
  induction p using inductionOnTree with
  | join kind left right on ihl ihr =>
    obtain ⟨hl, hr, hon⟩ := h
    rw [relations] at hdistinct ⊢
    obtain ⟨hleft, hright, hdisjoint⟩ := List.nodup_append.1 hdistinct
    rw [ons, ties_append, ties_append] at hties
    rcases hties with (hties | hties) | hties
    · obtain ⟨hr, ha, hcovers, hlt⟩ := ihl hl hleft hties
      refine ⟨List.mem_append_left _ hr, List.mem_append_left _ ha, hcovers, ?_⟩
      rwa [List.idxOf_append_of_mem hr, List.idxOf_append_of_mem ha]
    · obtain ⟨hr, ha, hcovers, hlt⟩ := ihr hr hright hties
      have hnot : ∀ x ∈ right.relations, x ∉ left.relations :=
        fun x hx hx' => hdisjoint x hx' x hx rfl
      refine ⟨List.mem_append_right _ hr, List.mem_append_right _ ha, hcovers, ?_⟩
      rw [List.idxOf_append_of_notMem (hnot r hr), List.idxOf_append_of_notMem (hnot a ha)]
      omega
    · obtain ⟨key, other, hlink, rfl, rfl⟩ := hties
      obtain ⟨hleftmost, hanchor⟩ := hon key other hlink
      obtain ⟨s, hs, hkey⟩ := exists_mem_relations_of_anchor? hanchor
      obtain ⟨part, hpart, rfl⟩ := Option.map_eq_some_iff.1 hkey
      have hright : key.relation ∈ right.relations := mem_relations_of_leftmost hleftmost
      have hnot : key.relation ∉ left.relations := fun hx => hdisjoint _ hx _ hright rfl
      refine ⟨List.mem_append_right _ hright, List.mem_append_left _ hs,
        Option.isSome_iff_exists.2 ⟨part, hpart⟩, ?_⟩
      show List.idxOf s _ < _
      rw [List.idxOf_append_of_mem hs, List.idxOf_append_of_notMem hnot]
      exact Nat.lt_add_right _ (List.idxOf_lt_length_of_mem hs)
  | group p ih => exact ih h hdistinct hties
  | leaf p hleaf =>
    rw [ons_of_leaf hleaf] at hties
    exact absurd hties not_ties_nil

/-! ### Parts of restricted nodes -/

theorem exists_mem_of_mem_imposeParts {e : Restriction} {n : Nat} {cs : List (Role × Plan)}
    {c : Role × Plan} (h : c ∈ imposeParts e n cs) :
    ∃ d ∈ cs, ∃ n', c = (d.1, (d.2.impose e n').value) := by
  induction cs generalizing n with
  | nil => simp [imposeParts] at h
  | cons d cs ih =>
    rcases List.mem_cons.1 h with rfl | h
    · exact ⟨d, List.mem_cons_self, n, rfl⟩
    · obtain ⟨d', hd', hc⟩ := ih h
      exact ⟨d', List.mem_cons_of_mem _ hd', hc⟩

theorem flatMap_imposeParts {β : Type} {f : Role × Plan → List β} {e : Restriction} {n : Nat}
    {cs : List (Role × Plan)} (h : ∀ c ∈ cs, ∀ n, f (c.1, (c.2.impose e n).value) = f c) :
    (imposeParts e n cs).flatMap f = cs.flatMap f := by
  induction cs generalizing n with
  | nil => rfl
  | cons c cs ih =>
    rw [imposeParts, List.flatMap_cons, List.flatMap_cons, h c List.mem_cons_self,
      ih fun c' hc' => h c' (List.mem_cons_of_mem _ hc')]

/-- Where a scope node gets no tenant conditions, its parts stay as they are, but for links in its
sources. -/
theorem exists_mem_of_mem_parts_enforce {e : Restriction} {n : Nat} (hnone : e.keyConditions n = [])
    {p : Plan} {c : Role × Plan} (h : c ∈ (p.enforce e n).parts) : c ∈ p.parts ∨
      ∃ t t', (.source, t) ∈ p.parts ∧ LinkedFrom e.partitioning t t' ∧ c = (.source, t') := by
  cases p with
  | select q =>
    cases hs : q.source with
    | none =>
      refine .inl ?_
      simpa [enforce, hnone, parts, hs] using h
    | some s =>
      simp only [enforce, hnone, addWheres_nil, parts, hs, Option.map_some, Option.toList_some,
        List.map_singleton, List.append_assoc, List.singleton_append] at h ⊢
      rcases List.mem_cons.1 h with rfl | h
      · exact .inr ⟨s, _, List.mem_cons_self, linkedFrom_linkAll _ s, rfl⟩
      · exact .inl (List.mem_cons_of_mem _ h)
  | join kind l r on =>
    cases hkind : kind.isOuter with
    | false =>
      refine .inl ?_
      simpa [enforce, hkind] using h
    | true =>
      simp only [enforce, hnone, addOn_nil, hkind, if_true, parts, List.mem_cons] at h ⊢
      rcases h with rfl | rfl | h
      · exact .inr ⟨l, _, .inl rfl, linkedFrom_linkAll _ l, rfl⟩
      · exact .inr ⟨r, _, .inr (.inl rfl), linkedFrom_linkAll _ r, rfl⟩
      · exact .inl (.inr (.inr h))
  | _ => exact .inl h

/-! ### Joins stay in sources -/

variable {inSource : Bool}

theorem joinsInSources_of_leaf {p : Plan} (hp : p.isJoin = false) (hparts : p.parts = []) :
    p.JoinsInSources inSource :=
  .node (fun h => absurd h (by simp [hp])) (by simp [hparts])

/-- A plan without joins. -/
theorem joinsInSources_of_forall {p : Plan} (h : ∀ c ∈ p.nodes, c.isJoin = false) :
    p.JoinsInSources inSource := by
  induction p using inductionOnParts generalizing inSource with
  | step p ih =>
    refine .node (fun hjoin => ?_) fun c hc =>
      ih c hc fun d hd => h d (nodes_subset_of_mem_parts hc hd)
    simp [h p p.self_mem_nodes] at hjoin

theorem joinsInSources_join {kind : JoinKind} {l r : Plan} {on : Option Plan}
    (hl : l.JoinsInSources true) (hr : r.JoinsInSources true)
    (hon : ∀ c ∈ on.toList, c.JoinsInSources false) : (join kind l r on).JoinsInSources true := by
  have hrole : (if kind.isOuter then Role.source else .inherit) ≠ .condition := by
    split <;> simp
  refine .node (fun _ => rfl) fun c hc => ?_
  simp only [parts, List.mem_cons, List.mem_map] at hc
  rcases hc with rfl | rfl | ⟨c, hc, rfl⟩
  · simpa [takesJoins, hrole] using hl
  · simpa [takesJoins, hrole] using hr
  · simpa [takesJoins] using hon c hc

theorem joinsInSources_conjoin {p c : Plan} (hp : p.JoinsInSources false)
    (hc : c.JoinsInSources false) : (p.conjoin c).JoinsInSources false := by
  have hconjuncts : ∀ d ∈ p.topConjuncts, d.JoinsInSources false := by
    cases p with
    | and ps =>
      exact fun d hd => hp.part (c := (.inherit, d)) (by simpa [parts, topConjuncts] using hd)
    | _ => simpa [topConjuncts] using hp
  rw [conjoin_eq]
  refine .node (by simp [isJoin]) fun d hd => ?_
  rw [parts] at hd
  obtain ⟨q, hq, rfl⟩ := List.mem_map.1 hd
  rcases List.mem_append.1 hq with hq | hq
  · exact hconjuncts q hq
  · rwa [List.mem_singleton.1 hq]

theorem joinsInSources_link (key : Column) {p : Plan} (h : p.JoinsInSources inSource) :
    (p.link g key).value.JoinsInSources inSource := by
  induction p using link.induct generalizing inSource with
  | case1 kind l r on ihl ihr =>
    have hrole : (if kind.isOuter then Role.source else .inherit) ≠ .condition := by
      split <;> simp
    have hl : l.JoinsInSources true := by
      simpa [takesJoins, hrole] using h.part (c := (_, l)) List.mem_cons_self
    have hr : r.JoinsInSources true := by
      simpa [takesJoins, hrole] using
        h.part (c := (_, r)) (List.mem_cons_of_mem _ List.mem_cons_self)
    have hon : ∀ c ∈ on.toList, c.JoinsInSources false := by
      intro c hc
      have hmem : (.condition, c) ∈ (join kind l r on).parts := by
        simp [parts, Option.mem_toList.1 hc]
      simpa [takesJoins] using h.part hmem
    have hlinked : ∀ c ∈ (linkedOn g key (l.link g key).value (r.link g key).value on).toList,
        c.JoinsInSources false := by
      rw [linkedOn]
      cases missingLink? g key (l.link g key).value (r.link g key).value on with
      | none => exact hon
      | some other =>
        have hlink : (keyLink key other).JoinsInSources false := joinsInSources_of_leaf rfl rfl
        cases on with
        | none => simpa [addCondition] using hlink
        | some p => simpa [addCondition] using joinsInSources_conjoin (hon p (by simp)) hlink
    rw [value_link_join, h.eq_true rfl]
    exact joinsInSources_join (ihl hl) (ihr hr) hlinked
  | case2 p hp => rwa [link_of_not_join g key hp]

theorem LinkedFrom.joinsInSources {p q : Plan} (h : LinkedFrom g p q)
    (hp : p.JoinsInSources inSource) : q.JoinsInSources inSource :=
  h.induction hp fun key _ hq => joinsInSources_link key hq

theorem joinsInSources_enforce {e : Restriction} {n : Nat} (hnone : e.keyConditions n = [])
    {p : Plan} (h : p.JoinsInSources inSource) : (p.enforce e n).JoinsInSources inSource := by
  have hjoin : (p.enforce e n).isJoin = p.isJoin := by
    cases p with
    | join kind l r on => rw [enforce]; split <;> rfl
    | _ => rfl
  have htakes : ∀ ρ, (p.enforce e n).takesJoins inSource ρ = p.takesJoins inSource ρ := by
    intro ρ
    cases p with
    | join kind l r on => rw [enforce]; split <;> rfl
    | _ => rfl
  refine .node (fun hp => h.eq_true (hjoin ▸ hp)) fun c hc => ?_
  rw [htakes]
  rcases exists_mem_of_mem_parts_enforce hnone hc with hc | ⟨t, t', ht, hlinked, rfl⟩
  · exact h.part hc
  · exact hlinked.joinsInSources (h.part ht)

/-- Where no tenant conditions are added joins stay in the sources of `SELECT`s. -/
theorem joinsInSources_impose {e : Restriction} (hnone : ∀ n, e.keyConditions n = []) (n : Nat)
    {p : Plan} (h : p.JoinsInSources inSource) : (p.impose e n).value.JoinsInSources inSource := by
  induction p using inductionOnParts generalizing inSource n with
  | step p ih =>
    have hjoin : (p.imposeBelow e n).isJoin = p.isJoin := by cases p <;> rfl
    have htakes : ∀ ρ, (p.imposeBelow e n).takesJoins inSource ρ = p.takesJoins inSource ρ := by
      intro ρ
      cases p <;> rfl
    rw [value_impose]
    refine joinsInSources_enforce (hnone n) (.node (fun hp => h.eq_true (hjoin ▸ hp)) ?_)
    intro c hc
    rw [parts_imposeBelow] at hc
    obtain ⟨d, hd, n', rfl⟩ := exists_mem_of_mem_imposeParts hc
    rw [htakes]
    exact ih d hd n' (h.part hd)

/-! ### What ties relations -/

/-- What is imposed inside the scopes of a plan ties nothing outside. -/
theorem pinned_impose (e : Restriction) (n : Nat) (p : Plan) (reading : Reading) :
    ((p.impose e n).value.survey g reading).pinned = (p.survey g reading).pinned := by
  induction p using inductionOnParts generalizing n reading with
  | step p ih =>
    cases ho : p.owner? with
    | some o =>
      rw [survey_of_owner ho, survey_of_owner ((owner?_impose e n p).trans ho)]
      rfl
    | none =>
      have hparts : ∀ n, (surveyParts g reading (imposeParts e n p.parts)).pinned
          = (surveyParts g reading p.parts).pinned := by
        intro n
        rw [pinned_surveyParts, pinned_surveyParts]
        exact flatMap_imposeParts fun c hc n => ih c hc n _
      have hsame := sameNode_imposeBelow e n p
      have hnone : (p.imposeBelow e n).owner? = none := hsame.owner?_eq.trans ho
      rw [value_impose, enforce_of_not_owner e n hnone, survey_of_not_owner hnone,
        survey_of_not_owner ho, Findings.pinned_append, Findings.pinned_append, hsame.mention_eq,
        parts_imposeBelow, hparts]

/-- What newly ties a relation when a join is linked is a link, given this of its sides. -/
theorem mem_pinned_parts_link {key : Column} {kind : JoinKind} {left right : Plan}
    {on : Option Plan} {reading : Reading} {r : Relation}
    (hsides : ∀ side, side = left ∨ side = right → ∀ reading,
      r ∈ ((side.link g key).value.survey g reading).pinned →
        r ∈ (side.survey g reading).pinned ∨ ∃ a, Ties (side.link g key).value.ons r a)
    (h : r ∈ (surveyParts g reading ((join kind left right on).link g key).value.parts).pinned) :
    r ∈ (surveyParts g reading (join kind left right on).parts).pinned ∨
      ∃ a, Ties ((join kind left right on).link g key).value.ons r a := by
  rw [value_link_join] at h ⊢
  simp only [parts, surveyParts_cons, Findings.pinned_append, List.mem_append, pinned_surveyParts,
    List.flatMap_map, ons, ties_append] at h ⊢
  rcases h with h | h | h
  · rcases hsides left (.inl rfl) _ h with h | ⟨a, ha⟩
    · exact .inl (.inl h)
    · exact .inr ⟨a, .inl (.inl ha)⟩
  · rcases hsides right (.inr rfl) _ h with h | ⟨a, ha⟩
    · exact .inl (.inr (.inl h))
    · exact .inr ⟨a, .inl (.inr ha)⟩
  · have hadds := adds_linkedOn g key (left.link g key).value (right.link g key).value on
    rcases (hadds.mem_flatMap (throughAnd_pinned g _) r).1 h with h | h
    · exact .inl (.inr (.inr h))
    · obtain ⟨c, hc, hr⟩ := List.mem_flatMap.1 h
      obtain ⟨other, -, rfl⟩ := List.mem_map.1 hc
      obtain rfl : r = key.relation := by simpa [survey] using hr
      have hlink : keyLink key other ∈ (keyLink key other).conjuncts := List.mem_singleton_self _
      exact .inr ⟨other.relation, .inr ⟨key, other, (hadds.mem_flatMap throughAnd_conjuncts _).2
        (.inr (List.mem_flatMap.2 ⟨_, hc, hlink⟩)), rfl, rfl⟩⟩

/-- What newly ties a relation when a tree is linked is a link. -/
theorem mem_pinned_link {key : Column} {p : Plan} {reading : Reading} {r : Relation}
    (h : r ∈ ((p.link g key).value.survey g reading).pinned) :
    r ∈ (p.survey g reading).pinned ∨ ∃ a, Ties (p.link g key).value.ons r a := by
  induction p using link.induct generalizing reading with
  | case1 kind left right on ihl ihr =>
    cases ho : (join kind left right on).owner? with
    | some o =>
      -- An outer join keeps its findings to itself.
      rw [survey_of_owner ((owner?_link g key _).trans ho)] at h
      simp [Findings.scope] at h
    | none =>
      rw [survey_of_not_owner ((owner?_link g key _).trans ho), Findings.pinned_append,
        List.mem_append] at h
      rw [survey_of_not_owner ho, Findings.pinned_append, List.mem_append]
      rcases h with h | h
      · rw [value_link_join] at h
        simp [mention] at h
      · refine (mem_pinned_parts_link ?_ h).imp_left .inr
        rintro side (rfl | rfl) reading hr
        · exact ihl hr
        · exact ihr hr
  | case2 p hp =>
    rw [link_of_not_join g key hp] at h
    exact .inl h

theorem LinkedFrom.mem_pinned {p q : Plan} (h : LinkedFrom g p q) {reading : Reading}
    {r : Relation} (hr : r ∈ (q.survey g reading).pinned) :
    r ∈ (p.survey g reading).pinned ∨ ∃ a, Ties q.ons r a := by
  refine h.induction (motive := fun q => r ∈ (q.survey g reading).pinned →
    r ∈ (p.survey g reading).pinned ∨ ∃ a, Ties q.ons r a) .inl (fun key q ih hr => ?_) hr
  rcases mem_pinned_link hr with hr | htied
  · exact (ih hr).imp_right fun ⟨a, ha⟩ => ⟨a, ties_link key ha⟩
  · exact .inr htied

/-! ### The trees of scope nodes -/

theorem exists_tree?_link (key : Column) (p : Plan) : ∃ f : Plan → Plan,
    (∀ t, LinkedFrom g t (f t)) ∧ (p.link g key).value.tree? = p.tree?.map f := by
  cases p with
  | join kind l r on =>
    have htree : ((join kind l r on).link g key).value.tree?
        = some ((join kind l r on).link g key).value := by
      rw [value_link_join]
      rfl
    exact ⟨fun t => (t.link g key).value, fun _ => .single ⟨key, rfl⟩, htree⟩
  | _ => exact ⟨id, fun _ => .refl, Option.map_id'.symm⟩

theorem exists_tree?_impose (e : Restriction) (n : Nat) (p : Plan) : ∃ f : Plan → Plan,
    (∀ t, ∃ n', LinkedFrom e.partitioning (t.impose e n').value (f t)) ∧
      (p.impose e n).value.tree? = p.tree?.map f := by
  cases p with
  | select q =>
    refine ⟨fun t => (linkAll e.partitioning (e.linkKeys n) (t.impose e (n + 1)).value).value,
      fun t => ⟨n + 1, linkedFrom_linkAll _ _⟩, ?_⟩
    rw [value_impose]
    cases hs : q.source <;> simp [imposeBelow, enforce, tree?, imposeOption, hs]
  | join kind l r on =>
    obtain ⟨_, _, _, _, _, _, -, -, -, heq⟩ := exists_value_impose_join e n kind l r on
    have htree : ((join kind l r on).impose e n).value.tree?
        = some ((join kind l r on).impose e n).value := by
      rw [heq]
      rfl
    exact ⟨fun t => (t.impose e n).value, fun _ => ⟨n, .refl⟩, htree⟩
  | _ => exact ⟨fun t => (t.impose e n).value, fun _ => ⟨n, .refl⟩, rfl⟩

theorem ties_sourceOns_link (key : Column) {p : Plan} {r a : Relation} (h : Ties p.sourceOns r a) :
    Ties (p.link g key).value.sourceOns r a := by
  obtain ⟨f, hf, htree⟩ := exists_tree?_link (g := g) key p
  rw [sourceOns] at h ⊢
  rw [htree]
  cases hp : p.tree? with
  | none =>
    rw [hp] at h
    exact absurd h not_ties_nil
  | some t =>
    rw [hp] at h
    exact (hf t).ties h

theorem mem_pinned_interior_link {key : Column} {p : Plan} {r : Relation}
    (h : r ∈ ((p.link g key).value.interior g).pinned) :
    r ∈ (p.interior g).pinned ∨ ∃ a, Ties (p.link g key).value.sourceOns r a := by
  cases p with
  | join kind left right on =>
    have hnew := mem_pinned_parts_link (fun _ _ _ => mem_pinned_link) h
    rw [value_link_join] at hnew ⊢
    exact hnew
  | _ => exact .inl h

/-- Where a scope node gets no tenant conditions, links are all that newly ties a relation in it. -/
theorem mem_pinned_interior_impose {e : Restriction} {n : Nat} (hnone : e.keyConditions n = [])
    {p : Plan} (ho : p.owner?.isSome) {r : Relation}
    (h : r ∈ ((p.impose e n).value.interior e.partitioning).pinned) :
    r ∈ (p.interior e.partitioning).pinned ∨ ∃ a, Ties (p.impose e n).value.sourceOns r a := by
  have hbelow : ((p.imposeBelow e n).interior e.partitioning).pinned
      = (p.interior e.partitioning).pinned := by
    rw [interior, interior, parts_imposeBelow, pinned_surveyParts, pinned_surveyParts]
    exact flatMap_imposeParts fun c _ n => pinned_impose e n c.2 _
  rw [← hbelow]
  have howner : (p.impose e n).value.owner?.isSome := by rwa [owner?_impose]
  rw [value_impose] at h howner ⊢
  rw [interior, pinned_surveyParts] at h ⊢
  obtain ⟨c, hc, hr⟩ := List.mem_flatMap.1 h
  rcases exists_mem_of_mem_parts_enforce hnone hc with hc' | ⟨t, t', ht, hlinked, rfl⟩
  · exact .inl (List.mem_flatMap.2 ⟨c, hc', hr⟩)
  · rcases hlinked.mem_pinned hr with hr | ⟨a, ha⟩
    · exact .inl (List.mem_flatMap.2 ⟨_, ht, hr⟩)
    · exact .inr ⟨a, ha.mono (ons_subset_sourceOns howner hc)⟩

/-- Every link in the tree of a scope node leads to an anchor on its left. -/
def SourceLinksBack (g : Partitioning) (p : Plan) : Prop := ∀ t ∈ p.tree?, t.LinksBack g

theorem sourceLinksBack_of_forall {p : Plan} (h : ∀ c ∈ p.nodes, c.isSynthetic = false) :
    p.SourceLinksBack g := by
  intro t ht
  refine linksBack_of_forall fun c hc => h c ?_
  cases p with
  | select q =>
    have hsource : q.source = some t := ht
    have hmem : (Role.source, t) ∈ (select q).parts := by simp [parts, hsource]
    exact nodes_subset_of_mem_parts hmem hc
  | _ => rwa [Option.some.inj ht]

/-- Every link in the tree of a scope node leads to an earlier tenant relation of the tree. -/
theorem SourceLinksBack.lt {p : Plan} (h : p.SourceLinksBack g)
    (hdistinct : p.sourceRelations.Nodup) {r a : Relation} (hties : Ties p.sourceOns r a) :
    a ∈ p.sourceRelations ∧ g.covers a.table ∧
      p.sourceRelations.idxOf a < p.sourceRelations.idxOf r := by
  rw [sourceOns] at hties
  rw [sourceRelations] at hdistinct ⊢
  cases hp : p.tree? with
  | none =>
    rw [hp] at hties
    exact absurd hties not_ties_nil
  | some t =>
    rw [hp] at hties hdistinct
    exact ((h t hp).lt hdistinct hties).2

/-! ### The scope nodes of a restricted plan -/

section

variable {e : Restriction} {p m m' : Plan} {n : Nat} (hm : p.scopeNodes[n]? = some m)
  (hm' : (p.impose e 0).value.scopeNodes[n]? = some m')
include hm hm'

/-- The tree of a scope node has been imposed on, and it has got links. -/
theorem exists_tree?_scopeNodes : ∃ f : Plan → Plan,
    (∀ t, ∃ n', LinkedFrom e.partitioning (t.impose e n').value (f t)) ∧
      m'.tree? = m.tree?.map f := by
  have ho : m.owner?.isSome := (List.mem_filter.1 (List.mem_of_getElem? hm)).2
  refine (comesFrom_scopeNodes hm hm').induction (motive := fun q => ∃ f : Plan → Plan,
    (∀ t, ∃ n', LinkedFrom e.partitioning (t.impose e n').value (f t)) ∧ q.tree? = m.tree?.map f)
    ho (exists_tree?_impose e n m) ?_
  rintro q key - ⟨f, hf, htree⟩
  obtain ⟨f', hf', htree'⟩ := exists_tree?_link (g := e.partitioning) key q
  refine ⟨f' ∘ f, fun t => ?_, by rw [htree', htree, Option.map_map]⟩
  obtain ⟨n', hlinked⟩ := hf t
  exact ⟨n', hlinked.trans (hf' _)⟩

theorem sourceRelations_scopeNodes : m'.sourceRelations = m.sourceRelations := by
  obtain ⟨f, hf, htree⟩ := exists_tree?_scopeNodes hm hm'
  rw [sourceRelations, sourceRelations, htree]
  cases m.tree? with
  | none => rfl
  | some t =>
    obtain ⟨n', hlinked⟩ := hf t
    exact hlinked.relations_eq.trans (relations_impose e n' t)

theorem ties_scopeNodes {r a : Relation} (h : Ties m.sourceOns r a) : Ties m'.sourceOns r a := by
  obtain ⟨f, hf, htree⟩ := exists_tree?_scopeNodes hm hm'
  rw [sourceOns] at h ⊢
  rw [htree]
  cases hm : m.tree? with
  | none =>
    rw [hm] at h
    exact absurd h not_ties_nil
  | some t =>
    rw [hm] at h
    obtain ⟨n', hlinked⟩ := hf t
    exact hlinked.ties (ties_impose e n' h)

theorem sourceLinksBack_scopeNodes (h : m.SourceLinksBack e.partitioning) :
    m'.SourceLinksBack e.partitioning := by
  obtain ⟨f, hf, htree⟩ := exists_tree?_scopeNodes hm hm'
  intro t' ht'
  rw [htree] at ht'
  obtain ⟨t, ht, rfl⟩ := Option.map_eq_some_iff.1 ht'
  obtain ⟨n', hlinked⟩ := hf t
  exact hlinked.linksBack (linksBack_impose e n' (h t ht))

theorem mem_pinned_scopeNodes (hnone : e.keyConditions n = []) {r : Relation}
    (h : r ∈ (m'.interior e.partitioning).pinned) :
    r ∈ (m.interior e.partitioning).pinned ∨ ∃ a, Ties m'.sourceOns r a := by
  have ho : m.owner?.isSome := (List.mem_filter.1 (List.mem_of_getElem? hm)).2
  refine (comesFrom_scopeNodes hm hm').induction
    (motive := fun q => r ∈ (q.interior e.partitioning).pinned →
      r ∈ (m.interior e.partitioning).pinned ∨ ∃ a, Ties q.sourceOns r a) ho
    (mem_pinned_interior_impose hnone ho) (fun q key _ ih hr => ?_) h
  rcases mem_pinned_interior_link hr with hr | htied
  · exact (ih hr).imp_right fun ⟨a, ha⟩ => ⟨a, ties_sourceOns_link key ha⟩
  · exact .inr htied

end

end Plan

end Tenancy
