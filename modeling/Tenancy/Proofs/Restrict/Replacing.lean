import Tenancy.Proofs.Restrict.Leaves
import Tenancy.Proofs.Restrict.Passes
import Tenancy.Proofs.Restrict.Settling

namespace Tenancy

/-!
# Replacing leaves — what restriction does not read off the leaves of a plan

Restriction looks at tables, columns and links. Any other leaf may be replaced, and the restricted
plan is what it would be with the leaf replaced in it.

* `Plan.isOpaque` — the nodes that restriction does not look into;
* `Plan.ReplacesLeaves` — a map of nodes that puts one opaque node in the place of another;
* `relation?_rewriteUp`, `leftmost_rewriteUp`, `relations_rewriteUp` — a tree of joins reads the
  same;
* `rewriteUp_link`, `rewriteUp_enforce` — linking and enforcing go through such a replacement;
* `seen_and_pinned_rewriteUp` — a survey finds the same if the replaced leaves say the same;
* `settle_rewriteUp` — then settling a plan goes through the replacement.
-/

namespace Plan

open Findings (close)

/-- Is the node of a kind that restriction does not look at: no table, column or link, and nothing
that it looks through for them? -/
def isOpaque : Plan → Bool
  | table _ | aliased .. | column _ | and _ | group _ | join .. | keyLink .. => false
  | _ => true

/-- A map of nodes that puts one opaque node in the place of another, and only at leaves. -/
structure ReplacesLeaves (f : Plan → Plan) : Prop where
  /-- What has parts is kept. -/
  eq_self : ∀ p, p.isLeaf = false → f p = p
  /-- A leaf is kept, or it is opaque and so is what takes its place. -/
  leaf : ∀ p, p.isLeaf = true → f p = p ∨ p.isOpaque = true ∧ (f p).isOpaque = true

@[simp] theorem isLeaf_mapParts (f : Plan → Plan) (p : Plan) :
    (p.mapParts f).isLeaf = p.isLeaf := by
  cases p <;> rfl

theorem mapParts_of_isLeaf (f : Plan → Plan) {p : Plan} (h : p.isLeaf = true) :
    p.mapParts f = p := by
  cases p <;> first | rfl | simp [isLeaf] at h

theorem owners_of_isLeaf {p : Plan} (h : p.isLeaf = true) : p.owners = [] := by
  cases p <;> first | rfl | simp [isLeaf] at h

theorem rewriteUp_of_isLeaf (f : Plan → Plan) {p : Plan} (h : p.isLeaf = true) :
    p.rewriteUp f = f p := by
  rw [rewriteUp_eq, mapParts_of_isLeaf _ h]

section

variable {f : Plan → Plan} (hf : ReplacesLeaves f)
include hf

theorem ReplacesLeaves.rewriteUp_of_isLeaf_eq_false {p : Plan} (h : p.isLeaf = false) :
    p.rewriteUp f = p.mapParts (rewriteUp f) := by
  rw [rewriteUp_eq, hf.eq_self _ (by rw [isLeaf_mapParts, h])]

theorem ReplacesLeaves.rewriteUp_join (kind : JoinKind) (l r : Plan) (on : Option Plan) :
    (join kind l r on).rewriteUp f
      = join kind (l.rewriteUp f) (r.rewriteUp f) (on.map (rewriteUp f)) :=
  hf.rewriteUp_of_isLeaf_eq_false rfl

/-- What is the same of all opaque nodes, and of a node with other parts, is the same after a
replacement. -/
theorem ReplacesLeaves.apply_rewriteUp {β : Type} {φ : Plan → β} {c : β}
    (hhidden : ∀ q, q.isOpaque = true → φ q = c) {p : Plan}
    (hparts : p.isLeaf = false → φ (p.mapParts (rewriteUp f)) = φ p) :
    φ (p.rewriteUp f) = φ p := by
  cases hp : p.isLeaf with
  | false => rw [hf.rewriteUp_of_isLeaf_eq_false hp, hparts hp]
  | true =>
    rw [rewriteUp_of_isLeaf f hp]
    rcases hf.leaf p hp with heq | ⟨hp, hfp⟩
    · rw [heq]
    · rw [hhidden _ hfp, hhidden _ hp]

/-! ### Trees of joins -/

theorem ReplacesLeaves.keepsAnd : KeepsAnd (rewriteUp f) where
  and _ := hf.rewriteUp_of_isLeaf_eq_false rfl
  isAnd p := by
    refine hf.apply_rewriteUp (c := false) (fun q hq => ?_) fun _ => ?_
    · cases q <;> first | rfl | simp [isOpaque] at hq
    · cases p <;> rfl

theorem ReplacesLeaves.keepsNames : KeepsNames (rewriteUp f) where
  eq_self p hp := by
    have hleaf : p.isLeaf = true := by cases p <;> first | rfl | simp [isName] at hp
    rw [rewriteUp_of_isLeaf f hleaf]
    rcases hf.leaf p hleaf with heq | ⟨hleft, -⟩
    · exact heq
    · cases p <;> simp [isName, isOpaque] at hp hleft
  isName p := by
    refine hf.apply_rewriteUp (c := false) (fun q hq => ?_) fun _ => isName_mapParts _ p
    cases q <;> first | rfl | simp [isOpaque] at hq

theorem ReplacesLeaves.relation?_rewriteUp (p : Plan) :
    (p.rewriteUp f).relation? = p.relation? := by
  refine hf.apply_rewriteUp (c := none) (fun q hq => ?_) fun _ => hf.keepsNames.relation?_mapParts p
  cases q <;> first | rfl | simp [isOpaque] at hq

theorem ReplacesLeaves.leftmost_rewriteUp (p : Plan) :
    (p.rewriteUp f).leftmost = p.leftmost := by
  induction p using inductionOnParts with
  | step p ih =>
    refine hf.apply_rewriteUp (c := none) (fun q hq => ?_) fun _ => ?_
    · cases q <;> first | rfl | simp [isOpaque] at hq
    · cases p with
      | join kind l r on => exact ih (_, l) List.mem_cons_self
      | group p => exact ih (_, p) List.mem_cons_self
      | aliased p a =>
        have hrelation := hf.relation?_rewriteUp (aliased p a)
        rwa [hf.rewriteUp_of_isLeaf_eq_false rfl] at hrelation
      | _ => rfl

theorem ReplacesLeaves.relations_rewriteUp (p : Plan) :
    (p.rewriteUp f).relations = p.relations := by
  induction p using inductionOnParts with
  | step p ih =>
    refine hf.apply_rewriteUp (c := []) (fun q hq => ?_) fun _ => ?_
    · cases q <;> first | rfl | simp [isOpaque] at hq
    · cases p with
      | join kind l r on =>
        have hl : (l.rewriteUp f).relations = l.relations := ih (_, l) List.mem_cons_self
        have hr : (r.rewriteUp f).relations = r.relations :=
          ih (_, r) (List.mem_cons_of_mem _ List.mem_cons_self)
        show (l.rewriteUp f).relations ++ (r.rewriteUp f).relations = l.relations ++ r.relations
        rw [hl, hr]
      | group p => exact ih (_, p) List.mem_cons_self
      | aliased p a =>
        have hrelation := hf.relation?_rewriteUp (aliased p a)
        rw [hf.rewriteUp_of_isLeaf_eq_false rfl] at hrelation
        exact congrArg Option.toList hrelation
      | _ => rfl

/-! ### Links and conditions -/

/-- A link stays this link, and nothing else becomes one. -/
theorem ReplacesLeaves.rewriteUp_eq_keyLink_iff {p : Plan} {key other : Column} :
    p.rewriteUp f = keyLink key other ↔ p = keyLink key other := by
  refine iff_of_eq (hf.apply_rewriteUp (φ := fun p => p = keyLink key other) (c := False)
    (fun q hq => ?_) fun hp => ?_)
  · cases q <;> simp [isOpaque] at hq ⊢
  · cases p <;> simp [isLeaf, mapParts] at hp ⊢

theorem ReplacesLeaves.hasLink_rewriteUp (key other : Column) (on : Option Plan) :
    hasLink key other (on.map (rewriteUp f)) = hasLink key other on := by
  have hmem : ∀ p : Plan, keyLink key other ∈ (p.rewriteUp f).conjuncts ↔
      keyLink key other ∈ p.conjuncts := by
    intro p
    rw [hf.keepsAnd.conjuncts, List.mem_map]
    simp only [hf.rewriteUp_eq_keyLink_iff, exists_eq_right]
  rw [Bool.eq_iff_iff, hasLink_iff, hasLink_iff]
  cases on with
  | none => rfl
  | some p => simpa using hmem p

theorem ReplacesLeaves.missingLink?_rewriteUp (g : Partitioning) (key : Column) (l r : Plan)
    (on : Option Plan) :
    missingLink? g key (l.rewriteUp f) (r.rewriteUp f) (on.map (rewriteUp f))
      = missingLink? g key l r on := by
  rw [missingLink?_congr key (hf.leftmost_rewriteUp l) (hf.relations_rewriteUp l)
    (hf.leftmost_rewriteUp r)]
  -- The anchor is the same now, and so is the test whether the link is there.
  show (if _ then Option.filter (fun other => !hasLink key other (on.map (rewriteUp f))) _
    else none) = if _ then Option.filter (fun other => !hasLink key other on) _ else none
  simp only [hf.hasLink_rewriteUp]

theorem ReplacesLeaves.map_rewriteUp_linkedOn (g : Partitioning) (key : Column) (l r : Plan)
    (on : Option Plan) :
    (linkedOn g key l r on).map (rewriteUp f)
      = linkedOn g key (l.rewriteUp f) (r.rewriteUp f) (on.map (rewriteUp f)) := by
  rw [linkedOn, linkedOn, hf.missingLink?_rewriteUp]
  cases missingLink? g key l r on with
  | none => rfl
  | some other =>
    have hlink : (keyLink key other).rewriteUp f = keyLink key other :=
      hf.rewriteUp_eq_keyLink_iff.2 rfl
    have hadd := hf.keepsAnd.addCondition on (keyLink key other)
    rwa [hlink] at hadd

/-- Linking goes through a replacement. -/
theorem ReplacesLeaves.rewriteUp_link (g : Partitioning) (key : Column) (p : Plan) :
    (p.link g key).value.rewriteUp f = ((p.rewriteUp f).link g key).value := by
  induction p using link.induct with
  | case1 kind l r on ihl ihr =>
    rw [value_link_join, hf.rewriteUp_join, hf.map_rewriteUp_linkedOn, ihl, ihr,
      hf.rewriteUp_join, value_link_join]
  | case2 p h =>
    have hjoin : (∃ kind l r on, p.rewriteUp f = join kind l r on)
        = ∃ kind l r on, p = join kind l r on := by
      refine hf.apply_rewriteUp (φ := fun p => ∃ kind l r on, p = join kind l r on) (c := False)
        (fun q hq => ?_) fun hp => ?_
      · cases q <;> simp [isOpaque] at hq ⊢
      · cases p <;> simp [isLeaf, mapParts] at hp ⊢
    have hrewritten : ∀ kind l r on, p.rewriteUp f ≠ join kind l r on := by
      intro kind l r on heq
      obtain ⟨kind, l, r, on, hp⟩ := hjoin.mp ⟨kind, l, r, on, heq⟩
      exact h kind l r on hp
    rw [link_of_not_join g key h, link_of_not_join g key hrewritten, Logged.value_pure,
      Logged.value_pure]

theorem ReplacesLeaves.rewriteUp_linkAll (g : Partitioning) (keys : List Column) (p : Plan) :
    (linkAll g keys p).value.rewriteUp f = (linkAll g keys (p.rewriteUp f)).value := by
  induction keys generalizing p with
  | nil => rfl
  | cons key keys ih => rw [value_linkAll_cons, ih, hf.rewriteUp_link, value_linkAll_cons]

/-- Enforcing goes through a replacement, at a node that is not replaced itself. What is enforced
afterwards has the replaced conditions. -/
theorem ReplacesLeaves.rewriteUp_enforce {e e' : Restriction} {n : Nat}
    (hpartitioning : e'.partitioning = e.partitioning) (hlinks : e'.linkKeys n = e.linkKeys n)
    (hkeys : e'.keyConditions n = (e.keyConditions n).map (rewriteUp f)) {p : Plan}
    (hp : p.isLeaf = false) : (p.enforce e n).rewriteUp f = (p.rewriteUp f).enforce e' n := by
  have hrewrite := hf.rewriteUp_of_isLeaf_eq_false hp
  cases ho : p.owner? with
  | none =>
    have hrewritten : (p.rewriteUp f).owner? = none := by rw [hrewrite, owner?_mapParts, ho]
    rw [enforce_of_not_owner e n ho, enforce_of_not_owner e' n hrewritten]
  | some o =>
    cases p with
    | select s =>
      have hsource : (s.source.map fun t => (linkAll e.partitioning (e.linkKeys n) t).value).map
            (rewriteUp f)
          = (s.source.map (rewriteUp f)).map fun t =>
              (linkAll e.partitioning (e.linkKeys n) t).value := by
        rw [Option.map_map, Option.map_map]
        exact congrArg (Option.map · s.source) (funext (hf.rewriteUp_linkAll _ _))
      rw [hrewrite, enforce, hf.rewriteUp_of_isLeaf_eq_false rfl]
      simp only [mapParts, Query.map, enforce, hsource, hf.keepsAnd.addWheres, hpartitioning,
        hlinks, hkeys]
    | join kind l r on =>
      rw [hf.rewriteUp_join, enforce, enforce, hpartitioning, hlinks, hkeys]
      split
      · rw [hf.rewriteUp_join, hf.rewriteUp_linkAll, hf.rewriteUp_linkAll, hf.keepsAnd.addOn]
      · rw [hf.rewriteUp_join]
    | _ => simp [owner?] at ho

/-! ### Surveys -/

/-- Does what takes the place of a leaf read the same relations and tie the same ones to a
tenant? -/
def KeepsFindings (g : Partitioning) (f : Plan → Plan) : Prop :=
  ∀ (p : Plan) (reading : Reading), p.isLeaf = true →
    ((f p).survey g reading).seen = (p.survey g reading).seen ∧
      ((f p).survey g reading).pinned = (p.survey g reading).pinned

section

variable {g : Partitioning} (hg : KeepsFindings g f)
include hg

/-- Then so does the plan with the replaced leaves. -/
theorem ReplacesLeaves.survey_rewriteUp (reading : Reading) (p : Plan) :
    ((p.rewriteUp f).survey g reading).seen = (p.survey g reading).seen ∧
      ((p.rewriteUp f).survey g reading).pinned = (p.survey g reading).pinned := by
  induction p using inductionOnParts generalizing reading with
  | step p ih =>
    cases hp : p.isLeaf with
    | true =>
      rw [rewriteUp_of_isLeaf f hp]
      exact hg p reading hp
    | false =>
      rw [hf.rewriteUp_of_isLeaf_eq_false hp, survey_eq, survey_eq g reading p, owner?_mapParts,
        hf.keepsNames.mention_mapParts, hf.keepsNames.parts_mapParts]
      cases p.owner? with
      | some o => exact ⟨rfl, rfl⟩
      | none =>
        have hseen := List.flatMap_congr fun c hc => (ih c hc (c.1.reading reading)).1
        have hpinned := List.flatMap_congr fun c hc => (ih c hc (c.1.reading reading)).2
        simp only [close, Option.elim_none, Findings.seen_append, Findings.pinned_append,
          seen_surveyParts, pinned_surveyParts, List.flatMap_map, hseen, hpinned, and_self]

theorem ReplacesLeaves.interior_mapParts_rewriteUp (p : Plan) :
    ((p.mapParts (rewriteUp f)).interior g).seen = (p.interior g).seen ∧
      ((p.mapParts (rewriteUp f)).interior g).pinned = (p.interior g).pinned := by
  simp only [interior, hf.keepsNames.parts_mapParts, seen_surveyParts, pinned_surveyParts,
    List.flatMap_map]
  exact ⟨List.flatMap_congr fun c _ => (hf.survey_rewriteUp hg _ c.2).1,
    List.flatMap_congr fun c _ => (hf.survey_rewriteUp hg _ c.2).2⟩

theorem ReplacesLeaves.tiedInside_mapParts_rewriteUp (inherited : List Relation) (p : Plan) :
    (p.mapParts (rewriteUp f)).tiedInside g inherited = p.tiedInside g inherited := by
  rw [tiedInside, tiedInside, owner?_mapParts, takesOver_mapParts,
    (hf.interior_mapParts_rewriteUp hg p).2]

theorem ReplacesLeaves.leftOpen_mapParts_rewriteUp (inherited : List Relation) (p : Plan) :
    (p.mapParts (rewriteUp f)).leftOpen g inherited = p.leftOpen g inherited := by
  rw [leftOpen, leftOpen, takesOver_mapParts, (hf.interior_mapParts_rewriteUp hg p).1,
    (hf.interior_mapParts_rewriteUp hg p).2]

/-! ### Restriction -/

/-- Settling a plan goes through a replacement, if what takes the place of a leaf is settled to what
takes its place afterwards, and the tenant conditions are replaced as well. -/
theorem ReplacesLeaves.settle_rewriteUp {f' : Plan → Plan} (hf' : ReplacesLeaves f')
    {g' : Partitioning} {access access' : Access}
    (hleaf : ∀ (p : Plan) (inherited : List Relation), p.isLeaf = true →
      (f p).settle g g' access' inherited = f' p)
    (hkeys : ∀ rs, Restriction.keyConditions ⟨g', access', fun _ => rs⟩ 0
      = (Restriction.keyConditions ⟨g', access, fun _ => rs⟩ 0).map (rewriteUp f'))
    (inherited : List Relation) (p : Plan) :
    (p.rewriteUp f).settle g g' access' inherited
      = (p.settle g g' access inherited).rewriteUp f' := by
  induction p using inductionOnParts generalizing inherited with
  | step p ih =>
    cases hp : p.isLeaf with
    | true =>
      rw [rewriteUp_of_isLeaf f hp, hleaf p inherited hp,
        settle_of_owners_eq_nil _ _ _ _ (owners_of_isLeaf hp), rewriteUp_of_isLeaf f' hp]
    | false =>
      -- The node tells its parts the same and needs the same, whatever the leaves below are.
      set tied := p.tiedInside g inherited with htied
      have hparts : p.mapParts (fun c => (c.rewriteUp f).settle g g' access' tied)
          = p.mapParts fun c => (c.settle g g' access tied).rewriteUp f' :=
        mapParts_congr fun c hc => ih c hc tied
      have hnode : ∀ h, (p.mapParts h).isLeaf = false := fun h => by rw [isLeaf_mapParts, hp]
      have henforce : ∀ q : Plan, q.isLeaf = false →
          (q.enforce ⟨g', access, fun _ => p.leftOpen g inherited⟩ 0).rewriteUp f'
            = (q.rewriteUp f').enforce ⟨g', access', fun _ => p.leftOpen g inherited⟩ 0 := by
        intro q hq
        apply hf'.rewriteUp_enforce _ _ (hkeys _) hq
        · rfl
        · rfl
      rw [hf.rewriteUp_of_isLeaf_eq_false hp, settle_eq, settle_eq _ _ _ _ p, mapParts_mapParts,
        hf.tiedInside_mapParts_rewriteUp hg, hf.leftOpen_mapParts_rewriteUp hg, ← htied, hparts,
        ← mapParts_mapParts _ (rewriteUp f')]
      rw [henforce _ (hnode _), hf'.rewriteUp_of_isLeaf_eq_false (hnode _)]

end

end

end Plan

end Tenancy
