import Tenancy.Proofs.Plan.Conjunctions

namespace Tenancy

/-!
# Links — what linking changes and when nothing is left to link

* `Plan.ons` — the `ON` conditions of a tree of joins;
* `inductionOnTree` — induction on such a tree;
* `Plan.linkedOn` — the `ON` of a join after linking, and `value_link_join` with it;
* `leftmost_link`, `relations_link`, `anchor?_link` — linking keeps the relations of a tree in
  place, so it never changes which links are due;
* `Plan.Linked` — no join of the tree lacks a link for the key;
* `link_of_linked` — then linking does nothing;
* `linked_link`, `Linked.link`, `linked_linkAll` — linking leaves nothing to link, for the keys it
  has dealt with.
-/

namespace Plan

variable (g : Partitioning) (key : Column)

/-- The `ON` of a join of `l` and `r` after linking. -/
def linkedOn (l r : Plan) (on : Option Plan) : Option Plan :=
  (missingLink? g key l r on).elim on fun other => addCondition on (keyLink key other)

theorem value_link_join (kind : JoinKind) (l r : Plan) (on : Option Plan) :
    ((join kind l r on).link g key).value
      = join kind (l.link g key).value (r.link g key).value
          (linkedOn g key (l.link g key).value (r.link g key).value on) := by
  simp only [link, Logged.value_bind, linkedOn]
  cases missingLink? g key (l.link g key).value (r.link g key).value on <;> rfl

theorem adds_linkedOn (l r : Plan) (on : Option Plan) :
    Adds ((missingLink? g key l r on).toList.map (keyLink key)) on.toList
      (linkedOn g key l r on).toList := by
  rw [linkedOn]
  cases missingLink? g key l r on with
  | none => exact adds_nil _
  | some other => exact adds_addCondition on _

/-- Only joins are descended. -/
theorem link_of_not_join {p : Plan} (h : ∀ kind l r on, p ≠ join kind l r on) :
    p.link g key = pure p := by
  cases p with
  | join kind l r on => exact absurd rfl (h kind l r on)
  | _ => rfl

/-! ### Trees of joins -/

/-- The `ON` conditions of a tree. -/
def ons : Plan → List Plan
  | join _ l r on => l.ons ++ r.ons ++ on.toList
  | group p => p.ons
  | _ => []

/-- Does a tree of joins go on below the node? -/
def isBranch : Plan → Bool
  | join .. | group _ => true
  | _ => false

/-- Induction on a tree of joins, which ends at whatever is no join and no parentheses. -/
@[elab_as_elim]
theorem inductionOnTree {motive : Plan → Prop} (p : Plan)
    (join : ∀ kind l r on, motive l → motive r → motive (join kind l r on))
    (group : ∀ p, motive p → motive (group p))
    (leaf : ∀ p, p.isBranch = false → motive p) : motive p := by
  induction p using ons.induct with
  | case1 kind l r on ihl ihr => exact join kind l r on ihl ihr
  | case2 p ih => exact group p ih
  | case3 p hjoin hgroup =>
    refine leaf p ?_
    cases p with
    | join kind l r on => exact absurd rfl (hjoin kind l r on)
    | group p => exact absurd rfl (hgroup p)
    | _ => rfl

theorem ons_of_leaf {p : Plan} (h : p.isBranch = false) : p.ons = [] := by
  cases p with
  | join | group => simp [isBranch] at h
  | _ => rfl

theorem leftmost_of_leaf {p : Plan} (h : p.isBranch = false) : p.leftmost = p.relation? := by
  cases p with
  | join | group => simp [isBranch] at h
  | _ => rfl

theorem relations_of_leaf {p : Plan} (h : p.isBranch = false) :
    p.relations = p.relation?.toList := by
  cases p with
  | join | group => simp [isBranch] at h
  | _ => rfl

theorem mem_relations_of_leftmost {p : Plan} {r : Relation} (h : p.leftmost = some r) :
    r ∈ p.relations := by
  induction p using inductionOnTree with
  | join kind l _ on ih _ => exact List.mem_append_left _ (ih h)
  | group p ih => exact ih h
  | leaf p hleaf =>
    rw [leftmost_of_leaf hleaf] at h
    rwa [relations_of_leaf hleaf, Option.mem_toList]

variable {g key} in
/-- The anchor is the key of a relation on the left. -/
theorem exists_mem_relations_of_anchor? {l : Plan} {r : Relation} {other : Column}
    (h : anchor? g l r = some other) : ∃ s ∈ l.relations, keyOf? g s = some other := by
  obtain ⟨s, hs, hkey⟩ := List.exists_of_findSome?_eq_some h
  have hmem := List.mem_of_mem_filter hs
  rw [List.mem_append, Option.mem_toList, List.mem_reverse] at hmem
  exact ⟨s, hmem.elim mem_relations_of_leftmost id, hkey⟩

variable {g key} in
/-- A link that is due ties the relation with which the right side starts to the anchor. -/
theorem of_missingLink?_eq_some {other : Column} {l r : Plan} {on : Option Plan}
    (h : missingLink? g key l r on = some other) :
    r.leftmost = some key.relation ∧ anchor? g l key.relation = some other := by
  unfold missingLink? at h
  split at h
  · next hr => exact ⟨hr, (Option.filter_eq_some_iff.1 h).1⟩
  · simp at h

/-! ### What stays in place -/

theorem leftmost_link (p : Plan) : (p.link g key).value.leftmost = p.leftmost := by
  induction p using link.induct with
  | case1 kind l r on ihl _ => rw [value_link_join, leftmost, leftmost, ihl]
  | case2 p h => rw [link_of_not_join g key h, Logged.value_pure]

theorem relations_link (p : Plan) : (p.link g key).value.relations = p.relations := by
  induction p using link.induct with
  | case1 kind l r on ihl ihr => rw [value_link_join, relations, relations, ihl, ihr]
  | case2 p h => rw [link_of_not_join g key h, Logged.value_pure]

theorem owner?_link (p : Plan) : (p.link g key).value.owner? = p.owner? := by
  induction p using link.induct with
  | case1 kind l r on _ _ => rw [value_link_join, owner?, owner?]
  | case2 p h => rw [link_of_not_join g key h, Logged.value_pure]

variable {g} in
/-- Which link is due at a join depends on the relations of its sides alone. -/
theorem missingLink?_congr {l l' r r' : Plan} (hl : l'.leftmost = l.leftmost)
    (hls : l'.relations = l.relations) (hr : r'.leftmost = r.leftmost) (on : Option Plan) :
    missingLink? g key l' r' on = missingLink? g key l r on := by
  rw [missingLink?, missingLink?, anchor?, anchor?, hl, hls, hr]

theorem missingLink?_link (k : Column) (l r : Plan) (on : Option Plan) :
    missingLink? g k (l.link g key).value (r.link g key).value on = missingLink? g k l r on :=
  missingLink?_congr k (leftmost_link g key l) (relations_link g key l) (leftmost_link g key r) on

/-! ### When nothing is left to link -/

/-- Is the link of two keys one of the conditions? -/
def hasLink (key other : Column) (on : Option Plan) : Bool :=
  on.any fun condition => condition.conjuncts.any fun
    | keyLink k o => decide (k = key ∧ o = other)
    | _ => false

theorem hasLink_iff {key other : Column} {on : Option Plan} :
    hasLink key other on = true ↔ keyLink key other ∈ on.toList.flatMap conjuncts := by
  -- The test reads the keys off a conjunct, so it finds this very link.
  have hconj : ∀ p : Plan, (p.conjuncts.any fun
      | keyLink k o => decide (k = key ∧ o = other)
      | _ => false) = true ↔ keyLink key other ∈ p.conjuncts := by
    intro p
    rw [List.any_eq_true]
    constructor
    · rintro ⟨c, hc, h⟩
      split at h
      · obtain ⟨rfl, rfl⟩ := of_decide_eq_true h
        exact hc
      · exact absurd h (by simp)
    · exact fun h => ⟨_, h, by simp⟩
  cases on with
  | none => simp [hasLink]
  | some p => simpa [hasLink] using hconj p

theorem missingLink?_eq_none_iff {l r : Plan} {on : Option Plan} :
    missingLink? g key l r on = none ↔
      ∀ other, r.leftmost = some key.relation → anchor? g l key.relation = some other →
        keyLink key other ∈ on.toList.flatMap conjuncts := by
  have hdef : missingLink? g key l r on = if r.leftmost = some key.relation then
      (anchor? g l key.relation).filter fun other => !hasLink key other on else none := rfl
  rw [hdef]
  split
  · next h => simp [Option.filter_eq_none_iff, h, hasLink_iff]
  · next h => simp [h]

variable {g key}

/-- A link that is there stays there when a condition is added. -/
theorem missingLink?_addCondition {k : Column} {l r : Plan} {on : Option Plan} (c : Plan)
    (h : missingLink? g k l r on = none) : missingLink? g k l r (addCondition on c) = none := by
  rw [missingLink?_eq_none_iff] at h ⊢
  intro other hr hl
  rw [throughAnd_conjuncts.flatMap_addCondition]
  exact List.mem_append_left _ (h other hr hl)

theorem missingLink?_linkedOn {k : Column} {l r : Plan} {on : Option Plan}
    (h : missingLink? g k l r on = none) :
    missingLink? g k l r (linkedOn g key l r on) = none := by
  rw [linkedOn]
  cases missingLink? g key l r on with
  | none => exact h
  | some other => exact missingLink?_addCondition _ h

/-- Once a join is linked the link is there. -/
theorem missingLink?_linkedOn_self (l r : Plan) (on : Option Plan) :
    missingLink? g key l r (linkedOn g key l r on) = none := by
  rw [linkedOn]
  cases h : missingLink? g key l r on with
  | none => exact h
  | some other =>
    rw [missingLink?_eq_none_iff]
    intro other' hr hl
    have hother : anchor? g l key.relation = some other := by
      simp only [missingLink?, hr, if_true, Option.filter_eq_some_iff] at h
      exact h.1
    obtain rfl : other' = other := Option.some.inj (hl.symm.trans hother)
    -- The link that was missing is the last conjunct now.
    rw [Option.elim_some, throughAnd_conjuncts.flatMap_addCondition]
    exact List.mem_append_right _ (by simp [conjuncts])

variable (g key)

/-- No join of the tree lacks a link for the key. -/
def Linked : Plan → Prop
  | join _ l r on => l.Linked ∧ r.Linked ∧ missingLink? g key l r on = none
  | _ => True

theorem linked_join {kind : JoinKind} {l r : Plan} {on : Option Plan} :
    (join kind l r on).Linked g key ↔
      l.Linked g key ∧ r.Linked g key ∧ missingLink? g key l r on = none :=
  Iff.rfl

theorem linked_of_not_join {p : Plan} (h : ∀ kind l r on, p ≠ join kind l r on) :
    p.Linked g key := by
  cases p with
  | join kind l r on => exact absurd rfl (h kind l r on)
  | _ => trivial

variable {g key}

theorem link_of_linked {p : Plan} (h : p.Linked g key) : p.link g key = pure p := by
  induction p using link.induct with
  | case1 kind l r on ihl ihr =>
    obtain ⟨hl, hr, hon⟩ := h
    simp only [link, ihl hl, ihr hr, pure_bind, hon]
  | case2 p hp => exact link_of_not_join g key hp

theorem linked_link (p : Plan) : (p.link g key).value.Linked g key := by
  induction p using link.induct with
  | case1 kind l r on ihl ihr =>
    rw [value_link_join, linked_join]
    exact ⟨ihl, ihr, missingLink?_linkedOn_self _ _ _⟩
  | case2 p h =>
    rw [link_of_not_join g key h, Logged.value_pure]
    exact linked_of_not_join g key h

/-- What is linked for one key stays so when the tree is linked for another. -/
theorem Linked.link {k : Column} {p : Plan} (h : p.Linked g k) :
    (p.link g key).value.Linked g k := by
  induction p using link.induct with
  | case1 kind l r on ihl ihr =>
    obtain ⟨hl, hr, hon⟩ := h
    rw [value_link_join, linked_join]
    refine ⟨ihl hl, ihr hr, missingLink?_linkedOn ?_⟩
    rw [missingLink?_link, hon]
  | case2 p hp => rwa [link_of_not_join g key hp]

/-! ### Several keys -/

theorem value_linkAll_cons (k : Column) (ks : List Column) (p : Plan) :
    (linkAll g (k :: ks) p).value = (linkAll g ks (p.link g k).value).value := by
  rw [linkAll, List.foldlM_cons, Logged.value_bind, linkAll]

theorem value_linkSides (ks : List Column) (l r : Plan) :
    (linkSides g ks (l, r)).value = ((linkAll g ks l).value, (linkAll g ks r).value) := by
  induction ks generalizing l r with
  | nil => rfl
  | cons k ks ih =>
    rw [value_linkAll_cons, value_linkAll_cons, ← ih, linkSides, List.foldlM_cons]
    rfl

/-- What linking for one key preserves, linking for several keys preserves. -/
theorem linkAll_induction {motive : Plan → Prop} {ks : List Column} {p : Plan} (hp : motive p)
    (step : ∀ k ∈ ks, ∀ q, motive q → motive (q.link g k).value) :
    motive (linkAll g ks p).value := by
  induction ks generalizing p with
  | nil => exact hp
  | cons k ks ih =>
    rw [value_linkAll_cons]
    exact ih (step k List.mem_cons_self p hp) fun k' hk' => step k' (List.mem_cons_of_mem _ hk')

theorem linkAll_of_linked {ks : List Column} {p : Plan} (h : ∀ k ∈ ks, p.Linked g k) :
    (linkAll g ks p).value = p := by
  induction ks with
  | nil => rfl
  | cons k ks ih =>
    rw [value_linkAll_cons, link_of_linked (h k List.mem_cons_self), Logged.value_pure]
    exact ih fun k' hk' => h k' (List.mem_cons_of_mem _ hk')

/-- Linking for several keys leaves nothing to link for any of them. -/
theorem linked_linkAll {ks : List Column} {k : Column} (hk : k ∈ ks) (p : Plan) :
    (linkAll g ks p).value.Linked g k := by
  induction ks generalizing p with
  | nil => simp at hk
  | cons k' ks ih =>
    rw [value_linkAll_cons]
    rcases List.mem_cons.1 hk with rfl | hk
    · -- The links for the first key stay when those for the others are added.
      exact linkAll_induction (linked_link p) fun _ _ _ hq => hq.link
    · exact ih hk _

end Plan

end Tenancy
