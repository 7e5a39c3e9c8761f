import Tenancy.Proofs.Rows.InnerJoins

namespace Tenancy

/-!
# Outer joins — which rows of other tenants a restricted query shows

* `Plan.rows`, `Query.rows` — the rows of a tree of joins and of a query, over a database;
* `Plan.Stranded` — the relation is on a side that its nearest outer join keeps, and in this row
  the join has found nothing on the other side;
* `Plan.Guarded` — every outer join asks for the tenant's records in its `ON`;
* `restrict_outer_joins` — a restricted query shows a record of another tenant only where it is
  stranded.

The conditions of an outer join stand in its `ON`, which decides what matches but keeps the rows
that match nothing. So a record on a kept side is not filtered: it loses its matches instead.
-/

/-! ### Evaluation -/

/-- The records of each table. -/
abbrev Database := String → List Record

/-- The row with one record. -/
def Row.single (r : Relation) (record : Record) : Row :=
  fun s => if s = r then some record else none

/-- The records of two rows side by side. -/
def Row.merge (a b : Row) : Row := fun r => (a r).or (b r)

/-- Does the join keep rows of its left side that match nothing? -/
def JoinKind.keepsLeft : JoinKind → Bool
  | .left | .full => true
  | _ => false

/-- Does the join keep rows of its right side that match nothing? -/
def JoinKind.keepsRight : JoinKind → Bool
  | .right | .full => true
  | _ => false

/-- The rows of a join: the pairs that match, and the rows of a kept side that match nothing, in
which the other side has no records. -/
def JoinKind.joined (kind : JoinKind) (matches? : Row → Bool) (ls rs : List Row) : List Row :=
  (ls.flatMap fun a => (rs.map a.merge).filter matches?)
    ++ (if kind.keepsLeft then ls.filter fun a => rs.all fun b => !matches? (a.merge b) else [])
    ++ (if kind.keepsRight then rs.filter fun b => ls.all fun a => !matches? (a.merge b) else [])

namespace Plan

/-- The rows of a tree of joins. -/
def rows (d : Database) (atom : Plan → Row → Bool) : Plan → List Row
  | table t => (d t).map (Row.single ⟨t, none⟩)
  | aliased (table t) a => (d t).map (Row.single ⟨t, some a⟩)
  | group p => p.rows d atom
  | join kind l r on =>
    kind.joined (fun row => on.toList.all (·.holds atom row)) (l.rows d atom) (r.rows d atom)
  | _ => []

end Plan

/-- The rows that a query selects from. -/
def Query.rows (d : Database) (atom : Plan → Row → Bool) (q : Query Plan) : List Row :=
  (q.source.elim [fun _ => none] (Plan.rows d atom)).filter fun row =>
    q.wheres.all (·.holds atom row)

theorem JoinKind.mem_joined {kind : JoinKind} {matches? : Row → Bool} {ls rs : List Row}
    {row : Row} : row ∈ kind.joined matches? ls rs ↔
      (∃ a ∈ ls, ∃ b ∈ rs, matches? row = true ∧ row = a.merge b) ∨
      (kind.keepsLeft = true ∧ row ∈ ls ∧ ∀ b ∈ rs, matches? (row.merge b) = false) ∨
      (kind.keepsRight = true ∧ row ∈ rs ∧ ∀ a ∈ ls, matches? (a.merge row) = false) := by
  rw [joined, List.mem_append, List.mem_append, or_assoc]
  refine or_congr ?_ (or_congr ?_ ?_)
  · simp only [List.mem_flatMap, List.mem_filter, List.mem_map]
    constructor
    · rintro ⟨a, ha, ⟨b, hb, rfl⟩, h⟩
      exact ⟨a, ha, b, hb, h, rfl⟩
    · rintro ⟨a, ha, b, hb, h, rfl⟩
      exact ⟨a, ha, ⟨b, hb, rfl⟩, h⟩
  · cases kind.keepsLeft <;> simp
  · cases kind.keepsRight <;> simp

theorem Row.merge_of_left {a b : Row} {r : Relation} (h : b r = none) : a.merge b r = a r := by
  rw [merge, h, Option.or_none]

theorem Row.merge_of_right {a b : Row} {r : Relation} (h : a r = none) : a.merge b r = b r := by
  rw [merge, h, Option.none_or]

namespace Plan

/-- In this row of the tree, the nearest outer join around `r` keeps the side of `r` and has found
nothing on its other side. -/
inductive Stranded (row : Row) (r : Relation) : Plan → Prop
  /-- The join keeps its left side. -/
  | keptLeft {kind : JoinKind} {left right : Plan} {on : Option Plan} : kind.keepsLeft = true →
    r ∈ left.direct → (∀ s ∈ right.relations, row s = none) →
    Stranded row r (join kind left right on)
  /-- The join keeps its right side. -/
  | keptRight {kind : JoinKind} {left right : Plan} {on : Option Plan} : kind.keepsRight = true →
    r ∈ right.direct → (∀ s ∈ left.relations, row s = none) →
    Stranded row r (join kind left right on)
  /-- The relation is stranded in the left side. -/
  | left {kind : JoinKind} {left right : Plan} {on : Option Plan} : Stranded row r left →
    Stranded row r (join kind left right on)
  /-- The relation is stranded in the right side. -/
  | right {kind : JoinKind} {left right : Plan} {on : Option Plan} : Stranded row r right →
    Stranded row r (join kind left right on)
  /-- The relation is stranded in a tree in parentheses. -/
  | group {p : Plan} : Stranded row r p → Stranded row r (group p)

/-- Every outer join of the tree asks, in its `ON`, for the tenant's records of its direct
relations. -/
def Guarded (g : Partitioning) (t : Tenant) : Plan → Prop
  | join kind l r on => l.Guarded g t ∧ r.Guarded g t ∧ (kind.isOuter = true →
      ∀ s ∈ l.direct ++ r.direct, ∀ p, g.of? s.table = some p →
        p.keyCondition s t ∈ on.toList.flatMap conjuncts)
  | group p => p.Guarded g t
  | _ => True

variable {g : Partitioning} {t : Tenant} {d : Database} {atom : Plan → Row → Bool}

/-! ### The rows of a guarded tree -/

/-- A row of a tree has records of its relations only. -/
theorem eq_none_of_mem_rows {p : Plan} {row : Row} (h : row ∈ p.rows d atom) {r : Relation}
    (hr : r ∉ p.relations) : row r = none := by
  induction p using rows.induct generalizing row with
  | case1 name =>
    obtain ⟨record, _, rfl⟩ := List.mem_map.1 h
    simp_all [Row.single, relations, relation?]
  | case2 name label =>
    obtain ⟨record, _, rfl⟩ := List.mem_map.1 h
    simp_all [Row.single, relations, relation?]
  | case3 p ih => exact ih h hr
  | case4 kind left right on ihl ihr =>
    rw [relations, List.mem_append, not_or] at hr
    rw [rows, JoinKind.mem_joined] at h
    rcases h with ⟨a, ha, b, hb, -, rfl⟩ | ⟨-, h, -⟩ | ⟨-, h, -⟩
    · rw [Row.merge_of_left (ihr hb hr.2), ihl ha hr.1]
    · exact ihl h hr.1
    · exact ihr h hr.2
  | case5 p => simp_all [rows]

/-- What a row says of the relations of a tree decides where they are stranded. -/
theorem Stranded.congr {p : Plan} {row row' : Row} {r : Relation}
    (h : ∀ s ∈ p.relations, row' s = row s) (hs : p.Stranded row r) : p.Stranded row' r := by
  induction hs with
  | keptLeft hkeeps hdirect hnone =>
    rw [relations, List.forall_mem_append] at h
    exact .keptLeft hkeeps hdirect fun s hs => (h.2 s hs).trans (hnone s hs)
  | keptRight hkeeps hdirect hnone =>
    rw [relations, List.forall_mem_append] at h
    exact .keptRight hkeeps hdirect fun s hs => (h.1 s hs).trans (hnone s hs)
  | left _ ih =>
    rw [relations, List.forall_mem_append] at h
    exact .left (ih h.1)
  | right _ ih =>
    rw [relations, List.forall_mem_append] at h
    exact .right (ih h.2)
  | group _ ih => exact .group (ih h)

theorem direct_subset_relations (p : Plan) : p.direct ⊆ p.relations := by
  induction p using relations.induct with
  | case1 kind left right on ihl ihr =>
    rw [direct, relations]
    split
    · exact List.nil_subset _
    · exact List.append_subset.2 ⟨List.subset_append_of_subset_left _ ihl,
        List.subset_append_of_subset_right _ ihr⟩
  | case2 p ih => exact ih
  | case3 p hjoin hgroup =>
    cases p with
    | join => exact (hjoin _ _ _ _ rfl).elim
    | group => exact (hgroup _ rfl).elim
    | _ => exact List.Subset.refl _

/-- A relation that an outer join of the tree encloses has no record in the row, or the tenant's, or
it is stranded. -/
def Confined (g : Partitioning) (t : Tenant) (row : Row) (p : Plan) : Prop :=
  ∀ r ∈ p.relations, r ∉ p.direct → row r = none ∨ row.Owned g t [r] ∨ p.Stranded row r

theorem owned_congr {row row' : Row} {r : Relation} (h : row' r = row r)
    (ho : row.Owned g t [r]) : row'.Owned g t [r] := by
  intro s hs p hp
  obtain rfl : s = r := by simpa using hs
  have hvalue : row'.value (s.column p.column) = row.value (s.column p.column) := by
    simp only [Row.value, Relation.column, h]
  rw [hvalue, ho s hs p hp]

theorem Confined.congr {p : Plan} {row row' : Row} (h : ∀ s ∈ p.relations, row' s = row s)
    (hc : p.Confined g t row) : p.Confined g t row' := by
  intro r hr hd
  rcases hc r hr hd with hnone | howned | hstranded
  · exact .inl ((h r hr).trans hnone)
  · exact .inr (.inl (owned_congr (h r hr) howned))
  · exact .inr (.inr (hstranded.congr h))

theorem owned_of_guarded {kind : JoinKind} {l r : Plan} {on : Option Plan}
    (h : (join kind l r on).Guarded g t) (hkind : kind.isOuter = true) {row : Row}
    (hon : on.toList.all (·.holds atom row) = true) {s : Relation}
    (hs : s ∈ l.direct ++ r.direct) : row.Owned g t [s] := by
  intro s' hs' p hp
  obtain rfl : s' = s := by simpa using hs'
  have hconjunct := h.2.2 hkind s' hs p hp
  rw [List.all_eq_true, forall_holds_iff] at hon
  simpa [Partition.keyCondition, holds] using hon _ hconjunct

/-- A relation that is direct on a side of an outer join has no record in a row of the join, or the
tenant's, or it is stranded. -/
theorem confined_direct {kind : JoinKind} {left right : Plan} {on : Option Plan}
    (hguarded : (join kind left right on).Guarded g t)
    (hnodup : (join kind left right on).relations.Nodup) (hkind : kind.isOuter = true) {row : Row}
    (h : row ∈ (join kind left right on).rows d atom) {s : Relation}
    (hs : s ∈ left.direct ++ right.direct) :
    row s = none ∨ row.Owned g t [s] ∨ (join kind left right on).Stranded row s := by
  obtain ⟨-, -, hdisjoint⟩ := List.nodup_append.1 hnodup
  rw [rows, JoinKind.mem_joined] at h
  rcases h with ⟨a, -, b, -, hon, rfl⟩ | ⟨hkeeps, ha, -⟩ | ⟨hkeeps, hb, -⟩
  · -- A match satisfies the `ON`, which asks for the tenant's record.
    exact .inr (.inl (owned_of_guarded hguarded hkind hon hs))
  · -- A row of the left side that matches nothing has no records of the right side.
    have hright : ∀ s ∈ right.relations, row s = none := fun s hr =>
      eq_none_of_mem_rows ha fun hl => hdisjoint s hl s hr rfl
    rcases List.mem_append.1 hs with hs | hs
    · exact .inr (.inr (.keptLeft hkeeps hs hright))
    · exact .inl (hright s (direct_subset_relations right hs))
  · have hleft : ∀ s ∈ left.relations, row s = none := fun s hl =>
      eq_none_of_mem_rows hb fun hr => hdisjoint s hl s hr rfl
    rcases List.mem_append.1 hs with hs | hs
    · exact .inl (hleft s (direct_subset_relations left hs))
    · exact .inr (.inr (.keptRight hkeeps hs hleft))

/-- If the rows of both sides are confined, so are those of a join. -/
theorem confined_sides {kind : JoinKind} {left right : Plan} {on : Option Plan}
    (hnodup : (join kind left right on).relations.Nodup)
    (hl : ∀ row ∈ left.rows d atom, left.Confined g t row)
    (hr : ∀ row ∈ right.rows d atom, right.Confined g t row) {row : Row}
    (h : row ∈ (join kind left right on).rows d atom) :
    left.Confined g t row ∧ right.Confined g t row := by
  obtain ⟨-, -, hdisjoint⟩ := List.nodup_append.1 hnodup
  have hnotr : ∀ {s}, s ∈ left.relations → s ∉ right.relations := fun hl hr =>
    hdisjoint _ hl _ hr rfl
  have hnotl : ∀ {s}, s ∈ right.relations → s ∉ left.relations := fun hr hl =>
    hdisjoint _ hl _ hr rfl
  rw [rows, JoinKind.mem_joined] at h
  rcases h with ⟨a, ha, b, hb, -, rfl⟩ | ⟨-, ha, -⟩ | ⟨-, hb, -⟩
  · -- Merging keeps the records of both sides, since they share no relation.
    have hleft : ∀ s ∈ left.relations, a.merge b s = a s := fun s hs =>
      Row.merge_of_left (eq_none_of_mem_rows hb (hnotr hs))
    have hright : ∀ s ∈ right.relations, a.merge b s = b s := fun s hs =>
      Row.merge_of_right (eq_none_of_mem_rows ha (hnotl hs))
    exact ⟨(hl a ha).congr hleft, (hr b hb).congr hright⟩
  · exact ⟨hl row ha, fun s hs _ => .inl (eq_none_of_mem_rows ha (hnotl hs))⟩
  · exact ⟨fun s hs _ => .inl (eq_none_of_mem_rows hb (hnotr hs)), hr row hb⟩

/-- The rows of a guarded tree are confined. -/
theorem confined_of_guarded {p : Plan} (hguarded : p.Guarded g t) (hnodup : p.relations.Nodup)
    {row : Row} (h : row ∈ p.rows d atom) : p.Confined g t row := by
  induction p using rows.induct generalizing row with
  | case1 | case2 =>
    intro r hr hd
    exact absurd hr hd
  | case3 p ih =>
    intro r hr hd
    exact (ih hguarded hnodup h r hr hd).imp_right (.imp_right .group)
  | case4 kind left right on ihl ihr =>
    obtain ⟨hnodupl, hnodupr, -⟩ := List.nodup_append.1 hnodup
    obtain ⟨hleft, hright⟩ := confined_sides hnodup
      (fun _ h => ihl hguarded.1 hnodupl h)
      (fun _ h => ihr hguarded.2.1 hnodupr h) h
    intro r hr hd
    by_cases hdirect : r ∈ left.direct ++ right.direct
    · -- The relation is not direct in the join, so the join is an outer one.
      have hkind : kind.isOuter = true := by
        by_contra hkind
        exact hd (by rwa [direct, if_neg hkind])
      exact confined_direct hguarded hnodup hkind h hdirect
    · rw [List.mem_append, not_or] at hdirect
      rcases List.mem_append.1 hr with hr | hr
      · exact (hleft r hr hdirect.1).imp_right (.imp_right .left)
      · exact (hright r hr hdirect.2).imp_right (.imp_right .right)
  | case5 p => simp_all [rows]

/-! ### Restriction keeps the tree -/

/-- The same tree of joins, with other `ON` conditions. -/
inductive SameTree : Plan → Plan → Prop
  /-- A tree is the same as itself. -/
  | refl (p : Plan) : SameTree p p
  /-- Parentheses around the same tree. -/
  | group {p p' : Plan} : SameTree p p' → SameTree (group p) (group p')
  /-- The same trees joined. -/
  | join {kind : JoinKind} {l l' r r' : Plan} {on on' : Option Plan} : SameTree l l' →
    SameTree r r' → SameTree (join kind l r on) (join kind l' r' on')

theorem SameTree.trans {p p' p'' : Plan} (h : SameTree p p') (h' : SameTree p' p'') :
    SameTree p p'' := by
  induction h generalizing p'' with
  | refl => exact h'
  | group h ih =>
    cases h' with
    | refl => exact .group h
    | group h' => exact .group (ih h')
  | join hl hr ihl ihr =>
    cases h' with
    | refl => exact .join hl hr
    | join hl' hr' => exact .join (ihl hl') (ihr hr')

theorem SameTree.direct_eq {p p' : Plan} (h : SameTree p p') : p'.direct = p.direct := by
  induction h with
  | refl => rfl
  | group _ ih => exact ih
  | join _ _ ihl ihr => rw [direct, direct, ihl, ihr]

theorem SameTree.relations_eq {p p' : Plan} (h : SameTree p p') : p'.relations = p.relations := by
  induction h with
  | refl => rfl
  | group _ ih => exact ih
  | join _ _ ihl ihr => rw [relations, relations, ihl, ihr]

theorem SameTree.stranded {p p' : Plan} (h : SameTree p p') {row : Row} {r : Relation}
    (hs : p'.Stranded row r) : p.Stranded row r := by
  induction h with
  | refl => exact hs
  | group _ ih =>
    cases hs with
    | group hs => exact .group (ih hs)
  | join hl hr ihl ihr =>
    cases hs with
    | keptLeft hkeeps hdirect hnone =>
      exact .keptLeft hkeeps (hl.direct_eq ▸ hdirect) (hr.relations_eq ▸ hnone)
    | keptRight hkeeps hdirect hnone =>
      exact .keptRight hkeeps (hr.direct_eq ▸ hdirect) (hl.relations_eq ▸ hnone)
    | left hs => exact .left (ihl hs)
    | right hs => exact .right (ihr hs)

theorem sameTree_link (key : Column) (p : Plan) : SameTree p (p.link g key).value := by
  induction p using link.induct with
  | case1 kind l r on ihl ihr =>
    rw [value_link_join]
    exact .join ihl ihr
  | case2 p h =>
    rw [link_of_not_join g key h]
    exact .refl p

theorem sameTree_linkAll (keys : List Column) (p : Plan) :
    SameTree p (linkAll g keys p).value :=
  linkAll_induction (.refl p) fun key _ q hq => hq.trans (sameTree_link key q)

/-- Linking keeps what the `ON` of an outer join asks for. -/
theorem guarded_link (key : Column) {p : Plan} (h : p.Guarded g t) :
    (p.link g key).value.Guarded g t := by
  induction p using link.induct with
  | case1 kind l r on ihl ihr =>
    rw [value_link_join]
    refine ⟨ihl h.1, ihr h.2.1, fun hkind s hs p hp => ?_⟩
    rw [(sameTree_link key l).direct_eq, (sameTree_link key r).direct_eq] at hs
    exact ((adds_linkedOn g key _ _ on).mem_flatMap throughAnd_conjuncts _).2
      (.inl (h.2.2 hkind s hs p hp))
  | case2 p hp => rwa [link_of_not_join g key hp]

theorem guarded_linkAll (keys : List Column) {p : Plan} (h : p.Guarded g t) :
    (linkAll g keys p).value.Guarded g t :=
  linkAll_induction h fun key _ _ hq => guarded_link key hq

variable {kinds : JoinKind → Prop}

theorem JoinTree.sameTree_impose {p : Plan} (h : JoinTree kinds p) (e : Restriction) (n : Nat) :
    SameTree p (p.impose e n).value := by
  induction h generalizing n with
  | table | aliased => exact .refl _
  | group _ ih =>
    exact .group (ih n)
  | @join kind l r on _ _ _ _ ihl ihr =>
    rw [value_impose, imposeBelow, enforce]
    split
    · exact .join ((ihl _).trans (sameTree_linkAll _ _)) ((ihr _).trans (sameTree_linkAll _ _))
    · exact .join (ihl _) (ihr _)

/-- All that is read inside the node is outstanding in scope `n`. -/
def Due (e : Restriction) (n : Nat) (p : Plan) : Prop :=
  ∀ r ∈ (p.interior e.partitioning).seen, r ∈ e.outstanding n

/-- What is read inside an outer join. -/
theorem seen_interior_join {kind : JoinKind} {l r : Plan} {on : Option Plan}
    (hkind : kind.isOuter = true) (hl : JoinTree kinds l) (hr : JoinTree kinds r) :
    ((join kind l r on).interior g).seen = (l.direct ++ r.direct).filter (g.covers ·.table) := by
  simp only [interior, parts, hkind, if_true, surveyParts_cons, Findings.seen_append,
    seen_surveyParts_eq_nil g .condition .condition rfl, List.append_nil, List.filter_append]
  rw [← hl.seen_eq, ← hr.seen_eq]
  rfl

/-- A tree in which all that is read is outstanding is guarded once the tenant's conditions are
imposed. -/
theorem JoinTree.guarded_impose {p : Plan} (h : JoinTree kinds p) {e : Restriction}
    (ht : e.access.tenant = some t) (n : Nat) (hdue : Numbered (Due e) n p.scopeNodes) :
    (p.impose e n).value.Guarded e.partitioning t := by
  induction h generalizing n with
  | table | aliased => trivial
  | @group p _ ih =>
    refine ih n ?_
    rw [scopeNodes_eq] at hdue
    simpa [owner?, parts] using hdue
  | @join kind l r on _ hl hr _ ihl ihr =>
    rw [numbered_scopeNodes, parts, numbered_cons_parts, numbered_cons_parts] at hdue
    obtain ⟨hself, hduel, hduer, -⟩ := hdue
    rw [value_impose, imposeBelow, enforce]
    cases hkind : kind.isOuter with
    | false =>
      simp only [owner?, hkind, Bool.false_eq_true, if_false, Option.toList_none, List.length_nil,
        Nat.add_zero] at hduel hduer ⊢
      exact ⟨ihl n hduel, ihr _ hduer, fun h => absurd h (by simp [hkind])⟩
    | true =>
      simp only [owner?, hkind, if_true, Option.toList_some, List.length_singleton] at hduel hduer ⊢
      -- The conditions for what the join reads are due in its own scope, and go into its `ON`.
      refine ⟨guarded_linkAll _ (ihl _ hduel), guarded_linkAll _ (ihr _ hduer),
        fun _ s hs p hp => ?_⟩
      rw [((hl.sameTree_impose e _).trans (sameTree_linkAll _ _)).direct_eq,
        ((hr.sameTree_impose e _).trans (sameTree_linkAll _ _)).direct_eq] at hs
      have hseen : s ∈ ((Plan.join kind l r on).interior e.partitioning).seen := by
        rw [seen_interior_join hkind hl hr, List.mem_filter]
        exact ⟨hs, by simp [Partitioning.covers, hp]⟩
      have hcondition : p.keyCondition s t ∈ e.keyConditions n :=
        List.mem_filterMap.2 ⟨s, hself (by simp [owner?, hkind]) s hseen, by simp [hp, ht]⟩
      refine ((adds_addOn _ _).mem_flatMap throughAnd_conjuncts _).2 (.inr ?_)
      exact List.mem_flatMap.2 ⟨_, hcondition, by simp [Partition.keyCondition, conjuncts]⟩

/-! ### The restricted query -/

theorem numbered_due {p : Plan} (h : p.Unmarked g) (access : Access) :
    Numbered (Due (due g access p)) 0 p.scopeNodes :=
  numbered_of_getElem? fun n q hq r hr => by
    rw [Nat.zero_add]
    exact (h.mem_outstandingAt hq r).2 hr

/-- **What a restricted query shows of other tenants.** In every row of the restricted query, a
tenant relation has no record, or the tenant's, or it is stranded: it stands on a side that its
nearest outer join keeps, and this join has found nothing on its whole other side. -/
theorem restrict_outer_joins {q : Query Plan} (hsource : ∀ s ∈ q.source, JoinTree (fun _ => True) s)
    (hnodup : q.relations.Nodup) (hwheres : ∀ c ∈ q.wheres, c.Simple)
    (hunmarked : (select q).Unmarked g) :
    ∃ q', ((select q).restrict g (Access.ofTenant t)).value = .ok (select q') ∧
      ∀ (d : Database) (atom : Plan → Row → Bool), ∀ row ∈ q'.rows d atom, ∀ s ∈ q.source,
        ∀ r ∈ s.relations, row r = none ∨ row.Owned g t [r] ∨ s.Stranded row r := by
  set e := due g (Access.ofTenant t) (select q)
  obtain ⟨q', hq', hsource', hwheres'⟩ := value_impose_select e 0 hwheres
  refine ⟨q', by rw [value_restrict g rfl, hq'], fun d atom row hrow s hs r hr => ?_⟩
  have htree := hsource s hs
  obtain hs : q.source = some s := hs
  have hdue := numbered_due hunmarked (Access.ofTenant t)
  rw [numbered_scopeNodes, parts, hs] at hdue
  simp only [owner?, Option.toList_some, List.map_singleton, List.length_singleton,
    List.cons_append, numbered_cons_parts] at hdue
  obtain ⟨hself, hdue, -⟩ := hdue
  -- The restricted source is the same tree and guarded.
  have hsame := (htree.sameTree_impose e 1).trans
    (sameTree_linkAll (g := e.partitioning) (e.linkKeys 0) _)
  have hguarded := guarded_linkAll (e.linkKeys 0) (htree.guarded_impose (e := e) rfl 1 hdue)
  rw [Query.rows, hsource', hs, List.mem_filter] at hrow
  obtain ⟨hrow, hwhere⟩ := hrow
  simp only [imposeOption, Logged.value_bind, Logged.value_pure, Option.map_some,
    Option.elim_some] at hrow
  by_cases hd : r ∈ s.direct
  · -- The conditions in the `WHERE` deal with the relations that no outer join encloses,
    -- and the `ON` conditions with the others.
    refine .inr (.inl fun r' hr' p hp => ?_)
    obtain rfl : r' = r := by simpa using hr'
    rw [List.all_eq_true, hwheres', (adds_addWheres _ _).holds_iff] at hwhere
    have hseen : r' ∈ ((select q).interior g).seen := by
      rw [seen_interior_select, hs, Option.toList_some, List.flatMap_singleton, htree.seen_eq,
        List.mem_filter]
      exact ⟨hd, by simp [Partitioning.covers, hp]⟩
    exact (holds_keyConditions atom row (e := e) rfl 0).1 hwhere.2 r' (hself rfl r' hseen) p hp
  · rw [Query.relations, hs, Option.toList_some, List.flatMap_singleton] at hnodup
    have hconfined := confined_of_guarded hguarded (by rwa [hsame.relations_eq]) hrow r
      (by rwa [hsame.relations_eq]) (by rwa [hsame.direct_eq])
    exact hconfined.imp_right (.imp_right hsame.stranded)

/-- Orders, each with its items if it has some. -/
def ordersPerhapsWithItems : Query Plan where
  source := some (join .left (table "orders") (table "items")
    (some (equal (column ⟨⟨"orders", none⟩, "id"⟩) (column ⟨⟨"items", none⟩, "order_id"⟩))))

theorem joinTree_ordersPerhapsWithItems {s : Plan} (hs : s ∈ ordersPerhapsWithItems.source) :
    JoinTree (fun _ => True) s := by
  obtain rfl := Option.some.inj hs
  exact .join trivial (.table _) (.table _) (by decide)

/-- The law at a query with a left join. -/
theorem restrict_orders_perhaps_with_items :
    ∃ q', ((select ordersPerhapsWithItems).restrict shop (Access.ofTenant ⟨"t1"⟩)).value
        = .ok (select q') ∧
      ∀ (d : Database) (atom : Plan → Row → Bool), ∀ row ∈ q'.rows d atom,
        ∀ s ∈ ordersPerhapsWithItems.source, ∀ r ∈ s.relations,
          row r = none ∨ row.Owned shop ⟨"t1"⟩ [r] ∨ s.Stranded row r :=
  restrict_outer_joins (fun _ hs => joinTree_ordersPerhapsWithItems hs) (by decide) (by decide)
    (by decide)

/-! ### What a kept side shows -/

theorem SameTree.exists_join {kind : JoinKind} {l r p : Plan} {on : Option Plan}
    (h : SameTree (Plan.join kind l r on) p) :
    ∃ l' r' on', p = Plan.join kind l' r' on' ∧ SameTree l l' ∧ SameTree r r' := by
  cases h with
  | refl => exact ⟨l, r, on, rfl, .refl l, .refl r⟩
  | join hl hr => exact ⟨_, _, _, rfl, hl, hr⟩

theorem SameTree.eq_of_ofRelation {s : Relation} {p : Plan} (h : SameTree (ofRelation s) p) :
    p = ofRelation s := by
  obtain ⟨table, label⟩ := s
  cases label <;> cases h <;> rfl

theorem single_mem_rows (atom : Plan → Row → Bool) {s : Relation} {record : Record}
    (h : record ∈ d s.table) :
    Row.single s record ∈ (ofRelation s).rows d atom := by
  obtain ⟨table, label⟩ := s
  cases label <;> exact List.mem_map_of_mem h

/-- A row of a kept left side is in a row of the join, with or without a match. -/
theorem exists_mem_rows_of_keepsLeft {kind : JoinKind} (hkeeps : kind.keepsLeft = true)
    {l r : Plan} (on : Option Plan) {a : Row} (ha : a ∈ l.rows d atom) {s : Relation}
    (hs : s ∉ r.relations) :
    ∃ row ∈ (join kind l r on).rows d atom, row s = a s := by
  simp only [rows, JoinKind.mem_joined]
  by_cases hmatch : ∃ b ∈ r.rows d atom, on.toList.all (·.holds atom (a.merge b)) = true
  · obtain ⟨b, hb, hon⟩ := hmatch
    exact ⟨_, .inl ⟨a, ha, b, hb, hon, rfl⟩, Row.merge_of_left (eq_none_of_mem_rows hb hs)⟩
  · refine ⟨a, .inr (.inl ⟨hkeeps, ha, fun b hb => ?_⟩), rfl⟩
    exact Bool.eq_false_iff.2 fun hon => hmatch ⟨b, hb, hon⟩

/-- **A kept side shows all tenants.** Restricting a query does not keep any record of the table on
the kept left side of its outer join from the result, whichever tenant it belongs to. -/
theorem restrict_shows_kept_left {q : Query Plan} {kind : JoinKind} {s : Relation} {r : Plan}
    {on : Option Plan} (hsource : q.source = some (join kind (ofRelation s) r on))
    (htree : JoinTree (fun _ => True) (join kind (ofRelation s) r on))
    (hkeeps : kind.keepsLeft = true) (hs : s ∉ r.relations) (hwheres : q.wheres = [])
    (hunmarked : (select q).Unmarked g) :
    ∃ q', ((select q).restrict g (Access.ofTenant t)).value = .ok (select q') ∧
      ∀ (d : Database) (atom : Plan → Row → Bool), ∀ record ∈ d s.table,
        ∃ row ∈ q'.rows d atom, row s = some record := by
  set e := due g (Access.ofTenant t) (select q)
  obtain ⟨q', hq', hsource', hwheres'⟩ := value_impose_select e 0 (q := q) (by simp [hwheres])
  refine ⟨q', by rw [value_restrict g rfl, hq'], fun d atom record hrecord => ?_⟩
  have hkind : kind.isOuter = true := by
    cases kind <;> simp_all [JoinKind.keepsLeft, JoinKind.isOuter]
  -- The outer join encloses all that the query reads, so its `WHERE` stays empty.
  have hnone : e.outstanding 0 = [] := by
    refine List.eq_nil_iff_forall_not_mem.2 fun x hx => ?_
    rw [show e.outstanding 0 = Scope.outstandingAt ((select q).scopes g) 0 from rfl,
      hunmarked.mem_outstandingAt (q := select q) (by rw [scopeNodes_eq]; rfl),
      seen_interior_select, hsource, Option.toList_some, List.flatMap_singleton, htree.seen_eq,
      direct, if_pos hkind] at hx
    simp at hx
  have hwheres' : q'.wheres = [] := by
    rw [hwheres', Restriction.keyConditions, hnone, List.filterMap_nil, addWheres_nil, hwheres]
  have hsame := (htree.sameTree_impose e 1).trans
    (sameTree_linkAll (g := e.partitioning) (e.linkKeys 0) _)
  obtain ⟨l', r', on', hp, hl', hr'⟩ := hsame.exists_join
  rw [hl'.eq_of_ofRelation] at hp
  have hs' : s ∉ r'.relations := by rwa [hr'.relations_eq]
  obtain ⟨row, hrow, hrs⟩ :=
    exists_mem_rows_of_keepsLeft hkeeps on' (single_mem_rows atom hrecord) hs'
  refine ⟨row, ?_, by simp [hrs, Row.single]⟩
  rw [Query.rows, hsource', hsource, hwheres', List.mem_filter]
  refine ⟨?_, rfl⟩
  simp only [imposeOption, Logged.value_bind, Logged.value_pure, Option.map_some,
    Option.elim_some]
  rwa [hp]

/-- An order of another tenant that has no items is shown: the query has no nested query and nothing
that ties a relation to a tenant, and one of its restricted rows is not the tenant's. -/
theorem restrict_left_join_shows_other_tenant :
    (∀ s ∈ ordersPerhapsWithItems.source, JoinTree (fun _ => True) s) ∧
    ordersPerhapsWithItems.relations.Nodup ∧ (select ordersPerhapsWithItems).Unmarked shop ∧
    (∀ p ∈ (select ordersPerhapsWithItems).subnodes, p.isQuery = false) ∧
    ∃ q', ((select ordersPerhapsWithItems).restrict shop (Access.ofTenant ⟨"t1"⟩)).value
        = .ok (select q') ∧
      ∃ (d : Database) (atom : Plan → Row → Bool), ∃ row ∈ q'.rows d atom,
        ∃ r ∈ ordersPerhapsWithItems.relations, shop.covers r.table = true ∧
          row r ≠ none ∧ ¬ row.Owned shop ⟨"t1"⟩ [r] := by
  refine ⟨fun _ hs => joinTree_ordersPerhapsWithItems hs, by decide, by decide, by decide, ?_⟩
  obtain ⟨q', hq', hshows⟩ := restrict_shows_kept_left (g := shop) (t := ⟨"t1"⟩)
    (q := ordersPerhapsWithItems) (s := ⟨"orders", none⟩) rfl
    (joinTree_ordersPerhapsWithItems rfl) rfl (by decide) rfl (by decide)
  refine ⟨q', hq', fun _ => [fun _ => .text "t2"], fun _ _ => true, ?_⟩
  obtain ⟨row, hrow, hr⟩ := hshows (fun _ => [fun _ => .text "t2"]) (fun _ _ => true)
    (fun _ => .text "t2") (by simp)
  refine ⟨row, hrow, ⟨"orders", none⟩, by decide, by decide, by simp [hr], fun howned => ?_⟩
  have hvalue := howned ⟨"orders", none⟩ (by simp) ⟨"orders", "tenant_id", .text⟩ rfl
  simp [Row.value, Relation.column, hr, Partition.keyValue] at hvalue

end Plan

end Tenancy
