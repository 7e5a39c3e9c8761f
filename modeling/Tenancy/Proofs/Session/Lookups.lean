import Tenancy.Proofs.Restrict.Placement
import Tenancy.Proofs.Restrict.Settling
import Tenancy.Session

namespace Tenancy

/-!
# Lookups — what a session builds for the plan of a lookup

* `Lookup.openPartition?` — the partition of the table, unless its key is one of the columns;
* `outstandingAt_plan` — the table is all that is ever outstanding in the plan of a lookup;
* `Lookup.withKeys` — the plan of a lookup with conditions in front of its own;
* `value_build_plan` — what a session builds for a lookup, whatever the access is.
-/

namespace Lookup

open Plan (addWheres)

/-- The relation that a lookup reads. -/
def relation (k : Lookup) : Relation := ⟨k.table, none⟩

/-- How the table of a lookup is partitioned, unless the lookup asks for the partition key. -/
def openPartition? (g : Partitioning) (k : Lookup) : Option Partition :=
  (g.of? k.table).filter (·.column ∉ k.columns)

theorem openPartition?_eq_some_iff {g : Partitioning} {k : Lookup} {part : Partition} :
    k.openPartition? g = some part ↔ g.of? k.table = some part ∧ part.column ∉ k.columns := by
  rw [openPartition?, Option.filter_eq_some_iff, decide_eq_true_iff]

/-- The plan of a lookup with conditions in front of its own. -/
def withKeys (k : Lookup) (keys : List Plan) : Plan :=
  .select {
    projections := [.raw "*"]
    source := some (.table k.table)
    wheres := addWheres keys (conditions k.relation 0 k.columns)
    limit := some 1 }

theorem withKeys_nil (k : Lookup) : k.withKeys [] = k.plan := by
  rw [withKeys, Plan.addWheres_nil]
  rfl

/-! ### The scope of a lookup -/

section

variable (g : Partitioning) (k : Lookup)

/-- The conditions of a lookup tie its relation to a tenant exactly if they ask for its key. -/
theorem mem_pinned_conditions {r r' : Relation} {n : Nat} {cs : List String} :
    r' ∈ (conditions r n cs).flatMap (fun w => (w.survey g .condition).pinned) ↔
      r' = r ∧ ∃ part, g.of? r.table = some part ∧ part.column ∈ cs := by
  induction cs generalizing n with
  | nil => simp [conditions]
  | cons c cs ih =>
    have hhead : r' ∈ ((Plan.equal (.column (r.column c)) (.param (n + 1))).survey g
          .condition).pinned ↔ r' = r ∧ ∃ part, g.of? r.table = some part ∧ part.column = c := by
      simp only [Plan.survey, Findings.pinned_append, Findings.equality, Findings.reference]
      cases hpart : g.of? r.table with
      | none => simp [Reading.condition, Findings.isKey, Relation.column, hpart]
      | some part =>
        by_cases hc : part.column = c <;>
          simp [Reading.condition, Findings.isKey, Relation.column, hpart, hc]
    rw [conditions, List.flatMap_cons, List.mem_append, ih, hhead]
    constructor
    · rintro (⟨hr, part, hpart, hc⟩ | ⟨hr, part, hpart, hc⟩)
      · exact ⟨hr, part, hpart, hc ▸ List.mem_cons_self⟩
      · exact ⟨hr, part, hpart, List.mem_cons_of_mem _ hc⟩
    · rintro ⟨hr, part, hpart, hc⟩
      rcases List.mem_cons.1 hc with hc | hc
      · exact .inl ⟨hr, part, hpart, hc⟩
      · exact .inr ⟨hr, part, hpart, hc⟩

/-- Inside a lookup there is its table, and there are its conditions. -/
theorem interior_plan : k.plan.interior g = Findings.reference g .source k.relation
    ++ Findings.concat ((conditions k.relation 0 k.columns).map (Plan.survey g .condition)) := by
  simp [Plan.interior, Plan.surveyParts, plan, Plan.parts, Plan.survey, Role.reading, relation,
    Function.comp_def]

theorem seen_interior_plan :
    (k.plan.interior g).seen = if g.covers k.table then [k.relation] else [] := by
  have hconditions : (conditions k.relation 0 k.columns).flatMap
      (fun w => (w.survey g .condition).seen) = [] := by
    rw [List.flatMap_eq_nil_iff]
    exact fun w _ => Plan.seen_eq_nil rfl w
  have hsource : (Findings.reference g .source k.relation).seen
      = if g.covers k.table then [k.relation] else [] := by
    rw [Findings.reference, relation]
    cases g.covers k.table <;> rfl
  rw [interior_plan, Findings.seen_append, hsource, Findings.seen_concat, List.flatMap_map,
    hconditions, List.append_nil]

theorem mem_pinned_interior_plan {r : Relation} : r ∈ (k.plan.interior g).pinned ↔
    r = k.relation ∧ ∃ part, g.of? k.table = some part ∧ part.column ∈ k.columns := by
  have hsource : (Findings.reference g .source k.relation).pinned = [] := by
    rw [Findings.reference]
    split <;> rfl
  rw [interior_plan, Findings.pinned_append, hsource, List.nil_append, Findings.pinned_concat,
    List.flatMap_map]
  exact mem_pinned_conditions g

/-- The table of a lookup is all that its plan leaves open, and only if it is a tenant table and the
lookup does not ask for the partition key. -/
theorem leftOpen_plan :
    k.plan.leftOpen g [] = (k.openPartition? g).toList.map fun _ => k.relation := by
  have htied : ∀ r : Relation, decide (r ∉ (k.plan.interior g).pinned.eraseDups)
      = !decide (r = k.relation ∧ ∃ part, g.of? k.table = some part ∧ part.column ∈ k.columns) := by
    intro r
    rw [← decide_not]
    exact decide_eq_decide.2 (not_congr (List.mem_eraseDups.trans (mem_pinned_interior_plan g k)))
  simp only [Plan.leftOpen, htied, seen_interior_plan, openPartition?]
  cases hpart : g.of? k.table with
  | none => simp [Partitioning.covers, hpart]
  | some part =>
    have hcovers : g.covers k.table = true := by simp [Partitioning.covers, hpart]
    by_cases hcolumn : part.column ∈ k.columns <;>
      simp [hcovers, hcolumn, Plan.takesOver, plan, List.eraseDups_cons, Option.filter]

end

/-! ### What is built -/

/-- The tenant condition that the plan of a lookup is given, if any. -/
def keyFor? (k : Lookup) (g : Partitioning) (access : Access) : Option Plan :=
  if access.writeOnly then none
  else do
    let part ← k.openPartition? g
    let t ← access.tenant
    return part.keyCondition k.relation t

theorem keyFor?_eq_some_iff {k : Lookup} {g : Partitioning} {access : Access} {q : Plan} :
    k.keyFor? g access = some q ↔ access.writeOnly = false ∧ ∃ part t,
      k.openPartition? g = some part ∧ access.tenant = some t ∧
        q = part.keyCondition k.relation t := by
  rw [keyFor?]
  split
  · next hw => simp [hw]
  · next hw =>
    simp only [Option.bind_eq_bind, Option.bind_eq_some_iff, Option.pure_def, Option.some.injEq]
    constructor
    · rintro ⟨part, hpart, t, ht, rfl⟩
      exact ⟨by simpa using hw, part, t, hpart, ht, rfl⟩
    · rintro ⟨-, part, t, hpart, ht, rfl⟩
      exact ⟨part, hpart, t, ht, rfl⟩

theorem owners_conditions (r : Relation) (n : Nat) (cs : List String) :
    ∀ w ∈ conditions r n cs, w.owners = [] := by
  induction cs generalizing n with
  | nil => simp [conditions]
  | cons c cs ih =>
    intro w hw
    rcases List.mem_cons.1 hw with rfl | hw
    · rfl
    · exact ih (n + 1) w hw

/-- Nothing inside a lookup is restricted, only the lookup itself. -/
theorem settle_plan (g : Partitioning) (access : Access) (k : Lookup) :
    k.plan.settle g g access [] = k.plan.enforce ⟨g, access, fun _ => k.plan.leftOpen g []⟩ 0 := by
  have hparts : ∀ c ∈ k.plan.parts, c.2.owners = [] := by
    intro c hc
    simp only [plan, Plan.parts, Option.toList_some, Option.toList_none, List.map_cons,
      List.map_nil, List.append_nil, List.mem_append, List.mem_singleton, List.mem_map] at hc
    rcases hc with (rfl | rfl) | ⟨w, hw, rfl⟩
    · rfl
    · rfl
    · exact owners_conditions _ _ _ w hw
  have hsame : k.plan.mapParts (Plan.settle g g access (k.plan.tiedInside g []))
      = k.plan.mapParts fun c => c :=
    Plan.mapParts_congr fun c hc => Plan.settle_of_owners_eq_nil g g access _ (hparts c hc)
  rw [Plan.settle_eq, hsame, Plan.mapParts_id]

theorem tenantKeys_conditions (r : Relation) (n : Nat) (cs : List String) :
    (conditions r n cs).flatMap Plan.tenantKeys = [] := by
  induction cs generalizing n with
  | nil => rfl
  | cons c cs ih =>
    rw [conditions, List.flatMap_cons, ih, List.append_nil]
    rfl

/-- A lookup has no tenant conditions but those that it is given. -/
theorem tenantKeys_withKeys (k : Lookup) (keys : List Plan) :
    (k.withKeys keys).tenantKeys = keys.flatMap Plan.tenantKeys := by
  have hpicked : ∀ {p : Plan}, p.isLeaf = false →
      p.tenantKeys = p.parts.flatMap (·.2.tenantKeys) :=
    Plan.picksLeaves_isTenantKey.picked_eq
  have hwheres : (addWheres keys (conditions k.relation 0 k.columns)).flatMap Plan.tenantKeys
      = keys.flatMap Plan.tenantKeys
        ++ (conditions k.relation 0 k.columns).flatMap Plan.tenantKeys :=
    Plan.picksLeaves_isTenantKey.picksAside.throughAnd_picked.flatMap_addWheres keys _
  have hraw : (Plan.raw "*").tenantKeys = [] := rfl
  have htable : (Plan.table k.table).tenantKeys = [] := rfl
  rw [tenantKeys_conditions, List.append_nil] at hwheres
  rw [withKeys, hpicked rfl]
  simp [Plan.parts, List.flatMap_map, hraw, htable, hwheres]

end Lookup

namespace Session

open Lookup

/-- A session builds the plan of a lookup, whatever the access is. It is the plan itself with the
tenant condition of the lookup in front of its conditions. -/
theorem value_build_plan (s : Session) (access : Access) (k : Lookup) :
    (s.build access k.plan).value
      = .ok (k.withKeys (k.keyFor? s.partitioning access).toList) := by
  have hrestrict : s.build access k.plan = k.plan.restrict s.partitioning access := rfl
  rw [hrestrict]
  cases hw : access.writeOnly with
  | true =>
    rw [Plan.value_restrict_writeOnly _ hw, keyFor?, if_pos hw, Option.toList_none, withKeys_nil]
  | false =>
    set e : Restriction := ⟨s.partitioning, access, fun _ => k.plan.leftOpen s.partitioning []⟩
      with he
    have hsource : (Plan.linkAll e.partitioning (e.linkKeys 0) (.table k.table)).value
        = .table k.table :=
      Plan.linkAll_induction (motive := fun p => p = .table k.table) rfl fun _ _ p hp => by
        rw [hp]
        rfl
    have hkeys : e.keyConditions 0 = (k.keyFor? s.partitioning access).toList := by
      rw [Restriction.keyConditions, keyFor?, if_neg (by simp [hw]), he, leftOpen_plan]
      simp only [openPartition?]
      cases hpart : s.partitioning.of? k.table with
      | none => rfl
      | some part =>
        cases access.tenant <;> by_cases hcolumn : part.column ∈ k.columns <;>
          simp [hcolumn, relation, hpart, Option.filter]
    rw [Plan.value_restrict_eq_settle _ hw, settle_plan, ← he, withKeys, ← hkeys]
    simp only [plan, Plan.enforce, Option.map_some, hsource, relation]

end Session

end Tenancy
