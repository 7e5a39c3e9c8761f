import Tenancy.Proofs.Plan.Conjunctions
import Tenancy.Proofs.Plan.Passes
import Tenancy.Scope.Target

namespace Tenancy

/-!
# Targets — the tenant condition for what a mutation writes

* `Plan.guardTarget` — a mutation with the tenant condition for its target;
* `Plan.openTarget?` — the target of a mutation, if its conditions do not tie it to a tenant;
* `Plan.missingKey?`, `guardTarget_eq` — what is added is the condition for an open target;
* `value_restrictTarget`, `value_secure` — the passes that add it;
* `guardTarget_of_openTarget?_eq_none`, `openTarget?_guardTarget` — nothing is added for a target
  that is not open, and none is open once it is guarded for a tenant.
-/

namespace Plan

/-! ### Mutations -/

/-- The `WHERE` list of a mutation. -/
def mutationWheres : Plan → List Plan
  | update _ _ ws | delete _ ws => ws
  | _ => []

/-- The mutation with another `WHERE` list. -/
def withWheres (ws : List Plan) : Plan → Plan
  | update target assignments _ => update target assignments ws
  | delete target _ => delete target ws
  | p => p

@[simp] theorem withWheres_self (p : Plan) : p.withWheres p.mutationWheres = p := by
  cases p <;> rfl

theorem withWheres_of_target?_eq_none {p : Plan} (h : p.target? = none) (ws : List Plan) :
    p.withWheres ws = p := by
  cases p <;> first | rfl | simp [target?] at h

@[simp] theorem target?_withWheres (ws : List Plan) (p : Plan) :
    (p.withWheres ws).target? = p.target? := by
  cases p <;> rfl

theorem mutationWheres_withWheres {p : Plan} (h : p.target?.isSome) (ws : List Plan) :
    (p.withWheres ws).mutationWheres = ws := by
  cases p <;> first | rfl | simp [target?] at h

/-- A mutation owns no scope. -/
theorem owner?_of_target? {p : Plan} (h : p.target?.isSome) : p.owner? = none := by
  cases p <;> first | rfl | simp [target?] at h

theorem target?_mapParts (f : Plan → Plan) (p : Plan) :
    (p.mapParts f).target? = p.target?.map f := by
  cases p <;> rfl

theorem mutationWheres_mapParts (f : Plan → Plan) (p : Plan) :
    (p.mapParts f).mutationWheres = p.mutationWheres.map f := by
  cases p <;> rfl

theorem mapParts_withWheres (f : Plan → Plan) (ws : List Plan) (p : Plan) :
    (p.withWheres ws).mapParts f = (p.mapParts f).withWheres (ws.map f) := by
  cases p <;> rfl

/-! ### Open targets -/

/-- Does the condition by itself tie the relation to a tenant? -/
def tiesKey (r : Relation) (part : Partition) : Plan → Bool
  | tenantKey k _ => decide (k.relation = r)
  | equal (column c) _ => decide (c = r.column part.column)
  | _ => false

theorem holdsKey_eq (r : Relation) (part : Partition) (p : Plan) :
    holdsKey r part p = p.conjuncts.any (tiesKey r part) := rfl

theorem KeepsNames.tiesKey_mapParts {f : Plan → Plan} (hf : KeepsNames f) (r : Relation)
    (part : Partition) (p : Plan) : tiesKey r part (p.mapParts f) = tiesKey r part p := by
  cases p with
  | equal left right =>
    have hleft : ∀ l right right' : Plan,
        tiesKey r part (equal l right) = tiesKey r part (equal l right') := by
      intro l _ _
      cases l <;> rfl
    rw [mapParts, hleft _ (f right) right]
    refine hf.apply_eq (φ := fun l => tiesKey r part (equal l right)) (b := false)
      (fun q hq => ?_) left
    cases q <;> first | rfl | simp [Plan.isName] at hq
  | _ => rfl

theorem holdsKey_keyCondition (r : Relation) (part : Partition) (t : Tenant) :
    holdsKey r part (part.keyCondition r t) = true := by
  simp [holdsKey_eq, Partition.keyCondition, conjuncts, tiesKey, Relation.column]

/-- The tenant relation that a mutation writes to and the partition of its table, if its target is a
tenant table, which may have an alias. -/
def guarded? (g : Partitioning) (p : Plan) : Option (Relation × Partition) := do
  let r ← (← p.target?).relation?
  return (r, ← g.of? r.table)

/-- The same relation is guarded if the target is mapped and refers to the same one. -/
theorem guarded?_congr {f : Plan → Plan} (hf : ∀ p, (f p).relation? = p.relation?) {p q : Plan}
    (h : q.target? = p.target?.map f) (g : Partitioning) : q.guarded? g = p.guarded? g := by
  rw [guarded?, guarded?, h]
  cases p.target? with
  | none => rfl
  | some target => simp [hf]

/-- What is guarded, if no condition of the mutation ties the relation to a tenant. -/
def openTarget? (g : Partitioning) (p : Plan) : Option (Relation × Partition) :=
  (p.guarded? g).filter fun x => !p.mutationWheres.any (holdsKey x.1 x.2)

theorem of?_of_guarded? {g : Partitioning} {p : Plan} {x : Relation × Partition}
    (h : p.guarded? g = some x) : g.of? x.1.table = some x.2 := by
  simp only [guarded?, Option.bind_eq_bind, Option.bind_eq_some_iff, Option.pure_def,
    Option.some.injEq] at h
  obtain ⟨target, -, r, -, part, hpart, rfl⟩ := h
  exact hpart

theorem of?_of_openTarget? {g : Partitioning} {p : Plan} {x : Relation × Partition}
    (h : p.openTarget? g = some x) : g.of? x.1.table = some x.2 :=
  of?_of_guarded? (Option.filter_eq_some_iff.1 h).1

/-- No target is open exactly if the conditions of the mutation tie what is guarded. -/
theorem openTarget?_eq_none_iff {g : Partitioning} {p : Plan} : p.openTarget? g = none ↔
    ∀ x, p.guarded? g = some x → p.mutationWheres.any (holdsKey x.1 x.2) = true := by
  simp only [openTarget?, Option.filter_eq_none_iff, Bool.not_eq_true', Bool.not_eq_false]

/-- The tenant condition that is missing for the target of a mutation. -/
def missingKey? (g : Partitioning) (access : Access) (p : Plan) : Option Plan := do
  if access.writeOnly then none
  else
    let (r, part) ← p.openTarget? g
    return part.keyCondition r (← access.tenant)

/-- What is missing is the condition that ties a tenant relation to the tenant. -/
theorem exists_keyCondition_of_missingKey? {g : Partitioning} {access : Access} {p c : Plan}
    (h : p.missingKey? g access = some c) : ∃ (r : Relation) (part : Partition) (t : Tenant),
      g.of? r.table = some part ∧ access.tenant = some t ∧ c = part.keyCondition r t := by
  cases hw : access.writeOnly <;> cases hopen : p.openTarget? g <;> cases ht : access.tenant <;>
    simp [missingKey?, hw, hopen, ht] at h
  next x t => exact ⟨x.1, x.2, t, of?_of_openTarget? hopen, rfl, h.symm⟩

theorem isSynthetic_missingKey? (g : Partitioning) (access : Access) (p : Plan) :
    ∀ c ∈ (p.missingKey? g access).toList, c.isSynthetic = true := by
  intro c hc
  obtain ⟨_, _, _, -, -, rfl⟩ := exists_keyCondition_of_missingKey? (Option.mem_toList.1 hc)
  rfl

/-! ### Guarding -/

/-- The plan with the tenant condition for its target, if it is a mutation of a tenant table. -/
def guardTarget (g : Partitioning) (access : Access) : Plan → Plan
  | update target assignments ws =>
    match target.relation? with
    | none => update target assignments ws
    | some r => update target assignments (addTargetKey g access r.table r ws).value
  | delete target ws =>
    match target.relation? with
    | none => delete target ws
    | some r => delete target (addTargetKey g access r.table r ws).value
  | p => p

theorem value_addTargetKey (g : Partitioning) (access : Access) {p target : Plan}
    {r : Relation} (htarget : p.target? = some target) (hr : target.relation? = some r) :
    (addTargetKey g access r.table r p.mutationWheres).value
      = p.mutationWheres ++ (p.missingKey? g access).toList := by
  have hguarded : p.guarded? g = (g.of? r.table).map (r, ·) := by
    cases hpart : g.of? r.table <;> simp [guarded?, htarget, hr, hpart]
  cases hw : access.writeOnly with
  | true => simp [addTargetKey, missingKey?, hw]
  | false =>
    cases hpart : g.of? r.table with
    | none => simp [addTargetKey, missingKey?, openTarget?, hguarded, hw, hpart]
    | some part =>
      cases ht : access.tenant with
      | none => simp [addTargetKey, missingKey?, hw, hpart, ht]
      | some t =>
        cases hany : p.mutationWheres.any (holdsKey r part) <;>
          simp [addTargetKey, missingKey?, openTarget?, Option.filter, hguarded, hw, hpart, ht,
            hany, -List.any_eq_true]

/-- What is added is the condition that is missing, behind the `WHERE` list. -/
theorem guardTarget_eq (g : Partitioning) (access : Access) (p : Plan) :
    p.guardTarget g access
      = p.withWheres (p.mutationWheres ++ (p.missingKey? g access).toList) := by
  have hnone : ∀ {target : Plan}, p.target? = some target → target.relation? = none →
      p.mutationWheres ++ (p.missingKey? g access).toList = p.mutationWheres := by
    intro target htarget hr
    simp [missingKey?, openTarget?, guarded?, htarget, hr]
  have hsome : ∀ {target : Plan} {r : Relation}, p.target? = some target →
      target.relation? = some r → (addTargetKey g access r.table r p.mutationWheres).value
        = p.mutationWheres ++ (p.missingKey? g access).toList :=
    value_addTargetKey g access
  cases p with
  | update target assignments ws =>
    rw [guardTarget]
    cases hr : target.relation? with
    | none => exact congrArg (update target assignments) (hnone rfl hr).symm
    | some r => exact congrArg (update target assignments) (hsome rfl hr)
  | delete target ws =>
    rw [guardTarget]
    cases hr : target.relation? with
    | none => exact congrArg (delete target) (hnone rfl hr).symm
    | some r => exact congrArg (delete target) (hsome rfl hr)
  | _ => rfl

/-- Below the root the condition that is missing is the one node that is new. -/
theorem subnodes_guardTarget (g : Partitioning) (access : Access) (p : Plan) :
    (p.guardTarget g access).subnodes = p.subnodes ++ (p.missingKey? g access).toList := by
  have hkeys : (p.missingKey? g access).toList.flatMap nodes = (p.missingKey? g access).toList := by
    cases hmissing : p.missingKey? g access with
    | none => rfl
    | some c =>
      obtain ⟨_, _, _, -, -, rfl⟩ := exists_keyCondition_of_missingKey? hmissing
      rfl
  rw [subnodes_eq, subnodes_eq, guardTarget_eq]
  cases p with
  | update | delete => simp [withWheres, mutationWheres, parts, List.flatMap_map, hkeys]
  | _ => simp [withWheres, missingKey?, openTarget?, guarded?, target?]

theorem guardTarget_of_missingKey?_eq_none {g : Partitioning} {access : Access} {p : Plan}
    (h : p.missingKey? g access = none) : p.guardTarget g access = p := by
  rw [guardTarget_eq, h, Option.toList_none, List.append_nil, withWheres_self]

/-- Nothing is added in write-only mode. -/
theorem guardTarget_of_writeOnly (g : Partitioning) {access : Access}
    (h : access.writeOnly = true) (p : Plan) : p.guardTarget g access = p :=
  guardTarget_of_missingKey?_eq_none (by simp [missingKey?, h])

/-- Nothing is added for a target that is not open, whatever the access is. -/
theorem guardTarget_of_openTarget?_eq_none {g : Partitioning} {p : Plan}
    (h : p.openTarget? g = none) (access : Access) : p.guardTarget g access = p :=
  guardTarget_of_missingKey?_eq_none (by simp [missingKey?, h])

theorem guarded?_guardTarget (g : Partitioning) (access : Access) (p : Plan) :
    (p.guardTarget g access).guarded? g = p.guarded? g := by
  rw [guarded?, guarded?, guardTarget_eq, target?_withWheres]

/-- Once it is guarded for a tenant, no target is open. -/
theorem openTarget?_guardTarget (g : Partitioning) {access : Access} {t : Tenant}
    (ht : access.tenant = some t) (hw : access.writeOnly = false) (p : Plan) :
    (p.guardTarget g access).openTarget? g = none := by
  cases hopen : p.openTarget? g with
  | none => rw [guardTarget_of_openTarget?_eq_none hopen, hopen]
  | some x =>
    obtain ⟨r, part⟩ := x
    have hguarded : p.guarded? g = some (r, part) := (Option.filter_eq_some_iff.1 hopen).1
    have htarget : p.target?.isSome := by
      cases htarget : p.target? with
      | none => simp [guarded?, htarget] at hguarded
      | some target => rfl
    have hmissing : p.missingKey? g access = some (part.keyCondition r t) := by
      simp [missingKey?, hw, hopen, ht]
    have hwheres : (p.guardTarget g access).mutationWheres
        = p.mutationWheres ++ [part.keyCondition r t] := by
      rw [guardTarget_eq, mutationWheres_withWheres htarget, hmissing, Option.toList_some]
    rw [openTarget?, guarded?_guardTarget, hguarded, hwheres]
    simp [Option.filter, holdsKey_keyCondition]

/-! ### Passes that guard targets -/

/-- Restricting the target of a mutation adds the condition that is missing. -/
theorem value_restrictTarget (g : Partitioning) (access : Access) {p target : Plan} {r : Relation}
    (htarget : p.target? = some target) (hr : target.relation? = some r) :
    (p.restrictTarget g access r.table).value = .ok (p.guardTarget g access) := by
  have hrelation : targetRelation target r.table = .ok r := by simp [targetRelation, hr]
  cases p with
  | update t as ws =>
    obtain rfl : t = target := Option.some.inj htarget
    simp [restrictTarget, guardTarget, hrelation, hr]
  | delete t ws =>
    obtain rfl : t = target := Option.some.inj htarget
    simp [restrictTarget, guardTarget, hrelation, hr]
  | _ => simp [target?] at htarget

/-- A mutation is restricted like any plan, once the condition for its target has been added. -/
theorem value_secure (g : Partitioning) (access : Access) (p : Plan) :
    (p.secure g access).value = ((p.guardTarget g access).restrict g access).value := by
  have hunguarded : p.guarded? g = none → p.guardTarget g access = p := fun h =>
    guardTarget_of_openTarget?_eq_none (by rw [openTarget?, h, Option.filter_none]) access
  cases htarget : p.target? with
  | none =>
    rw [hunguarded (by simp [guarded?, htarget])]
    simp [secure, htarget]
  | some target =>
    cases hr : target.relation? with
    | none =>
      rw [hunguarded (by simp [guarded?, htarget, hr])]
      simp [secure, htarget, hr]
    | some r => simp [secure, htarget, hr, value_restrictTarget g access htarget hr]

end Plan

end Tenancy
