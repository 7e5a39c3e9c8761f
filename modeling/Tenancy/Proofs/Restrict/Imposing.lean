import Tenancy.Proofs.Plan.Passes
import Tenancy.Proofs.Scope.Links
import Tenancy.Proofs.Scope.Numbering

namespace Tenancy

/-!
# Imposing — a restriction adds something at scope nodes and nowhere else

* `Plan.imposeParts` — imposing on the parts of a node, each with its number;
* `Plan.imposeBelow` — the node with these parts;
* `Plan.enforce` — what is added at one scope node once its parts are done;
* `value_impose` — imposing is imposing below the node and then enforcing at it.

With these a law about imposing needs a case for a `SELECT` and one for an outer join, and the rest
is the induction over parts.
-/

namespace Plan

/-- Imposing on parts, one after another. -/
def imposeParts (e : Restriction) (n : Nat) : List (Role × Plan) → List (Role × Plan)
  | [] => []
  | (ρ, p) :: cs => (ρ, (p.impose e n).value) :: imposeParts e (n + p.owners.length) cs

/-- What is added at one scope node, which has number `n`. -/
def enforce (e : Restriction) (n : Nat) : Plan → Plan
  | select q => select { q with
      source := q.source.map fun s => (linkAll e.partitioning (e.linkKeys n) s).value
      wheres := addWheres (e.keyConditions n) q.wheres }
  | join kind l r on =>
    if kind.isOuter then
      join kind (linkAll e.partitioning (e.linkKeys n) l).value
        (linkAll e.partitioning (e.linkKeys n) r).value (addOn (e.keyConditions n) on)
    else join kind l r on
  | p => p

/-- Imposing on the parts of a node and not on the node itself. -/
def imposeBelow (e : Restriction) (n : Nat) : Plan → Plan
  | select ⟨ps, source, ws, gs, vs, having, os, limit, offset⟩ =>
    let n₁ := n + 1
    let n₂ := n₁ + (ownersOption source).length
    let n₃ := n₂ + (ownersAll ps).length
    let n₄ := n₃ + (ownersAll ws).length
    let n₅ := n₄ + (ownersAll gs).length
    let n₆ := n₅ + (ownersAll vs).length
    let n₇ := n₆ + (ownersOption having).length
    select ⟨(imposeAll e n₂ ps).value, (imposeOption e n₁ source).value, (imposeAll e n₃ ws).value,
      (imposeAll e n₄ gs).value, (imposeAll e n₅ vs).value, (imposeOption e n₆ having).value,
      (imposeAll e n₇ os).value, limit, offset⟩
  | join kind l r on =>
    let n₁ := if kind.isOuter then n + 1 else n
    let n₂ := n₁ + l.owners.length
    let n₃ := n₂ + r.owners.length
    join kind (l.impose e n₁).value (r.impose e n₂).value (imposeOption e n₃ on).value
  -- No other node owns a scope.
  | p => (p.impose e n).value

variable (e : Restriction)

/-! ### Lists of parts -/

theorem imposeParts_append (n : Nat) (cs ds : List (Role × Plan)) :
    imposeParts e n (cs ++ ds)
      = imposeParts e n cs ++ imposeParts e (n + (cs.flatMap (·.2.owners)).length) ds := by
  induction cs generalizing n with
  | nil => simp [imposeParts]
  | cons c cs ih =>
    rw [List.cons_append, imposeParts, ih, imposeParts, List.flatMap_cons, List.length_append,
      Nat.add_assoc, List.cons_append]

theorem imposeParts_map (ρ : Role) (n : Nat) (ps : List Plan) :
    imposeParts e n (ps.map (ρ, ·)) = (imposeAll e n ps).value.map (ρ, ·) := by
  induction ps generalizing n with
  | nil => rfl
  | cons p ps ih => simp [imposeParts, imposeAll, ih]

theorem value_imposeAll_toList (n : Nat) (p : Option Plan) :
    (imposeAll e n p.toList).value = (imposeOption e n p).value.toList := by
  cases p <;> rfl

theorem imposeParts_assignments (n : Nat) (ps : List (String × Plan)) :
    imposeParts e n (ps.map fun a => (.value, a.2))
      = (imposeAssignments e n ps).value.map fun a => (.value, a.2) := by
  induction ps generalizing n with
  | nil => rfl
  | cons p ps ih => simp [imposeParts, imposeAssignments, ih]

theorem length_imposeAll (n : Nat) (ps : List Plan) :
    (imposeAll e n ps).value.length = ps.length := by
  induction ps generalizing n with
  | nil => rfl
  | cons p ps ih => simp [imposeAll, ih]

/-! ### One node -/

/-- Imposing is imposing below the node and then enforcing at it. -/
theorem value_impose (n : Nat) (p : Plan) :
    (p.impose e n).value = (p.imposeBelow e n).enforce e n := by
  cases p with
  | select q =>
    obtain ⟨ps, source, ws, gs, vs, having, os, limit, offset⟩ := q
    simp only [impose, stamp, Logged.value_bind, Logged.value_mapEntries, Logged.value_pure,
      imposeBelow, enforce]
    cases (imposeOption e (n + 1) source).value <;> rfl
  | join kind l r on =>
    by_cases h : kind.isOuter <;> simp [impose, imposeBelow, enforce, stamp, h, value_linkSides]
  | _ => rfl

/-- Only scope nodes are enforced. -/
theorem enforce_of_not_owner (n : Nat) {p : Plan} (h : p.owner? = none) : p.enforce e n = p := by
  cases p with
  | select q => simp [owner?] at h
  | join kind l r on =>
    have hkind : kind.isOuter = false := by
      rw [← isSome_owner?_join kind l r on, h, Option.isSome_none]
    rw [enforce, hkind, if_neg Bool.false_ne_true]
  | _ => rfl

/-- The node `p'` is the node `p` with other parts. -/
structure SameNode (p p' : Plan) : Prop where
  owner?_eq : p'.owner? = p.owner?
  mention_eq : ∀ g reading, p'.mention g reading = p.mention g reading
  eq_of_parts : p'.parts = p.parts → p' = p

theorem aliasRole_impose (n : Nat) (p : Plan) :
    (p.impose e n).value.aliasRole = p.aliasRole := by
  rw [value_impose]
  cases p with
  | join kind l r on => by_cases h : kind.isOuter <;> simp [imposeBelow, enforce, aliasRole, h]
  | _ => rfl

theorem mention_aliased_impose (g : Partitioning) (reading : Reading) (n : Nat) (p : Plan)
    (a : String) :
    (aliased (p.impose e n).value a).mention g reading = (aliased p a).mention g reading := by
  rw [value_impose]
  cases p with
  | join kind l r on => by_cases h : kind.isOuter <;> simp [imposeBelow, enforce, mention, h]
  | _ => rfl

theorem mention_equal_impose (g : Partitioning) (reading : Reading) (n : Nat) (l r r' : Plan) :
    (equal (l.impose e n).value r').mention g reading = (equal l r).mention g reading := by
  rw [value_impose]
  cases l with
  | join kind l r on =>
    by_cases h : kind.isOuter <;> simp [imposeBelow, enforce, mention, Findings.equality, h]
  | _ => rfl

theorem parts_imposeBelow (n : Nat) (p : Plan) :
    (p.imposeBelow e n).parts = imposeParts e (n + p.owner?.toList.length) p.parts := by
  cases p with
  | select q =>
    simp [imposeBelow, parts, owner?, imposeParts_append, imposeParts_map, value_imposeAll_toList,
      ownersAll_eq, ownersOption_eq, List.flatMap_map, Nat.add_assoc]
  | join kind l r on =>
    by_cases h : kind.isOuter <;>
      simp [imposeBelow, parts, owner?, imposeParts, imposeParts_map, value_imposeAll_toList, h]
  | update t as ws =>
    simp [imposeBelow, impose, parts, owner?, imposeParts, imposeParts_append, imposeParts_map,
      imposeParts_assignments, ownersAssignments_eq, List.flatMap_map]
  | aliased p a =>
    simp [imposeBelow, impose, parts, owner?, imposeParts, aliasRole_impose]
  | _ => simp [imposeBelow, impose, parts, owner?, imposeParts, imposeParts_map]

private theorem map_toList_inj {h h' : Plan → Plan} {p q : Option Plan}
    (heq : p.toList.map h = q.toList.map h') : p.map h = q.map h' := by
  cases p <;> cases q <;> simp_all

/-- Imposing keeps the columns that are assigned. -/
private theorem map_imposeAssignments {h h' : Plan → Plan} {n : Nat} {ps : List (String × Plan)}
    (heq : (imposeAssignments e n ps).value.map (fun a => h a.2) = ps.map fun a => h' a.2) :
    (imposeAssignments e n ps).value.map (fun a => (a.1, h a.2))
      = ps.map fun a => (a.1, h' a.2) := by
  induction ps generalizing n with
  | nil => rfl
  | cons p ps ih =>
    simp only [imposeAssignments, Logged.value_bind, Logged.value_pure, List.map_cons,
      List.cons.injEq] at heq ⊢
    exact ⟨Prod.ext rfl heq.1, ih heq.2⟩

/-- Imposing below a node changes its parts and nothing else: what maps the new parts to the same
as `h'` does the old ones makes the same node of them. -/
theorem mapParts_imposeBelow {h h' : Plan → Plan} (n : Nat) {p : Plan}
    (hparts : (p.imposeBelow e n).parts.map (fun c => h c.2) = p.parts.map fun c => h' c.2) :
    (p.imposeBelow e n).mapParts h = p.mapParts h' := by
  cases p with
  | select q =>
    simp only [imposeBelow, parts, List.map_append, List.map_map, Function.comp_def] at hparts
    -- Imposing keeps the length of each clause, so the clauses can be told apart again.
    obtain ⟨hparts, h₇⟩ := List.append_inj' hparts (by simp [length_imposeAll])
    obtain ⟨hparts, h₆⟩ :=
      List.append_inj' hparts (by simp [length_imposeAll, ← value_imposeAll_toList])
    obtain ⟨hparts, h₅⟩ := List.append_inj' hparts (by simp [length_imposeAll])
    obtain ⟨hparts, h₄⟩ := List.append_inj' hparts (by simp [length_imposeAll])
    obtain ⟨hparts, h₃⟩ := List.append_inj' hparts (by simp [length_imposeAll])
    obtain ⟨h₁, h₂⟩ := List.append_inj' hparts (by simp [length_imposeAll])
    simp only [imposeBelow, mapParts, Query.map, map_toList_inj h₁, h₂, h₃, h₄, h₅,
      map_toList_inj h₆, h₇]
  | join kind l r on =>
    simp only [imposeBelow, parts, List.map_cons, List.map_map, Function.comp_def,
      List.cons.injEq] at hparts
    simp only [imposeBelow, mapParts, hparts.1, hparts.2.1, map_toList_inj hparts.2.2]
  | update t as ws =>
    simp only [imposeBelow, impose, Logged.value_bind, Logged.value_pure, parts, List.cons_append,
      List.map_cons, List.map_append, List.map_map, Function.comp_def, List.cons.injEq] at hparts
    obtain ⟨ht, hrest⟩ := hparts
    obtain ⟨has, hws⟩ := List.append_inj' hrest (by simp [length_imposeAll])
    simp only [imposeBelow, impose, Logged.value_bind, Logged.value_pure, mapParts, ht, hws,
      map_imposeAssignments e has]
  | table _ | column _ | literal _ | param _ | raw _ | tenantKey _ _ | keyLink _ _ => rfl
  | _ => simpa [imposeBelow, impose, parts, mapParts, Function.comp_def] using hparts

/-- The node below which something is imposed is the same node, and the very same plan if its parts
stay as they are. -/
theorem sameNode_imposeBelow (n : Nat) (p : Plan) : SameNode p (p.imposeBelow e n) where
  owner?_eq := by cases p <;> rfl
  mention_eq _ _ := by
    cases p with
    | equal l r => exact mention_equal_impose e _ _ _ _ _ _
    | aliased p a => exact mention_aliased_impose e _ _ _ _ _
    | _ => rfl
  eq_of_parts h := by
    have hsame : (p.imposeBelow e n).mapParts (fun c => c) = p.mapParts fun c => c :=
      mapParts_imposeBelow e n (by rw [h])
    rwa [mapParts_id, mapParts_id] at hsame

end Plan

end Tenancy
