import Tenancy.Scope.Restrict

namespace Tenancy

/-!
# Targets — restricting what a mutation writes

* `Plan.target?` — what an `UPDATE` or a `DELETE` writes to;
* `Plan.holdsKey` — is a relation tied to a tenant by a condition already?
* `Plan.restrictTarget` — adds the tenant condition for the target of a mutation.

A mutation has one target, so one condition at the end of its `WHERE` is enough. Queries inside
the mutation are not touched here.
-/

namespace Plan

/-- The relation that a source refers to, which has to be `table` or an alias of it. -/
def targetRelation (source : Plan) (table : String) : Except ScopeError Relation :=
  match source.relation? with
  | some r => if r.table = table then .ok r else .error (.otherTarget table r.table)
  | none => .error (.otherTarget table source.kind)

/-- Does the condition tie the relation to a tenant, by itself or as a conjunct? -/
def holdsKey (r : Relation) (p : Partition) (condition : Plan) : Bool :=
  condition.conjuncts.any fun
    | tenantKey k _ => decide (k.relation = r)
    | equal (column c) _ => decide (c = r.column p.column)
    | _ => false

/-- The `WHERE` list of a mutation of `table`, whose target is the relation `r`, with the tenant
condition added at its end. Nothing is added in write-only mode, for a table that is no tenant
table, without a tenant, and for a target that is tied to a tenant already. -/
def addTargetKey (g : Partitioning) (access : Access) (table : String) (r : Relation)
    (wheres : List Plan) : Audited (List Plan) := do
  if access.writeOnly then
    .write (.mutationExempt table)
    return wheres
  else
    match g.of? table, access.tenant with
    | none, _ => return wheres
    | some _, none =>
      .write (.mutationWithoutTenant table)
      return wheres
    | some p, some t =>
      if wheres.any (holdsKey r p) then return wheres
      else
        -- The addition is reported before a warning about the id.
        .write (.targetPinned (r.column p.column) t)
        .writeAll (p.unsuited t)
        return wheres ++ [p.keyCondition r t]

/-- Restricts the target of an `UPDATE` or a `DELETE` of `table` to a tenant. -/
def restrictTarget (g : Partitioning) (access : Access) (table : String) :
    Plan → Audited (Except ScopeError Plan)
  | update target assignments wheres =>
    match targetRelation target table with
    | .error e => return .error e
    | .ok r => return .ok (update target assignments (← addTargetKey g access table r wheres))
  | delete target wheres =>
    match targetRelation target table with
    | .error e => return .error e
    | .ok r => return .ok (delete target (← addTargetKey g access table r wheres))
  | p => return .error (.notMutation p.kind)

/-- What an `UPDATE` or a `DELETE` writes to. -/
def target? : Plan → Option Plan
  | update target .. | delete target _ => some target
  | _ => none

/-- Restricts a plan and, if it is a mutation, its target. A target that is no table is left as it
is. -/
def secure (g : Partitioning) (access : Access) (p : Plan) :
    Audited (Except ScopeError Plan) := do
  match p.target? with
  | none => p.restrict g access
  | some target =>
    match target.relation? with
    | none =>
      .write (.targetNotTable p.kind)
      p.restrict g access
    | some r =>
      match ← p.restrictTarget g access r.table with
      | .error e => return .error e
      | .ok p => p.restrict g access

end Plan

end Tenancy
