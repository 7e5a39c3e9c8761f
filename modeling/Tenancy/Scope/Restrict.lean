import Tenancy.Error
import Tenancy.Scope.Link
import Tenancy.Scope.Survey

namespace Tenancy

/-!
# Restriction — adding the conditions that scopes still need

* `Restriction` — what is to be enforced: the outstanding relations of each scope, the tenant;
* `Restriction.keyConditions`, `Restriction.linkKeys` — what one scope needs;
* `Claiming`, `Scope.claim` — taking recorded scopes one after another;
* `Plan.constrain` — the plan with those conditions added at every owner, which claims its scope;
* `Plan.restrictWith` — imposes recorded scopes on a plan, which has to have the same owners;
* `Plan.restrict` — surveys a plan and imposes what the survey finds.

Plans are read in the order in which they are surveyed. What is added owns no scope, so the owners
that come later still find their own scopes.
-/

/-- What is to be enforced on a plan. -/
structure Restriction where
  /-- Which tables are tenant tables. -/
  partitioning : Partitioning
  /-- On whose behalf. -/
  access : Access
  /-- The relations that still need a condition, by the number of the scope. -/
  outstanding : Nat → List Relation

namespace Partition

/-- The condition that ties a relation to a tenant. -/
def keyCondition (p : Partition) (r : Relation) (t : Tenant) : Plan :=
  .tenantKey (r.column p.column) (p.keyValue t)

/-- The warning about an id that does not suit the partition key. -/
def unsuited (p : Partition) (t : Tenant) : List Event :=
  if p.suits t then [] else [.keyNotNumeric p t]

end Partition

namespace Restriction

/-- The conditions that tie the outstanding relations of scope `n` to the tenant. There are none
without a tenant, and none for a table that is not a tenant table. -/
def keyConditions (e : Restriction) (n : Nat) : List Plan :=
  (e.outstanding n).filterMap fun r => do
    let p ← e.partitioning.of? r.table
    let t ← e.access.tenant
    return p.keyCondition r t

/-- The partition keys of the outstanding relations of scope `n`, which are to be linked. -/
def linkKeys (e : Restriction) (n : Nat) : List Column :=
  (e.outstanding n).filterMap (Plan.keyOf? e.partitioning)

/-- What is reported about one outstanding relation of scope `n`. -/
def reportOn (e : Restriction) (n : Nat) (r : Relation) : List Event :=
  match e.partitioning.of? r.table with
  | none => [.partitionUnknown n r]
  | some p =>
    match e.access.tenant with
    | none => []
    | some t => p.unsuited t ++ [.keyPinned n (r.column p.column) t]

/-- What is reported about the outstanding relations of scope `n`. -/
def report (e : Restriction) (n : Nat) : List Event :=
  (e.outstanding n).flatMap (e.reportOn n)

end Restriction

/-! ### Claims -/

/-- A computation that claims recorded scopes, one after another. Its state is the number of the
next one. It can stop with an error, and what has been reported before stays reported. -/
abbrev Claiming := StateT Nat (ExceptT ScopeError Audited)

/-- A computation that claims nothing. -/
def Claiming.audit {α : Type} (x : Audited α) : Claiming α := StateT.lift (ExceptT.lift x)

/-- Claims the next scope for an owner, which has to be of the kind recorded for it. The number of
the scope is returned. -/
def Scope.claim (scopes : List Scope) (owner : Scope.Owner) : Claiming Nat := do
  let n ← get
  set (n + 1)
  match scopes[n]? with
  | none => throw (.missing n owner)
  | some s => if s.owner = owner then return n else throw (.unrecognized n s.owner owner)

/-! ### Plans -/

namespace Plan

/-- Puts conditions in front of a `WHERE` list, in one conjunction with its first condition. -/
def addWheres (conditions wheres : List Plan) : List Plan :=
  match conditions, wheres with
  | [], _ => wheres
  | _, [] => (conjunction conditions).toList
  | _, and ps :: rest => and (conditions ++ ps) :: rest
  | _, p :: rest => and (conditions ++ [p]) :: rest

/-- Puts conditions behind an `ON` condition. -/
def addOn (conditions : List Plan) (on : Option Plan) : Option Plan :=
  match on with
  | some p => some (conditions.foldl conjoin p)
  | none => conjunction conditions

mutual

/-- The plan with what each scope needs added at its owner. The owners claim the recorded scopes in
the order in which they begin. -/
def constrain (e : Restriction) (scopes : List Scope) : Plan → Claiming Plan
  | table t => return table t
  | column c => return column c
  | literal v => return literal v
  | param k => return param k
  | raw s => return raw s
  | tenantKey k v => return tenantKey k v
  | keyLink k o => return keyLink k o
  | aliased p a => return aliased (← p.constrain e scopes) a
  | not p => return not (← p.constrain e scopes)
  | group p => return group (← p.constrain e scopes)
  | existence p => return existence (← p.constrain e scopes)
  | call f ps => return call f (← constrainAll e scopes ps)
  | tuple ps => return tuple (← constrainAll e scopes ps)
  | and ps => return and (← constrainAll e scopes ps)
  | equal l r => return equal (← l.constrain e scopes) (← r.constrain e scopes)
  | compare op l r => return compare op (← l.constrain e scopes) (← r.constrain e scopes)
  | or l r => return or (← l.constrain e scopes) (← r.constrain e scopes)
  | union all l r => return union all (← l.constrain e scopes) (← r.constrain e scopes)
  | select ⟨ps, source, ws, gs, vs, having, os, limit, offset⟩ => do
    let n ← Scope.claim scopes .select
    let source ← constrainOption e scopes source
    let ps ← constrainAll e scopes ps
    let ws ← constrainAll e scopes ws
    let gs ← constrainAll e scopes gs
    let vs ← constrainAll e scopes vs
    let having ← constrainOption e scopes having
    let os ← constrainAll e scopes os
    -- The scopes within are complete now; what this one needs comes last.
    Claiming.audit (.writeAll (e.report n))
    let source ← Claiming.audit (source.mapM (linkAll e.partitioning (e.linkKeys n)))
    return select ⟨ps, source, addWheres (e.keyConditions n) ws, gs, vs, having, os, limit, offset⟩
  | join kind l r on => do
    if kind.isOuter then
      let n ← Scope.claim scopes .outerJoin
      let l ← l.constrain e scopes
      let r ← r.constrain e scopes
      let on ← constrainOption e scopes on
      Claiming.audit (.writeAll (e.report n))
      let (l, r) ← Claiming.audit (linkSides e.partitioning (e.linkKeys n) (l, r))
      return join kind l r (addOn (e.keyConditions n) on)
    else
      -- The join owns no scope: what its sides read belongs to the scope around it.
      let l ← l.constrain e scopes
      let r ← r.constrain e scopes
      let on ← constrainOption e scopes on
      return join kind l r on
  | update target assignments ws =>
    return update (← target.constrain e scopes) (← constrainAssignments e scopes assignments)
      (← constrainAll e scopes ws)
  | delete target ws => return delete (← target.constrain e scopes) (← constrainAll e scopes ws)

/-- What is needed added in a list, one plan after another. -/
def constrainAll (e : Restriction) (scopes : List Scope) : List Plan → Claiming (List Plan)
  | [] => return []
  | p :: ps => return (← p.constrain e scopes) :: (← constrainAll e scopes ps)

/-- What is needed added in an optional part. -/
def constrainOption (e : Restriction) (scopes : List Scope) :
    Option Plan → Claiming (Option Plan)
  | none => return none
  | some p => return some (← p.constrain e scopes)

/-- What is needed added in the values of assignments. -/
def constrainAssignments (e : Restriction) (scopes : List Scope) :
    List (String × Plan) → Claiming (List (String × Plan))
  | [] => return []
  | (c, p) :: rest =>
    return (c, ← p.constrain e scopes) :: (← constrainAssignments e scopes rest)

end

/-- Imposes recorded scopes on a plan. Every owner has to claim one of its own kind, and none may be
left over. In write-only mode the plan is left as it is. -/
def restrictWith (g : Partitioning) (scopes : List Scope) (access : Access) (p : Plan) :
    Audited (Except ScopeError Plan) :=
  if access.writeOnly then return .ok p
  else ExceptT.run do
    let (q, next) ← (p.constrain ⟨g, access, Scope.outstandingAt scopes⟩ scopes).run 0
    if next < scopes.length then throw (.unconsumed (scopes.length - next))
    return q

/-- Surveys a plan, and writes down each scope. -/
def surveyed (g : Partitioning) (p : Plan) : Audited (List Scope) :=
  ⟨Scope.surveyed (p.scopes g), p.scopes g⟩

/-- Restricts a plan to a tenant: surveys it and imposes what is outstanding. In write-only mode
the plan is left as it is. -/
def restrict (g : Partitioning) (access : Access) (p : Plan) :
    Audited (Except ScopeError Plan) := do
  if access.writeOnly then
    .write (.planExempt p.kind)
    return .ok p
  else
    let scopes ← p.surveyed g
    p.restrictWith g scopes access

end Plan

end Tenancy
