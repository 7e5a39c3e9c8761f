import Tenancy.Plan.Basic
import Tenancy.Scope.Basic

namespace Tenancy

/-!
# Owners — the scopes of a plan in the order in which they begin

* `Plan.owners` — the owners, an outer one before those inside it.

A `SELECT` is read in the order source, projections, `WHERE`, `GROUP BY`, `WINDOW`, `HAVING`,
`ORDER BY`, a join in the order left, right, `ON`, and a mutation in the order target,
assignments, `WHERE`.
-/

namespace Plan

open Scope (Owner)

mutual

/-- The owners of scopes in the plan, in the order in which they begin. -/
def owners : Plan → List Owner
  | table _ | column _ | literal _ | param _ | raw _ | tenantKey .. | keyLink .. => []
  | aliased p _ | not p | group p | existence p => p.owners
  | call _ ps | tuple ps | and ps => ownersAll ps
  | equal l r | compare _ l r | or l r | union _ l r => l.owners ++ r.owners
  | select ⟨ps, source, ws, gs, vs, having, os, _, _⟩ =>
    .select :: (ownersOption source ++ ownersAll ps ++ ownersAll ws ++ ownersAll gs
      ++ ownersAll vs ++ ownersOption having ++ ownersAll os)
  | join kind l r on =>
    (if kind.isOuter then [.outerJoin] else []) ++ l.owners ++ r.owners ++ ownersOption on
  | update target assignments ws =>
    target.owners ++ ownersAssignments assignments ++ ownersAll ws
  | delete target ws => target.owners ++ ownersAll ws

/-- The owners in a list, one plan after another. -/
def ownersAll : List Plan → List Owner
  | [] => []
  | p :: ps => p.owners ++ ownersAll ps

/-- The owners in an optional part. -/
def ownersOption : Option Plan → List Owner
  | none => []
  | some p => p.owners

/-- The owners in the values of assignments. -/
def ownersAssignments : List (String × Plan) → List Owner
  | [] => []
  | (_, p) :: rest => p.owners ++ ownersAssignments rest

end

end Plan

end Tenancy
