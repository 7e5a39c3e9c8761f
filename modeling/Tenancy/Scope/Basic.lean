import Tenancy.Relation

namespace Tenancy

/-!
# Scopes — what each query and each outer join of a plan reads

* `Scope.Owner` — a `SELECT` or an outer join;
* `Scope` — one owner, with the tenant relations it reads and those already tied to a tenant;
* `Scope.outstanding` — the relations that still need a condition in this scope.

The scopes of a plan are numbered in the order in which their owners begin. The conditions of a
`SELECT` go into its `WHERE`, those of an outer join into its `ON`.
-/

namespace Scope

/-- What a scope belongs to. -/
inductive Owner
  /-- A `SELECT`. -/
  | select
  /-- An outer join. -/
  | outerJoin
  deriving Repr, DecidableEq, Inhabited

/-- The owner in messages. -/
def Owner.display : Owner → String
  | .select => "select-core"
  | .outerJoin => "outer join"

end Scope

/-- The tenant relations of one `SELECT` or outer join. -/
structure Scope where
  /-- The place of the owner among all owners. -/
  id : Nat
  /-- What the scope belongs to. -/
  owner : Scope.Owner
  /-- The scope around it. -/
  parent : Option Nat := none
  /-- The tenant relations read by the source, each once, as they occur. -/
  seen : List Relation := []
  /-- The relations that a condition of this scope ties to a tenant, each once. -/
  pinned : List Relation := []
  /-- The relations that the scopes around an outer join tie to a tenant, up to the nearest
  `SELECT`: its conditions hold of the joined rows as well. A `SELECT` inherits nothing. -/
  inherited : List Relation := []
  deriving Repr, DecidableEq

namespace Scope

/-- The relations that the scope's own conditions leave open. -/
def unpinned (s : Scope) : List Relation := s.seen.filter (· ∉ s.pinned)

/-- The relations that still need a condition in this scope. -/
def outstanding (s : Scope) : List Relation := s.unpinned.filter (· ∉ s.inherited)

/-- The outstanding relations of the scope with number `n`; none if there is no such scope. -/
def outstandingAt (scopes : List Scope) (n : Nat) : List Relation :=
  (scopes[n]?).elim [] outstanding

end Scope

end Tenancy
