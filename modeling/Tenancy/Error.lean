import Tenancy.Scope.Basic
import Tenancy.Tenant

namespace Tenancy

/-!
# Errors — why a statement or a policy is refused

* `ScopeError` — scopes that do not fit a plan, and mutations that cannot be restricted;
* `PolicyError` — policies that cannot be read or used, and ids that a policy forbids;
* `Error` — either;
* `ScopeError.message`, `PolicyError.message`, `Error.message` — the wording.
-/

/-- Why a plan cannot be restricted. -/
inductive ScopeError
  /-- The scope with this number belongs to another kind of owner than the plan has there. -/
  | unrecognized (scope : Nat) (expected found : Scope.Owner)
  /-- The plan has more owners than there are scopes. -/
  | missing (scope : Nat) (owner : Scope.Owner)
  /-- There are more scopes than the plan has owners. -/
  | unconsumed (remaining : Nat)
  /-- The statement is neither an `UPDATE` nor a `DELETE`. -/
  | notMutation (kind : String)
  /-- The mutation's target is not the table that it should be. -/
  | otherTarget (expected found : String)
  deriving Repr, DecidableEq

/-- The wording of the error. -/
def ScopeError.message : ScopeError → String
  | unrecognized scope expected found =>
    "unrecognized context " ++ toString scope ++ ": recorded for " ++ expected.display
      ++ ", plan has " ++ found.display
  | missing scope owner =>
    "no scope context recorded for " ++ owner.display ++ " at position " ++ toString scope
  | unconsumed remaining =>
    toString remaining ++ " scope context(s) were never matched to a plan node"
  | notMutation kind =>
    "cannot scope a " ++ kind ++ " node as a mutation, expected UPDATE or DELETE"
  | otherTarget expected found => "mutation target is " ++ found ++ ", expected " ++ expected

/-- Why a tenant id is refused. -/
inductive IdFault
  /-- The id has more bytes than allowed. -/
  | tooLong (limit : UInt64)
  /-- The id does not match the pattern. -/
  | noMatch (pattern : String)
  deriving Repr, DecidableEq

/-- The wording of the reason. -/
def IdFault.message : IdFault → String
  | tooLong limit =>
    "tenant ID exceeds maximum length of " ++ toString limit.toNat ++ " characters"
  | noMatch pattern => "tenant ID does not match required pattern: " ++ pattern

/-- Why a policy, or a tenant id under it, is refused. -/
inductive PolicyError
  /-- The policy's file cannot be read. -/
  | unreadable
  /-- The text is no policy. -/
  | malformed
  /-- The pattern for tenant ids is no pattern. -/
  | invalidPattern
  /-- A table is listed twice. -/
  | duplicateTable (table : String)
  /-- A tenant id is refused. -/
  | invalidTenant (tenant : Tenant) (fault : IdFault)
  deriving Repr, DecidableEq

/-- The wording of the error. The faults of a text are named by their kind alone. -/
def PolicyError.message : PolicyError → String
  | unreadable => "policy cannot be read"
  | malformed => "policy is malformed"
  | invalidPattern => "tenant id pattern is invalid"
  | duplicateTable table => "table " ++ table ++ " is declared more than once"
  | invalidTenant tenant fault => "invalid tenant id " ++ tenant.id ++ ": " ++ fault.message

/-- Why a request fails. -/
inductive Error
  /-- The plan cannot be restricted. -/
  | scope (error : ScopeError)
  /-- The policy forbids it. -/
  | policy (error : PolicyError)
  deriving Repr, DecidableEq

/-- The wording of the error. -/
def Error.message : Error → String
  | scope e => e.message
  | policy e => e.message

end Tenancy
