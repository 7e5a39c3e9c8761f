import Tenancy.Logged
import Tenancy.Lookup
import Tenancy.Partition
import Tenancy.Scope.Basic

namespace Tenancy

/-!
# Events — the audit log

* `Event` — what is reported, with the things it is about;
* `Event.level`, `Event.message`, `Event.fields` — an event as a line of the log;
* `Audited` — a result with the events on the way to it.
-/

/-- Something that the audit log reports. -/
inductive Event
  /-- A policy has been read from a file. -/
  | policyLoaded (path : String) (tables : Nat)
  /-- A scope has been surveyed: how many relations it reads and how many are tied to a tenant. -/
  | scopeSurveyed (scope : Nat) (owner : Scope.Owner) (seen pinned : Nat)
  /-- A relation stays open since its table is not a tenant table any more. -/
  | partitionUnknown (scope : Nat) (relation : Relation)
  /-- The tenant's id is no integer, but the partition key is. -/
  | keyNotNumeric (partition : Partition) (tenant : Tenant)
  /-- A relation has been tied to the tenant. -/
  | keyPinned (scope : Nat) (key : Column) (tenant : Tenant)
  /-- A joined relation has been tied to another one; `key` is its partition key. -/
  | keyLinked (key : Column) (anchor : Relation)
  /-- Write-only mode leaves a plan as it is. -/
  | planExempt (kind : String)
  /-- Write-only mode leaves a mutation as it is. -/
  | mutationExempt (table : String)
  /-- A mutation stays as it is since there is no tenant. -/
  | mutationWithoutTenant (table : String)
  /-- The target of a mutation has been tied to the tenant. -/
  | targetPinned (key : Column) (tenant : Tenant)
  /-- The target of a mutation is no table. -/
  | targetNotTable (kind : String)
  /-- A lookup on a tenant table has not used the cache. -/
  | cacheBypassed (lookup : Lookup)
  deriving Repr, DecidableEq

/-- How grave an event is. -/
inductive Event.Level
  | trace | debug | warn
  deriving Repr, DecidableEq

/-- The name of a level. -/
def Event.Level.display : Event.Level → String
  | .trace => "TRACE"
  | .debug => "DEBUG"
  | .warn => "WARN"

namespace Event

/-- How grave the event is. -/
def level : Event → Level
  | scopeSurveyed .. | cacheBypassed _ => .trace
  | partitionUnknown .. | keyNotNumeric .. => .warn
  | _ => .debug

/-- What the event says. -/
def message : Event → String
  | policyLoaded .. => "Loaded scoping configuration"
  | scopeSurveyed .. => "Discovered scope context"
  | partitionUnknown .. => "Partition key could not be resolved, skipping relation"
  | keyNotNumeric .. => "Tenant id is not numeric for an integer partition key"
  | keyPinned .. => "Injecting tenant clause"
  | keyLinked .. => "Injecting join link clause"
  | planExempt _ => "Write-only mode, plan left unscoped"
  | mutationExempt _ => "Write-only mode, mutation left unscoped"
  | mutationWithoutTenant _ => "No current tenant, mutation left unscoped"
  | targetPinned .. => "Injecting tenant clause into mutation"
  | targetNotTable _ => "Mutation target is not a table, skipping"
  | cacheBypassed _ => "Tenant-scoped lookup, bypassing statement cache"

/-- What the event is about, by the names of the log's fields. -/
def details : Event → List (String × String)
  | policyLoaded path tables => [("path", path), ("tables", toString tables)]
  | scopeSurveyed scope owner seen pinned =>
    [("scope", toString scope), ("owner", owner.display), ("discovered", toString seen),
      ("handled", toString pinned)]
  | partitionUnknown scope relation =>
    [("scope", toString scope), ("relation", relation.display)]
  | keyNotNumeric partition tenant =>
    [("table", partition.table), ("partition_key", partition.column), ("tenant_id", tenant.id)]
  | keyPinned scope key tenant =>
    [("scope", toString scope), ("relation", key.relation.display), ("partition_key", key.name),
      ("tenant_id", tenant.id)]
  | keyLinked key anchor =>
    [("relation", key.relation.display), ("anchor", anchor.display), ("partition_key", key.name)]
  | planExempt kind | targetNotTable kind => [("kind", kind)]
  | mutationExempt table | mutationWithoutTenant table => [("table", table)]
  | targetPinned key tenant =>
    [("relation", key.relation.display), ("partition_key", key.name), ("tenant_id", tenant.id)]
  | cacheBypassed lookup => [("key", lookup.display)]

/-- All fields of the event's line, its message among them. -/
def fields (e : Event) : List (String × String) := ("message", e.message) :: e.details

end Event

/-- A result with the events on the way to it. -/
abbrev Audited := Logged Event

end Tenancy
