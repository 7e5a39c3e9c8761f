import Tenancy.CallScope
import Tenancy.PlanCache
import Tenancy.Policy.Basic
import Tenancy.Scope.Target

namespace Tenancy

/-!
# Sessions — a policy at work

* `Session` — a policy, the tenant tables, and the cache;
* `Session.accessFor`, `Session.currentAccess` — access for an id, and for the code that is running;
* `Session.build` — restricts a plan;
* `Session.fetch` — the plan of a lookup, from the cache where that is safe;
* `Request`, `Session.answer` — what can be asked of a session, and its answers.

The plan of a lookup on a tenant table depends on the tenant. It is built anew each time and never
kept. A plan that is being built may itself put requests to the same session.
-/

/-- Where a session looks up tenant tables. -/
inductive Directory
  /-- In a catalog, which can change. -/
  | catalog (catalog : Catalog)
  /-- By a fixed rule. -/
  | rule (partitioning : Partitioning)

namespace Directory

/-- The tenant tables at the moment. -/
def partitioning : Directory → Partitioning
  | catalog c => c.partitioning
  | rule g => g

/-- The catalog, if there is one. -/
def catalog? : Directory → Option Catalog
  | catalog c => some c
  | rule _ => none

/-- The directory with an entry, if it can change. -/
def insert (d : Directory) (p : Partition) : Directory :=
  match d with
  | catalog c => catalog (c.insert p)
  | rule g => rule g

/-- The directory without a table, if it can change. -/
def erase (d : Directory) (table : String) : Directory :=
  match d with
  | catalog c => catalog (c.erase table)
  | rule g => rule g

end Directory

/-- A policy at work. -/
structure Session where
  /-- The policy. -/
  policy : Policy
  /-- Its rule for tenant ids. -/
  idRule : IdRule
  /-- The tenant tables. -/
  directory : Directory
  /-- The plans of lookups. -/
  cache : PlanCache := {}

namespace Session

/-- A session with tenant tables of its own. The tables of the policy do not count. -/
def start (policy : Policy) (directory : Directory) : Except PolicyError Session := do
  return { policy, idRule := ← policy.idRule, directory }

/-- A session with the tenant tables of its policy. -/
def ofPolicy (policy : Policy) : Except PolicyError Session := do
  start policy (.catalog (← policy.catalog))

/-- The tenant tables at the moment. -/
def partitioning (s : Session) : Partitioning := s.directory.partitioning

/-- Access for a tenant whose id the policy allows. -/
def accessFor (s : Session) (t : Tenant) : Except PolicyError Access := do
  s.idRule.check t
  return { tenant := some t, writeOnly := s.policy.writeOnly }

/-- Access for the code that is running. The id of a tenant that is bound has to be allowed, and
the policy can switch enforcement off. -/
def currentAccess (s : Session) (bindings : Bindings) : Except PolicyError Access := do
  let access := bindings.access
  match access.tenant with
  | some t => s.idRule.check t
  | none => .ok ()
  return { access with writeOnly := access.writeOnly || s.policy.writeOnly }

/-- Restricts a plan and the target of a mutation. -/
def build (s : Session) (access : Access) (p : Plan) : Audited (Except ScopeError Plan) :=
  p.secure s.partitioning access

/-! ### Fetching -/

/-- How a lookup is answered. -/
inductive Route
  /-- Its table is a tenant table: by a plan of its own. -/
  | bypass
  /-- By a plan that is kept. -/
  | hit (plan : Plan)
  /-- By a plan that is built and kept. -/
  | miss

/-- How a lookup is answered at the moment. -/
def route (s : Session) (k : Lookup) : Route :=
  if s.partitioning.covers k.table then .bypass
  else
    match s.cache.find? k with
    | some p => .hit p
    | none => .miss

/-- The plan of a lookup, with what `builder` reports if it has to build one. A builder works on
the session as it is then, and may leave it changed. -/
def fetch {ε ρ : Type} (s : Session) (k : Lookup)
    (builder : Session → Audited (ρ × Except ε Plan × Session)) :
    Audited (Option ρ × Except ε Plan × Session) := do
  match s.route k with
  | .bypass =>
    .write (.cacheBypassed k)
    let (report, plan, s) ← builder { s with cache := s.cache.countBypass }
    return (some report, plan, s)
  | .hit plan => return (none, .ok plan, { s with cache := s.cache.countHit })
  | .miss =>
    match ← builder s with
    -- A plan that could not be built is not counted.
    | (report, .error e, s) => return (some report, .error e, s)
    | (report, .ok plan, s) =>
      let (plan, cache) := s.cache.store k plan
      return (some report, .ok plan, { s with cache })

/-- The plan of a lookup, restricted. -/
def find (s : Session) (k : Lookup) (access : Access) :
    Audited (Except ScopeError Plan × Session) := do
  let (_, plan, s) ← s.fetch k fun s => return ((), ← s.build access k.plan, s)
  return (plan, s)

end Session

/-! ### Requests -/

/-- Why the plan of a lookup has not been built. -/
inductive BuildError
  /-- Building failed for a reason of its own. -/
  | failed (reason : String)
  /-- The plan cannot be restricted. -/
  | scope (error : ScopeError)
  deriving Repr, DecidableEq

/-- How the plan of a lookup is built. -/
structure Recipe where
  /-- The plan, or the reason for which there is none. Nothing stands for the lookup's own plan. -/
  plan : Except String (Option Plan) := .ok none
  /-- The access for which the plan is restricted, if it is. -/
  access : Option Access := none

/-- Builds the plan of a lookup. -/
def Recipe.build (r : Recipe) (s : Session) (k : Lookup) : Audited (Except BuildError Plan) := do
  match r.plan with
  | .error reason => return .error (.failed reason)
  | .ok plan =>
    match r.access with
    | none => return .ok (plan.getD k.plan)
    | some access => return (← s.build access (plan.getD k.plan)).mapError .scope

/-- What can be asked of a session. -/
inductive Request
  /-- The plan of a lookup, restricted. -/
  | find (lookup : Lookup) (access : Access)
  /-- The plan of a lookup; if it is built, the inner requests are answered first. -/
  | fetch (lookup : Lookup) (inner : List Request) (recipe : Recipe)
  /-- Makes a table a tenant table. -/
  | register (partition : Partition)
  /-- Makes a table no tenant table. -/
  | unregister (table : String)
  /-- The tenant tables. -/
  | tables
  /-- How a table is partitioned. -/
  | partition (table : String)
  /-- Drops the plans that are kept for a table. -/
  | invalidate (table : String)
  /-- Drops all plans that are kept. -/
  | clear
  /-- The counters of the cache. -/
  | counts
  /-- The cache in diagnostics. -/
  | inspectCache

/-- An answer to a request. -/
inductive Reply
  /-- A restricted plan. -/
  | found (plan : Except ScopeError Plan)
  /-- The plan of a lookup, and the inner answers if it was built. -/
  | fetched (lookup : Lookup) (inner : Option (List Reply)) (plan : Except BuildError Plan)
  /-- The entry that a table had before. -/
  | replaced (partition : Option Partition)
  /-- The tenant tables. -/
  | tables (catalog : Catalog)
  /-- How a table is partitioned. -/
  | partition (partition : Option Partition)
  /-- How many plans were dropped. -/
  | dropped (count : Nat)
  /-- All plans were dropped. -/
  | cleared
  /-- The counters of the cache. -/
  | counts (counts : PlanCache.Counts)
  /-- The cache in diagnostics, and the number of its plans. -/
  | cache (size : Nat) (text : String)

namespace Session

mutual

/-- Answers a request. -/
def answer (s : Session) : Request → Audited (Reply × Session)
  | .find k access => do
    let (plan, s) ← s.find k access
    return (.found plan, s)
  | .fetch k inner recipe => do
    let (inner, plan, s) ← s.fetch k fun s => do
      let (replies, s) ← s.answerAll inner
      return (replies, ← recipe.build s k, s)
    return (.fetched k inner plan, s)
  | .register p =>
    return (.replaced (s.directory.partitioning.of? p.table),
      { s with directory := s.directory.insert p })
  | .unregister table =>
    return (.replaced (s.directory.partitioning.of? table),
      { s with directory := s.directory.erase table })
  | .tables => return (.tables (s.directory.catalog?.getD {}), s)
  | .partition table => return (.partition (s.partitioning.of? table), s)
  | .invalidate table =>
    let cache := s.cache.invalidate table
    return (.dropped (s.cache.size - cache.size), { s with cache })
  | .clear => return (.cleared, { s with cache := s.cache.clear })
  | .counts => return (.counts s.cache.counts, s)
  | .inspectCache => return (.cache s.cache.size s.cache.inspect, s)

/-- Answers requests in order. -/
def answerAll (s : Session) : List Request → Audited (List Reply × Session)
  | [] => return ([], s)
  | r :: rs => do
    let (reply, s) ← s.answer r
    let (replies, s) ← s.answerAll rs
    return (reply :: replies, s)

end

/-- The restricting part of a session in diagnostics. -/
def inspectScope : String := "TenantScope \x7b .. \x7d"

end Session

end Tenancy
