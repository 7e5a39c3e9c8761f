namespace Tenancy

/-!
# Tenants — on whose behalf a statement runs

* `Tenant` — a tenant by its id;
* `Access` — the tenant to enforce, and whether enforcement is switched off.
-/

/-- A tenant, known by an id that is any text. -/
structure Tenant where
  /-- The id. -/
  id : String
  deriving Repr, DecidableEq, Inhabited

namespace Tenant

/-- The tenant with a numeric id: its decimal text. -/
def ofInt (n : Int64) : Tenant := ⟨toString n.toInt⟩

/-- The id as diagnostics show it. -/
def inspect (t : Tenant) : String := "TenantId(" ++ t.id ++ ")"

/-- The tenants by their ids' code points, without repetitions. -/
def sorted (ts : List Tenant) : List Tenant :=
  (ts.eraseDups).mergeSort fun t u => (compare t.id u.id).isLE

end Tenant

/-- How one statement is to be restricted. -/
structure Access where
  /-- The tenant to enforce. Without one no tenant condition is added. -/
  tenant : Option Tenant := none
  /-- In write-only mode nothing is added at all. -/
  writeOnly : Bool := false
  deriving Repr, DecidableEq, Inhabited

/-- Access for one tenant. -/
def Access.ofTenant (t : Tenant) : Access := { tenant := some t }

end Tenancy
