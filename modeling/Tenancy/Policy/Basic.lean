import Tenancy.Error
import Tenancy.Partition
import Tenancy.Pattern.Limits

namespace Tenancy

/-!
# Policies — which tables are tenant tables, and what a tenant id may be

* `Policy` — the settings;
* `Policy.partitions`, `Policy.catalog` — the tenant tables of a policy;
* `IdRule`, `Policy.idRule` — what tenant ids have to look like, with the pattern read;
* `IdRule.check`, `Policy.check` — is an id allowed?
-/

/-- One tenant table of a policy. -/
structure Policy.Table where
  /-- The table. -/
  table : String
  /-- Its partition key; the policy's default key if there is none. -/
  column : Option String := none
  /-- The type of its partition key. -/
  keyType : KeyType := .text
  deriving Repr, DecidableEq

/-- The settings of a policy. -/
structure Policy where
  /-- The partition key of the tables that name none. -/
  defaultKey : String := "tenant_id"
  /-- Is enforcement switched off altogether? -/
  writeOnly : Bool := false
  /-- The most bytes that a tenant id may have in UTF-8. -/
  maxIdLength : UInt64 := 64
  /-- A pattern that has to occur in a tenant id. -/
  idPattern : String := "^[a-zA-Z0-9_\\-/]+$"
  /-- The tenant tables. -/
  tables : List Policy.Table := []
  deriving Repr, DecidableEq

/-- What tenant ids have to look like. -/
structure IdRule where
  /-- The most bytes that an id may have in UTF-8. -/
  maxLength : UInt64
  /-- The text of the pattern. -/
  source : String
  /-- A pattern that has to occur in an id. -/
  pattern : Pattern
  deriving Repr, DecidableEq

/-- Is the id allowed? Its length is looked at before the pattern. -/
def IdRule.check (rule : IdRule) (t : Tenant) : Except PolicyError Unit :=
  if rule.maxLength.toNat < t.id.utf8ByteSize then
    .error (.invalidTenant t (.tooLong rule.maxLength))
  else if rule.pattern.occursIn t.id then .ok ()
  else .error (.invalidTenant t (.noMatch rule.source))

namespace Policy

/-- The policy with one more table. -/
def addTable (p : Policy) (t : Table) : Policy := { p with tables := p.tables ++ [t] }

/-- The tables with their partition keys. -/
def partitions (p : Policy) : List Partition :=
  p.tables.map fun t => ⟨t.table, t.column.getD p.defaultKey, t.keyType⟩

/-- The first name that has occurred before. -/
def firstRepeated? (seen : List String) : List String → Option String
  | [] => none
  | s :: rest => if s ∈ seen then some s else firstRepeated? (s :: seen) rest

/-- The catalog of the tables. No table may be listed twice. -/
def catalog (p : Policy) : Except PolicyError Catalog :=
  match firstRepeated? [] (p.tables.map (·.table)) with
  | some table => .error (.duplicateTable table)
  | none => .ok (.ofList p.partitions)

/-- The rule for tenant ids. Its pattern has to be one that can be used. -/
def idRule (p : Policy) : Except PolicyError IdRule :=
  match Pattern.ofText? p.idPattern with
  | some pattern => .ok ⟨p.maxIdLength, p.idPattern, pattern⟩
  | none => .error .invalidPattern

/-- Does the policy allow the id? -/
def check (p : Policy) (t : Tenant) : Except PolicyError Unit := do
  (← p.idRule).check t

end Policy

end Tenancy
