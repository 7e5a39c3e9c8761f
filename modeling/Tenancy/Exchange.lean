import Tenancy.Event
import Tenancy.Json.Form
import Tenancy.PlanCache
import Tenancy.Policy.Basic

namespace Tenancy

/-!
# Exchange — the JSON forms of policies and of what they are made of

* instances of `Json.Form` for literals, relations, tenants, key types, partitions, the tables of a
  policy, policies, lookups and the counters of a cache;
* `Policy.load` — the policy that a file holds.

A structure is written as an object with its fields in the order of their declaration.
-/

open Json (Form Record member)

/-- A literal is written as the JSON value that it is. An integer has to fit into 64 bits. -/
instance : Form Literal where
  toJson
    | .null => .null
    | .bool b => .bool b
    | .int n => .int n.toInt
    | .text s => .text s
  ofJson?
    | .null => some .null
    | .bool b => some (.bool b)
    | .number n => (n.bind Numeral.int64?).map .int
    | .string s => s.map .text
    | _ => none

instance : Form Relation where
  toJson r := .object [
    member "table_name" (Form.toJson r.table),
    member "alias" (Form.toJson r.label)]
  ofJson? v := do
    let r ← Record.of? ["table_name", "alias"] v
    return { table := ← r.required "table_name", label := ← r.optional "alias" }

/-- A tenant is written as its id. -/
instance : Form Tenant where
  toJson t := Form.toJson t.id
  ofJson? v := (Form.ofJson? v).map Tenant.mk

/-- The word for a key type. -/
def KeyType.word : KeyType → String
  | .text => "text"
  | .integer => "integer"

/-- The key type with this word. -/
def KeyType.ofWord? (s : String) : Option KeyType :=
  if s = "text" then some .text else if s = "integer" then some .integer else none

/-- A key type is written as its word. An object with the word for its only member, and null for
the member's value, is read too. -/
instance : Form KeyType where
  toJson k := .text k.word
  ofJson?
    | .string s => s.bind KeyType.ofWord?
    | .object [(k, .null)] => k.bind KeyType.ofWord?
    | _ => none

instance : Form Partition where
  toJson p := .object [
    member "table" (Form.toJson p.table),
    member "partition_key" (Form.toJson p.column),
    member "key_type" (Form.toJson p.keyType)]
  ofJson? v := do
    let r ← Record.of? ["table", "partition_key", "key_type"] v
    return {
      table := ← r.required "table"
      column := ← r.required "partition_key"
      keyType := ← r.withDefault "key_type" .text }

instance : Form Policy.Table where
  toJson t := .object [
    member "table" (Form.toJson t.table),
    member "partition_key" (Form.toJson t.column),
    member "key_type" (Form.toJson t.keyType)]
  ofJson? v := do
    let r ← Record.of? ["table", "partition_key", "key_type"] v
    return {
      table := ← r.required "table"
      column := ← r.withDefault "partition_key" none
      keyType := ← r.withDefault "key_type" .text }

instance : Form Policy where
  toJson p := .object [
    member "default_partition_key" (Form.toJson p.defaultKey),
    member "write_only" (Form.toJson p.writeOnly),
    member "max_tenant_id_length" (Form.toJson p.maxIdLength),
    member "tenant_id_pattern" (Form.toJson p.idPattern),
    member "tables" (Form.toJson p.tables)]
  ofJson? v := do
    let r ← Record.of?
      ["default_partition_key", "write_only", "max_tenant_id_length", "tenant_id_pattern", "tables"]
      v
    let standard : Policy := {}
    return {
      defaultKey := ← r.withDefault "default_partition_key" standard.defaultKey
      writeOnly := ← r.withDefault "write_only" standard.writeOnly
      maxIdLength := ← r.withDefault "max_tenant_id_length" standard.maxIdLength
      idPattern := ← r.withDefault "tenant_id_pattern" standard.idPattern
      tables := ← r.withDefault "tables" standard.tables }

instance : Form Lookup where
  toJson k := .object [
    member "table" (Form.toJson k.table),
    member "columns" (Form.toJson k.columns)]
  ofJson? v := do
    let r ← Record.of? ["table", "columns"] v
    return { table := ← r.required "table", columns := ← r.required "columns" }

instance : Form PlanCache.Counts where
  toJson n := .object [
    member "hits" (Form.toJson n.hits),
    member "misses" (Form.toJson n.misses),
    member "bypassed" (Form.toJson n.bypassed),
    member "entries" (Form.toJson n.entries)]
  ofJson? v := do
    let r ← Record.of? ["hits", "misses", "bypassed", "entries"] v
    return {
      hits := ← r.required "hits"
      misses := ← r.required "misses"
      bypassed := ← r.required "bypassed"
      entries := ← r.required "entries" }

namespace Policy

/-- The policy that a text holds. -/
def parse (s : String) : Except PolicyError Policy :=
  match Form.ofText? Policy s with
  | some p => .ok p
  | none => .error .malformed

/-- The policy that the file at `path` holds, given the file's text unless it cannot be read. -/
def load (path : String) (contents : Option String) : Audited (Except PolicyError Policy) :=
  match contents with
  | none => return .error .unreadable
  | some s =>
    match parse s with
    | .error e => return .error e
    | .ok p => do
      .write (.policyLoaded path p.tables.length)
      return .ok p

end Policy

end Tenancy
