import Tenancy.Literal
import Tenancy.Numeral
import Tenancy.Tenant

namespace Tenancy

/-!
# Partitions — which tables belong to tenants, and by which column

* `Partition` — a tenant table, its partition key and the type of the key;
* `Partition.keyValue` — what the partition key of a tenant's rows is equal to;
* `Partitioning` — any rule that says which tables are tenant tables;
* `Catalog` — the partitioning given by a list of tables.
-/

/-- The type of a partition key. -/
inductive KeyType
  /-- Ids are compared as texts. -/
  | text
  /-- Ids are compared as integers. -/
  | integer
  deriving Repr, DecidableEq, Inhabited

/-- A tenant table and the column that says whose row it is. -/
structure Partition where
  /-- The table. -/
  table : String
  /-- The partition key. -/
  column : String
  /-- The type of the partition key. -/
  keyType : KeyType := .text
  deriving Repr, DecidableEq, Inhabited

namespace Partition

/-- Can the tenant's id be a key of this type? Every id can be a text; an integer is a row of
digits with at most one sign, and fits into 64 bits. -/
def suits (p : Partition) (t : Tenant) : Bool :=
  match p.keyType with
  | .text => true
  | .integer => ((Numeral.signed? t.id.toList).bind Numeral.int64?).isSome

/-- What the partition key of the tenant's rows is equal to. An id that is no integer is compared
as a text even with an integer key, so that the condition holds of no row rather than of all. -/
def keyValue (p : Partition) (t : Tenant) : Literal :=
  match p.keyType with
  | .text => .text t.id
  | .integer =>
    match (Numeral.signed? t.id.toList).bind Numeral.int64? with
    | some n => .int n
    | none => .text t.id

end Partition

/-- A rule that says which tables are tenant tables. -/
structure Partitioning where
  /-- How the table is partitioned, if it is a tenant table. -/
  of? : String → Option Partition

namespace Partitioning

/-- Is the table a tenant table? -/
def covers (g : Partitioning) (table : String) : Bool := (g.of? table).isSome

/-- Every table whose name ends in `ending` is a tenant table with the text key `column`. -/
def byEnding (ending column : String) : Partitioning where
  of? table :=
    if ending.toList.isSuffixOf table.toList then some ⟨table, column, .text⟩ else none

end Partitioning

/-- A list of tenant tables in which each table occurs once. -/
structure Catalog where
  /-- The entries. -/
  partitions : List Partition := []
  /-- No table is listed twice. -/
  nodup : (partitions.map Partition.table).Nodup := by simp

namespace Catalog

/-- The entry for a table. -/
def find? (c : Catalog) (table : String) : Option Partition :=
  c.partitions.find? (·.table == table)

/-- The catalog without a table. -/
def erase (c : Catalog) (table : String) : Catalog where
  partitions := c.partitions.filter (·.table != table)
  nodup := c.nodup.sublist (List.filter_sublist.map _)

/-- The catalog with an entry, which takes the place of one for the same table. -/
def insert (c : Catalog) (p : Partition) : Catalog where
  partitions := p :: (c.erase p.table).partitions
  nodup := by
    rw [List.map_cons, List.nodup_cons]
    refine ⟨?_, (c.erase p.table).nodup⟩
    simp [erase]

theorem find?_erase (c : Catalog) (s t : String) :
    (c.erase s).find? t = if t = s then none else c.find? t := by
  simp only [erase, find?, List.find?_filter]
  split
  · next h => simp [h, List.find?_eq_none]
  · next h =>
    congr 1
    funext p
    by_cases hp : p.table = t <;> simp_all

theorem find?_insert (c : Catalog) (p : Partition) (t : String) :
    (c.insert p).find? t = if t = p.table then some p else c.find? t := by
  have h := find?_erase c p.table t
  simp only [find?] at h
  by_cases hp : p.table = t
  · simp [insert, find?, hp]
  · simp [insert, find?, hp, h, Ne.symm hp]

/-- The catalog of the entries, a later one taking the place of an earlier one for its table. -/
def ofList (ps : List Partition) : Catalog := ps.foldl insert {}

/-- The tables in alphabetical order, by code points. -/
def tables (c : Catalog) : List String :=
  (c.partitions.map (·.table)).mergeSort fun s t => (compare s t).isLE

/-- The number of tables. -/
def size (c : Catalog) : Nat := c.partitions.length

/-- The tenant tables are those of the catalog. -/
def partitioning (c : Catalog) : Partitioning := ⟨c.find?⟩

end Catalog

end Tenancy
