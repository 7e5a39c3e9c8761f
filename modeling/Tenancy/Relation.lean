namespace Tenancy

/-!
# Relations — how a query names a table, and columns of it

* `Relation` — a table, under its own name or under an alias;
* `Relation.qualifier` — the name its columns are qualified with;
* `Relation.compare` — the order in which relations are listed;
* `Column` — a column of a relation.

Two references to one table under different aliases are different relations: each has rows of its
own and needs a tenant condition of its own.
-/

/-- A table as a query refers to it. -/
structure Relation where
  /-- The table. -/
  table : String
  /-- The alias it goes under, if any. -/
  label : Option String := none
  deriving Repr, DecidableEq, Inhabited

namespace Relation

/-- The name that stands in front of a column of the relation. -/
def qualifier (r : Relation) : String := r.label.getD r.table

/-- The relation in messages: `table` or `table AS alias`, with no quoting. -/
def display (r : Relation) : String :=
  match r.label with
  | some a => r.table ++ " AS " ++ a
  | none => r.table

/-- Relations are ordered by table and then by alias, no alias first. Strings are compared by code
points, which is also the order of their UTF-8 bytes. -/
def compare (r s : Relation) : Ordering :=
  (Ord.compare r.table s.table).then <|
    match r.label, s.label with
    | none, none => .eq
    | none, some _ => .lt
    | some _, none => .gt
    | some a, some b => Ord.compare a b

instance : Ord Relation := ⟨compare⟩

/-- The relations in listing order. -/
def sorted (rs : List Relation) : List Relation :=
  rs.mergeSort fun r s => (r.compare s).isLE

end Relation

/-- A column of a relation. -/
structure Column where
  /-- The relation it belongs to. -/
  relation : Relation
  /-- Its name. -/
  name : String
  deriving Repr, DecidableEq, Inhabited

/-- The column `name` of `r`. -/
def Relation.column (r : Relation) (name : String) : Column := ⟨r, name⟩

end Tenancy
