import Tenancy.Plan.Basic

namespace Tenancy

/-!
# Lookups — the shape of a point query

* `Lookup` — a table and the columns by which one row of it is found;
* `Lookup.plan` — the query that finds it.
-/

/-- A table and the columns by which one row of it is found. -/
structure Lookup where
  /-- The table. -/
  table : String
  /-- The columns, in the order of the parameters. -/
  columns : List String
  deriving Repr, DecidableEq, Inhabited

namespace Lookup

/-- The lookup by the column `id`. -/
def byId (table : String) : Lookup := ⟨table, ["id"]⟩

/-- The lookup in messages: `table(column, column)`. -/
def display (k : Lookup) : String :=
  k.table ++ "(" ++ ", ".intercalate k.columns ++ ")"

/-- Each column is equal to a parameter, numbered from `n + 1`. -/
def conditions (r : Relation) (n : Nat) : List String → List Plan
  | [] => []
  | c :: cs => .equal (.column (r.column c)) (.param (n + 1)) :: conditions r (n + 1) cs

/-- The query for one row of the table whose columns are equal to the parameters. -/
def plan (k : Lookup) : Plan :=
  .select {
    projections := [.raw "*"]
    source := some (.table k.table)
    wheres := conditions ⟨k.table, none⟩ 0 k.columns
    limit := some 1 }

end Lookup

end Tenancy
