import Tenancy.Literal
import Tenancy.Relation

namespace Tenancy

/-!
# Plans — the syntax of queries and mutations

* `Plan` — a node of a plan: statements, sources, predicates and expressions in one type;
* `Query` — the clauses of a `SELECT`;
* `Plan.relation?` — the relation that a node refers to as a table;
* `Plan.leftmost`, `Plan.relations` — where a tree of joins starts, and all it reads;
* `Plan.conjunction`, `Plan.conjoin` — building `AND`.

Two kinds of node are never written by a user: `tenantKey` ties a partition key to a tenant and
`keyLink` ties two partition keys to one another. Both are put in by enforcement.
-/

/-- How two sources are joined. -/
inductive JoinKind
  | inner | cross | left | right | full
  deriving Repr, DecidableEq, Inhabited

/-- Does the join keep rows of one side that match nothing on the other? -/
def JoinKind.isOuter : JoinKind → Bool
  | .inner | .cross => false
  | .left | .right | .full => true

/-- The comparisons other than equality. -/
inductive Comparison
  | notEqual | less | lessEqual | greater | greaterEqual | like | isIn | notIn
  deriving Repr, DecidableEq, Inhabited

/-- The clauses of a `SELECT` over nodes of type `α`. -/
structure Query (α : Type) where
  /-- What is selected; nothing stands for every column. -/
  projections : List α := []
  /-- The `FROM` clause. -/
  source : Option α := none
  /-- The `WHERE` conditions, all of which have to hold. -/
  wheres : List α := []
  /-- The `GROUP BY` terms. -/
  groups : List α := []
  /-- The `WINDOW` definitions. -/
  windows : List α := []
  /-- The `HAVING` condition. -/
  having : Option α := none
  /-- The `ORDER BY` terms. -/
  orders : List α := []
  /-- The `LIMIT`. -/
  limit : Option Nat := none
  /-- The `OFFSET`. -/
  offset : Option Nat := none
  deriving Repr

/-- A node of a plan. -/
inductive Plan
  /-- A table under its own name. -/
  | table (name : String)
  /-- A source under an alias. -/
  | aliased (source : Plan) (name : String)
  /-- A column. -/
  | column (column : Column)
  /-- A value. -/
  | literal (value : Literal)
  /-- A parameter that the caller binds, by number. -/
  | param (index : Nat)
  /-- A piece of SQL that is taken as it is. -/
  | raw (text : String)
  /-- A function call. -/
  | call (name : String) (args : List Plan)
  /-- A list in parentheses. -/
  | tuple (items : List Plan)
  /-- An equality. -/
  | equal (left right : Plan)
  /-- Any other comparison. -/
  | compare (op : Comparison) (left right : Plan)
  /-- A conjunction. -/
  | and (parts : List Plan)
  /-- A disjunction. -/
  | or (left right : Plan)
  /-- A negation. -/
  | not (inner : Plan)
  /-- A node in parentheses. -/
  | group (inner : Plan)
  /-- The test that a query has a row. -/
  | existence (query : Plan)
  /-- A `SELECT`. -/
  | select (query : Query Plan)
  /-- The rows of two queries, without repetitions unless `all`. -/
  | union (all : Bool) (left right : Plan)
  /-- Two sources joined. -/
  | join (kind : JoinKind) (left right : Plan) (on : Option Plan)
  /-- An `UPDATE`; each assignment names a column of the target. -/
  | update (target : Plan) (assignments : List (String × Plan)) (wheres : List Plan)
  /-- A `DELETE`. -/
  | delete (target : Plan) (wheres : List Plan)
  /-- The condition that a partition key has the value of a tenant. -/
  | tenantKey (key : Column) (value : Literal)
  /-- The condition that two partition keys agree. -/
  | keyLink (key other : Column)
  deriving Repr, Inhabited

namespace Plan

/-- What a node is called in messages. -/
def kind : Plan → String
  | table _ => "table"
  | aliased .. => "table alias"
  | column _ => "attribute"
  | literal _ => "literal"
  | param _ => "bind parameter"
  | raw _ => "sql literal"
  | call .. => "function"
  | tuple _ => "list"
  | equal .. => "equality"
  | compare .. => "comparison"
  | and _ => "and"
  | or .. => "or"
  | not _ => "not"
  | group _ => "grouping"
  | existence _ => "exists"
  | select _ => "select"
  | union .. => "union"
  | join .. => "join"
  | update .. => "update"
  | delete .. => "delete"
  | tenantKey .. => "tenant clause"
  | keyLink .. => "link clause"

/-- Is the node a query, that is, a `SELECT` or a `UNION`? -/
def isQuery : Plan → Bool
  | select _ | union .. => true
  | _ => false

/-! ### References to tables -/

/-- The relation of an alias that stands directly on a table. An alias of anything else names no
table, and neither does any other node. -/
def aliasRelation? : Plan → Option Relation
  | aliased (table t) a => some ⟨t, some a⟩
  | _ => none

/-- The relation that the node refers to as a table, with or without an alias. -/
def relation? : Plan → Option Relation
  | table t => some ⟨t, none⟩
  | aliased (table t) a => some ⟨t, some a⟩
  | _ => none

/-- The relation with which a tree of joins starts, read through joins and parentheses. -/
def leftmost : Plan → Option Relation
  | join _ l _ _ => l.leftmost
  | group p => p.leftmost
  | p => p.relation?

/-- The relations of a tree of joins from left to right, read through joins and parentheses. What
a query inside the tree reads does not belong to it. -/
def relations : Plan → List Relation
  | join _ l r _ => l.relations ++ r.relations
  | group p => p.relations
  | p => p.relation?.toList

/-- The node that reads `r` as a source. -/
def ofRelation (r : Relation) : Plan :=
  match r.label with
  | some a => aliased (table r.table) a
  | none => table r.table

/-! ### Conjunctions -/

/-- The conjunction of `ps`: nothing for no condition, and one condition stays bare. -/
def conjunction : List Plan → Option Plan
  | [] => none
  | [p] => some p
  | ps => some (and ps)

/-- Adds the condition `q` at the end of `p`, whose own conjunction it extends. -/
def conjoin (p q : Plan) : Plan :=
  match p with
  | and ps => and (ps ++ [q])
  | p => and [p, q]

/-- The conditions that a node is the conjunction of, read through nested conjunctions. -/
def conjuncts : Plan → List Plan
  | and ps => conjunctsAll ps
  | p => [p]
where
  /-- The conditions of a list, in order. -/
  conjunctsAll : List Plan → List Plan
    | [] => []
    | p :: ps => p.conjuncts ++ conjunctsAll ps

end Plan

end Tenancy
