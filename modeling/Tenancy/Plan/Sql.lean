import Tenancy.Plan.Basic
import Tenancy.Sql.Fragment

namespace Tenancy

/-!
# Plans as SQL

* `Plan.fragment` — the SQL of a plan, by the position it stands in;
* `Plan.toSql` — the text with every value written out;
* `Plan.toBoundSql`, `Plan.parameters` — the text with placeholders, and the values for them.

A statement inside another one is put in parentheses; at the top, in parentheses already, or as a
side of a `UNION` it is not.
-/

open Sql (Piece Fragment identifier)

/-- Where a node stands. -/
inductive Position
  /-- At the top, inside parentheses, or as a side of a `UNION`. -/
  | statement
  /-- Inside an expression, a condition or a source. -/
  | operand
  deriving Repr, DecidableEq

/-- The words of a join. -/
def JoinKind.keyword : JoinKind → String
  | .inner => "INNER JOIN"
  | .cross => "CROSS JOIN"
  | .left => "LEFT OUTER JOIN"
  | .right => "RIGHT OUTER JOIN"
  | .full => "FULL OUTER JOIN"

/-- The sign of a comparison. -/
def Comparison.symbol : Comparison → String
  | .notEqual => "<>"
  | .less => "<"
  | .lessEqual => "<="
  | .greater => ">"
  | .greaterEqual => ">="
  | .like => "LIKE"
  | .isIn => "IN"
  | .notIn => "NOT IN"

/-- A column with its qualifier. -/
def Column.sql (c : Column) : String :=
  identifier c.relation.qualifier ++ "." ++ identifier c.name

namespace Plan

/-- A fragment in parentheses. -/
def parenthesized (f : Fragment) : Fragment := .text "(" :: f ++ [.text ")"]

/-- A statement, in parentheses when it stands inside another one. -/
def inPosition (pos : Position) (f : Fragment) : Fragment :=
  match pos with
  | .statement => f
  | .operand => parenthesized f

/-- A clause that is left out when it has no terms. -/
def clause (keyword separator : String) (terms : List Fragment) : Fragment :=
  match terms with
  | [] => []
  | _ => .text keyword :: Fragment.joined separator terms

/-- A clause with a number. -/
def countClause (keyword : String) (count : Option Nat) : Fragment :=
  match count with
  | none => []
  | some n => [.text (keyword ++ toString n)]

/-- What takes no further parentheses under an alias: a table, a parenthesized node, and queries,
which bring their own. -/
def standsUnderAlias : Plan → Bool
  | table _ | group _ | select _ | union .. => true
  | _ => false

/-- Is the node a join? As the right side of a join it needs parentheses. -/
def isJoin : Plan → Bool
  | join .. => true
  | _ => false

/-- Is the node the null literal? An equality with it on the right is the test `IS NULL`. -/
def isNullLiteral : Plan → Bool
  | literal .null => true
  | _ => false

mutual

/-- The SQL of a plan that stands in position `pos`. -/
def fragment (pos : Position) : Plan → Fragment
  | table t => [.text (identifier t)]
  | aliased p a =>
    (if p.standsUnderAlias then p.fragment .operand else parenthesized (p.fragment .operand))
      ++ [.text " AS ", .text (identifier a)]
  | column c => [.text c.sql]
  | literal v => [.value v]
  | param n => [.text ("$" ++ toString n)]
  | raw s => [.text s]
  | call f args => .text f :: parenthesized (Fragment.joined ", " (operands args))
  | tuple ps => parenthesized (Fragment.joined ", " (operands ps))
  | equal l r =>
    l.fragment .operand
      ++ if r.isNullLiteral then [.text " IS NULL"] else .text " = " :: r.fragment .operand
  | compare op l r =>
    l.fragment .operand ++ .text (" " ++ op.symbol ++ " ") :: r.fragment .operand
  | and ps => Fragment.joined " AND " (operands ps)
  | or l r => parenthesized (l.fragment .operand ++ .text " OR " :: r.fragment .operand)
  | not p => .text "NOT " :: parenthesized (p.fragment .operand)
  | group p => parenthesized (p.fragment .statement)
  | existence p => .text "EXISTS " :: p.fragment .operand
  | select ⟨ps, source, ws, gs, vs, having, os, limit, offset⟩ =>
    inPosition pos <|
      .text "SELECT " ::
        (match ps with
          | [] => [.text "*"]
          | _ => Fragment.joined ", " (operands ps))
        ++ optional " FROM " source
        ++ clause " WHERE " " AND " (operands ws)
        ++ clause " GROUP BY " ", " (operands gs)
        ++ optional " HAVING " having
        ++ clause " WINDOW " ", " (operands vs)
        ++ clause " ORDER BY " ", " (operands os)
        ++ countClause " LIMIT " limit
        ++ countClause " OFFSET " offset
  | union all l r =>
    inPosition pos <|
      l.fragment .statement
        ++ .text (if all then " UNION ALL " else " UNION ") :: r.fragment .statement
  | join kind l r on =>
    l.fragment .operand
      ++ .text (" " ++ kind.keyword ++ " ")
        :: (if r.isJoin then parenthesized (r.fragment .operand) else r.fragment .operand)
      ++ match on with
        | none => if kind = .cross then [] else [.text " ON TRUE"]
        | some p => .text " ON " :: p.fragment .operand
  | update target assignments ws =>
    inPosition pos <|
      .text "UPDATE " :: target.fragment .operand
        ++ .text " SET " :: Fragment.joined ", " (settings assignments)
        ++ clause " WHERE " " AND " (operands ws)
  | delete target ws =>
    inPosition pos <|
      .text "DELETE FROM " :: target.fragment .operand
        ++ clause " WHERE " " AND " (operands ws)
  | tenantKey k v => [.text k.sql, .text " = ", .value v]
  | keyLink k o => [.text k.sql, .text " = ", .text o.sql]

/-- The SQL of each of several operands. -/
def operands : List Plan → List Fragment
  | [] => []
  | p :: ps => p.fragment .operand :: operands ps

/-- A clause with one term, left out when there is none. -/
def optional (keyword : String) : Option Plan → Fragment
  | none => []
  | some p => .text keyword :: p.fragment .operand

/-- The SQL of each of several assignments. -/
def settings : List (String × Plan) → List Fragment
  | [] => []
  | (c, p) :: rest =>
    (.text (identifier c) :: .text " = " :: p.fragment .operand) :: settings rest

end

/-- The SQL of a plan with every value written out. -/
def toSql (p : Plan) : String := (p.fragment .statement).inline

/-- The SQL of a plan with a placeholder for every value. -/
def toBoundSql (p : Plan) : String := (p.fragment .statement).bound

/-- The values for the placeholders. -/
def parameters (p : Plan) : List Literal := (p.fragment .statement).values

/-- The operands of a list are rendered one by one. -/
theorem operands_eq_map (ps : List Plan) : operands ps = ps.map (fragment .operand) := by
  induction ps with
  | nil => rfl
  | cons p ps ih => simp [operands, ih]

end Plan

end Tenancy
