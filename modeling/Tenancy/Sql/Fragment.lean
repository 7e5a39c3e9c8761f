import Tenancy.Literal
import Tenancy.Sql.Quoted

namespace Tenancy.Sql

/-!
# SQL fragments — text with values in it

* `Piece`, `Fragment` — SQL text in which the values of the plan are still values;
* `Fragment.inline` — the text with each value written out;
* `Fragment.bound` — the text with the `k`-th value replaced by the placeholder `?k`;
* `Fragment.values` — the values to bind, in order.

Both texts come from one fragment, so they can differ only where a value stands.
-/

/-- A piece of an SQL text. -/
inductive Piece
  /-- Text that does not depend on a value. -/
  | text (text : String)
  /-- A value of the plan. -/
  | value (value : Literal)
  deriving Repr, DecidableEq

/-- An SQL text with values in it. -/
abbrev Fragment := List Piece

/-- A literal as SQL writes it. -/
def literal : Literal → String
  | .null => "NULL"
  | .bool true => "TRUE"
  | .bool false => "FALSE"
  | .int n => toString n.toInt
  | .text s => stringLiteral s

/-- The placeholder of the `k`-th value. -/
def placeholder (k : Nat) : String := "?" ++ toString k

namespace Fragment

/-- The text with each value written out. -/
def inline : Fragment → String
  | [] => ""
  | .text s :: ps => s ++ inline ps
  | .value v :: ps => literal v ++ inline ps

/-- The text with placeholders for the values, numbered from `k + 1`. -/
def boundFrom (k : Nat) : Fragment → String
  | [] => ""
  | .text s :: ps => s ++ boundFrom k ps
  | .value _ :: ps => placeholder (k + 1) ++ boundFrom (k + 1) ps

/-- The text with the placeholders `?1`, `?2`, … for the values. -/
def bound (f : Fragment) : String := boundFrom 0 f

/-- The values in the order in which they stand. -/
def values (f : Fragment) : List Literal :=
  f.filterMap fun
    | .text _ => none
    | .value v => some v

@[simp] theorem values_append (f g : Fragment) : values (f ++ g) = values f ++ values g :=
  List.filterMap_append

@[simp] theorem inline_append (f g : Fragment) : inline (f ++ g) = inline f ++ inline g := by
  induction f with
  | nil => simp [inline]
  | cons p ps ih => cases p <;> simp [inline, ih, String.append_assoc]

/-- Puts `separator` between the parts. -/
def joined (separator : String) : List Fragment → Fragment
  | [] => []
  | [f] => f
  | f :: fs => f ++ .text separator :: joined separator fs

end Fragment

end Tenancy.Sql
