namespace Tenancy

/-!
# Literals — the values a plan can contain

* `Literal` — null, a truth value, a 64-bit integer or a text.
-/

/-- A value that is written into a plan. -/
inductive Literal
  /-- The unknown value. -/
  | null
  /-- A truth value. -/
  | bool (value : Bool)
  /-- A signed integer of 64 bits. -/
  | int (value : Int64)
  /-- A text. -/
  | text (value : String)
  deriving Repr, DecidableEq, Inhabited

end Tenancy
