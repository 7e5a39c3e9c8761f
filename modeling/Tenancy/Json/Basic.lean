namespace Tenancy

/-!
# JSON values

* `Json` — what a JSON text denotes.

Members keep their order and may be repeated. Two things that a text can hold are not told apart
further, since nothing in this library takes them as a value: numbers that are not integers, and
strings in which half of a surrogate pair stands alone.
-/

/-- A JSON value. -/
inductive Json
  | null
  | bool (value : Bool)
  /-- A number; `none` if it has a fraction or an exponent, and for `-0`. -/
  | number (value : Option Int)
  /-- A string; `none` if its escapes name half of a surrogate pair alone, which is no text. -/
  | string (text : Option String)
  | array (items : List Json)
  | object (members : List (Option String × Json))
  deriving Repr, Inhabited

namespace Json

/-- A string that is a text. -/
def text (s : String) : Json := string (some s)

/-- An integer. -/
def int (n : Int) : Json := number (some n)

/-- The named member. -/
def member (name : String) (value : Json) : Option String × Json := (some name, value)

end Json

end Tenancy
