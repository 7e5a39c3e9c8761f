import Tenancy.Json.Printer
import Tenancy.Json.Reader
import Tenancy.Numeral

namespace Tenancy

/-!
# JSON forms — types that are written and read as JSON

* `Json.Form` — a type with a JSON form;
* `Json.Form.toText`, `Json.Form.ofText?` — the compact text of a value, and the value of a text;
* `Json.Record` — the fields of a structure, given as an object or as an array.

As an object a structure may have its fields in any order and others besides, but none of its own
twice. As an array it has them in the order of their declaration, and only fields at the end may be
missing.
-/

namespace Json

/-- A type with a JSON form. -/
class Form (α : Type) where
  /-- The JSON value of a value. -/
  toJson : α → Json
  /-- The value of a JSON value, if it is one of this type. -/
  ofJson? : Json → Option α

namespace Form

/-- The compact text of a value. -/
def toText {α : Type} [Form α] (a : α) : String := (toJson a).print

/-- The value of a text. -/
def ofText? (α : Type) [Form α] (s : String) : Option α := (parse s).bind ofJson?

end Form

/-! ### Simple forms -/

instance : Form String where
  toJson := text
  ofJson?
    | string s => s
    | _ => none

instance : Form Bool where
  toJson := bool
  ofJson?
    | bool b => some b
    | _ => none

instance : Form UInt64 where
  toJson n := int n.toNat
  ofJson?
    | number n => n.bind Numeral.uint64?
    | _ => none

instance {α : Type} [Form α] : Form (Option α) where
  toJson
    | none => null
    | some a => Form.toJson a
  ofJson?
    | null => some none
    | v => (Form.ofJson? v).map some

instance {α : Type} [Form α] : Form (List α) where
  toJson as := array (as.map Form.toJson)
  ofJson?
    | array vs => vs.mapM Form.ofJson?
    | _ => none

/-! ### Structures -/

/-- The fields of a structure, as far as they are given. -/
structure Record where
  /-- Is it an object? -/
  isObject : Bool
  /-- What is given for a field. -/
  value? : String → Option Json

namespace Record

/-- The fields called `names` of an object. Every name of a member has to be a text, and none of
`names` may be given twice. -/
def ofMembers? (names : List String) (members : List (Option String × Json)) : Option Record :=
  if members.any (fun (k, _) => k.isNone) then none
  else if names.any fun name => 1 < members.countP fun (k, _) => k = some name then none
  else some ⟨true, fun name => members.lookup (some name)⟩

/-- The fields called `names` of an array. There may not be more items than fields. -/
def ofItems? (names : List String) (items : List Json) : Option Record :=
  if names.length < items.length then none
  else some ⟨false, fun name => (names.zip items).lookup name⟩

/-- The fields called `names` of a value that is an object or an array. -/
def of? (names : List String) : Json → Option Record
  | object members => ofMembers? names members
  | array items => ofItems? names items
  | _ => none

variable {α : Type} [Form α]

/-- A field that has to be given. -/
def required (r : Record) (name : String) : Option α := (r.value? name).bind Form.ofJson?

/-- A field with a default. -/
def withDefault (r : Record) (name : String) (default : α) : Option α :=
  match r.value? name with
  | some v => Form.ofJson? v
  | none => some default

/-- A field that an object may leave out and an array may not. -/
def optional (r : Record) (name : String) : Option (Option α) :=
  match r.value? name with
  | some v => Form.ofJson? v
  | none => if r.isObject then some none else none

end Record

end Json

end Tenancy
