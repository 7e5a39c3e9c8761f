namespace Tenancy.Sql

/-!
# Quoted text — names and string literals inside an SQL text

* `enclosed q s` — `s` between two quotes `q`, with every `q` inside written twice;
* `isPlain` — the names that stand without quotes;
* `identifier`, `stringLiteral` — a name and a string as SQL writes them.

Doubling is what keeps the two apart from the text around them: between the enclosing quotes a
quote never stands alone.
-/

/-- Writes every `q` of the text twice and the rest once. -/
def doubled (q : Char) : List Char → List Char
  | [] => []
  | c :: cs => if c = q then q :: q :: doubled q cs else c :: doubled q cs

/-- The text between two quotes `q`. -/
def enclosed (q : Char) (cs : List Char) : List Char :=
  q :: (doubled q cs ++ [q])

/-- May the character start a name without quotes? -/
def isPlainStart (c : Char) : Bool := ('a' ≤ c && c ≤ 'z') || c = '_'

/-- May the character stand in a name without quotes, after its start? -/
def isPlainRest (c : Char) : Bool := isPlainStart c || ('0' ≤ c && c ≤ '9')

/-- The names that need no quotes: lower-case ASCII letters, digits and underscores, not starting
with a digit. -/
def isPlain : List Char → Bool
  | [] => false
  | c :: cs => isPlainStart c && cs.all isPlainRest

/-- A name, in double quotes unless it is plain. -/
def identifier (name : String) : String :=
  if isPlain name.toList then name else String.ofList (enclosed '"' name.toList)

/-- A string literal, in single quotes. -/
def stringLiteral (text : String) : String :=
  String.ofList (enclosed '\'' text.toList)

end Tenancy.Sql
