import Tenancy.Json.Basic

namespace Tenancy

/-!
# Reading JSON text

* `Json.readString` — a string with its escapes;
* `Json.readNumber` — a number;
* `Json.readValue` — a value and what follows it;
* `Json.parse` — a text that holds one value and nothing else but blanks.

The grammar is the strict one: no comments, no trailing commas, no leading zeros, no control
characters inside strings, and no mark in front of the text.
-/

namespace Json

/-- The blanks of JSON: space, tab, line feed and carriage return. -/
def isBlank (c : Char) : Bool := c = ' ' || c = '\t' || c = '\n' || c = '\r'

/-- The text without the blanks in front. -/
def skipBlanks (cs : List Char) : List Char := cs.dropWhile isBlank

/-! ### Strings -/

/-- What a hexadecimal digit denotes. -/
def hexDigit? (c : Char) : Option Nat :=
  if '0' ≤ c && c ≤ '9' then some (c.toNat - '0'.toNat)
  else if 'a' ≤ c && c ≤ 'f' then some (c.toNat - 'a'.toNat + 10)
  else if 'A' ≤ c && c ≤ 'F' then some (c.toNat - 'A'.toNat + 10)
  else none

/-- What four hexadecimal digits denote. -/
def hex4? (a b c d : Char) : Option Nat := do
  return ((← hexDigit? a) * 16 + (← hexDigit? b)) * 256
    + ((← hexDigit? c) * 16 + (← hexDigit? d))

/-- What a one-letter escape denotes. -/
def escape? : Char → Option Char
  | '"' => some '"'
  | '\\' => some '\\'
  | '/' => some '/'
  | 'b' => some '\x08'
  | 'f' => some '\x0c'
  | 'n' => some '\n'
  | 'r' => some '\r'
  | 't' => some '\t'
  | _ => none

/-- A part of a string: a character, or a code unit that an escape names. -/
inductive StringPart
  | char (c : Char)
  | unit (n : Nat)
  deriving Repr, DecidableEq

/-- The parts of a string up to its closing quote, and what follows the quote. -/
def readParts : List Char → Option (List StringPart × List Char)
  | [] => none
  | '"' :: cs => some ([], cs)
  | '\\' :: 'u' :: a :: b :: c :: d :: cs => do
    let n ← hex4? a b c d
    let (parts, rest) ← readParts cs
    return (.unit n :: parts, rest)
  | '\\' :: c :: cs => do
    let c ← escape? c
    let (parts, rest) ← readParts cs
    return (.char c :: parts, rest)
  | c :: cs =>
    if c.toNat < 0x20 || c = '\\' then none
    else do
      let (parts, rest) ← readParts cs
      return (.char c :: parts, rest)

/-- The characters that the parts denote. Two code units that form a surrogate pair are one
character, and half of a pair alone is none. -/
def decodeParts : List StringPart → Option (List Char)
  | [] => some []
  | .char c :: parts => (decodeParts parts).map (c :: ·)
  | .unit high :: .unit low :: parts =>
    if 0xD800 ≤ high && high < 0xDC00 then
      if 0xDC00 ≤ low && low < 0xE000 then
        (decodeParts parts).map
          (Char.ofNat (0x10000 + (high - 0xD800) * 0x400 + (low - 0xDC00)) :: ·)
      else none
    else if 0xDC00 ≤ high && high < 0xE000 then none
    else (decodeParts (.unit low :: parts)).map (Char.ofNat high :: ·)
  | .unit n :: parts =>
    if 0xD800 ≤ n && n < 0xE000 then none
    else (decodeParts parts).map (Char.ofNat n :: ·)

/-- A string after its opening quote, and what follows it. -/
def readString (cs : List Char) : Option (Option String × List Char) :=
  (readParts cs).map fun (parts, rest) => ((decodeParts parts).map String.ofList, rest)

/-! ### Numbers -/

/-- The digits in front, of which there has to be one, and what follows them. -/
def readDigits (cs : List Char) : Option (List Char × List Char) :=
  if (cs.takeWhile Char.isDigit).isEmpty then none
  else some (cs.takeWhile Char.isDigit, cs.dropWhile Char.isDigit)

/-- A fraction in front, if there is one: is there, and what follows. -/
def readFraction : List Char → Option (Bool × List Char)
  | '.' :: cs => (readDigits cs).map fun (_, rest) => (true, rest)
  | cs => some (false, cs)

/-- The text without a sign in front. -/
def skipSign : List Char → List Char
  | '+' :: cs | '-' :: cs => cs
  | cs => cs

/-- An exponent in front, if there is one: is there, and what follows. -/
def readExponent : List Char → Option (Bool × List Char)
  | 'e' :: cs | 'E' :: cs => (readDigits (skipSign cs)).map fun (_, rest) => (true, rest)
  | cs => some (false, cs)

/-- A number without its sign: its value if it is an integer, and what follows it. -/
def readUnsigned (cs : List Char) : Option (Option Nat × List Char) := do
  let (digits, rest) ← readDigits cs
  if digits.head? = some '0' && digits.length ≠ 1 then none
  let (fraction, rest) ← readFraction rest
  let (exponent, rest) ← readExponent rest
  return (if fraction || exponent then none else some (Nat.ofDigitChars 10 digits 0), rest)

/-- A number and what follows it. -/
def readNumber : List Char → Option (Option Int × List Char)
  | '-' :: cs => (readUnsigned cs).map fun (n, rest) =>
    ((n.filter (· ≠ 0)).map fun n => -Int.ofNat n, rest)
  | cs => (readUnsigned cs).map fun (n, rest) => (n.map Int.ofNat, rest)

/-! ### Values -/

/-- What follows a word, if the text starts with it. -/
def afterWord? (word : String) (cs : List Char) : Option (List Char) :=
  if word.toList.isPrefixOf cs then some (cs.drop word.toList.length) else none

mutual

/-- A value and what follows it. The first argument bounds the depth of the calls: two for each
character and one more are always enough. -/
def readValue : Nat → List Char → Option (Json × List Char)
  | 0, _ => none
  | fuel + 1, cs =>
    match skipBlanks cs with
    | '"' :: cs => (readString cs).map fun (s, rest) => (string s, rest)
    | '[' :: cs =>
      match skipBlanks cs with
      | ']' :: rest => some (array [], rest)
      | cs => (readItems fuel cs).map fun (vs, rest) => (array vs, rest)
    | '\x7b' :: cs =>
      match skipBlanks cs with
      | '\x7d' :: rest => some (object [], rest)
      | cs => (readMembers fuel cs).map fun (ms, rest) => (object ms, rest)
    | 'n' :: cs => (afterWord? "ull" cs).map fun rest => (null, rest)
    | 't' :: cs => (afterWord? "rue" cs).map fun rest => (bool true, rest)
    | 'f' :: cs => (afterWord? "alse" cs).map fun rest => (bool false, rest)
    | cs => (readNumber cs).map fun (n, rest) => (number n, rest)

/-- One item or more up to the end of the array, and what follows. -/
def readItems : Nat → List Char → Option (List Json × List Char)
  | 0, _ => none
  | fuel + 1, cs => do
    let (v, rest) ← readValue fuel cs
    match skipBlanks rest with
    | ']' :: rest => return ([v], rest)
    | ',' :: rest =>
      let (vs, rest) ← readItems fuel rest
      return (v :: vs, rest)
    | _ => none

/-- One member or more up to the end of the object, and what follows. -/
def readMembers : Nat → List Char → Option (List (Option String × Json) × List Char)
  | 0, _ => none
  | fuel + 1, cs =>
    match skipBlanks cs with
    | '"' :: cs => do
      let (k, rest) ← readString cs
      match skipBlanks rest with
      | ':' :: rest =>
        let (v, rest) ← readValue fuel rest
        match skipBlanks rest with
        | '\x7d' :: rest => return ([(k, v)], rest)
        | ',' :: rest =>
          let (ms, rest) ← readMembers fuel rest
          return ((k, v) :: ms, rest)
        | _ => none
      | _ => none
    | _ => none

end

/-- The value of a text that holds one and nothing else. -/
def parse (s : String) : Option Json := do
  let (v, rest) ← readValue (2 * s.toList.length + 1) s.toList
  if (skipBlanks rest).isEmpty then some v else none

end Json

end Tenancy
