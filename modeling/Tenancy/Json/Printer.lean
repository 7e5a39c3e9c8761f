import Tenancy.Json.Basic

namespace Tenancy

/-!
# JSON text in compact form

* `Json.quoted` — a string with its escapes;
* `Json.print` — a value without blanks.

Quotes, backslashes and control characters are escaped, and nothing else is: a control character
by its letter if it has one, and by four hexadecimal digits otherwise.
-/

namespace Json

/-- A character inside a string. -/
def escaped (c : Char) : List Char :=
  if c = '"' then ['\\', '"']
  else if c = '\\' then ['\\', '\\']
  else if c = '\x08' then ['\\', 'b']
  else if c = '\t' then ['\\', 't']
  else if c = '\n' then ['\\', 'n']
  else if c = '\x0c' then ['\\', 'f']
  else if c = '\r' then ['\\', 'r']
  else if c.toNat < 0x20 then
    ['\\', 'u', '0', '0', Nat.digitChar (c.toNat / 16), Nat.digitChar (c.toNat % 16)]
  else [c]

/-- A string with its quotes. -/
def quoted (s : String) : List Char := '"' :: (s.toList.flatMap escaped ++ ['"'])

/-- A string, whether it is a text or not. -/
def printString : Option String → List Char
  | some s => quoted s
  | none => "\"\\ud800\"".toList

/-- A number, whether it is an integer or not. -/
def printNumber : Option Int → List Char
  | some n => (toString n).toList
  | none => "-0".toList

mutual

/-- A value. What is not told apart further is written as one of the texts that denote it. -/
def printChars : Json → List Char
  | null => "null".toList
  | bool true => "true".toList
  | bool false => "false".toList
  | number n => printNumber n
  | string s => printString s
  | array [] => ['[', ']']
  | array (v :: vs) => '[' :: (printChars v ++ printItems vs)
  | object [] => ['\x7b', '\x7d']
  | object ((k, v) :: ms) => '\x7b' :: (printString k ++ ':' :: (printChars v ++ printMembers ms))

/-- The items after the first, and the end of the array. -/
def printItems : List Json → List Char
  | [] => [']']
  | v :: vs => ',' :: (printChars v ++ printItems vs)

/-- The members after the first, and the end of the object. -/
def printMembers : List (Option String × Json) → List Char
  | [] => ['\x7d']
  | (k, v) :: ms => ',' :: (printString k ++ ':' :: (printChars v ++ printMembers ms))

end

/-- The text of a value. -/
def print (v : Json) : String := String.ofList v.printChars

end Json

end Tenancy
