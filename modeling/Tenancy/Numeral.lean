namespace Tenancy

/-!
# Numerals — integers of 64 bits in decimal text

* `Numeral.natural?` — the number that a non-empty row of ASCII digits denotes;
* `Numeral.signed?` — the number that digits with at most one sign in front denote;
* `Numeral.int64?`, `Numeral.uint64?` — a number, if it fits into 64 bits.
-/

namespace Numeral

/-- The number that a row of ASCII digits denotes. At least one digit is needed; leading zeros are
allowed. -/
def natural? (cs : List Char) : Option Nat :=
  if cs.isEmpty || !cs.all Char.isDigit then none else some (Nat.ofDigitChars 10 cs 0)

/-- The number that digits with at most one sign in front denote. -/
def signed? : List Char → Option Int
  | '+' :: cs => (natural? cs).map Int.ofNat
  | '-' :: cs => (natural? cs).map fun n => -Int.ofNat n
  | cs => (natural? cs).map Int.ofNat

/-- The integer as a signed word, if it lies between `-2 ^ 63` and `2 ^ 63 - 1`. -/
def int64? (n : Int) : Option Int64 :=
  if Int64.minValue.toInt ≤ n ∧ n ≤ Int64.maxValue.toInt then some (Int64.ofInt n) else none

/-- The integer as an unsigned word, if it lies between `0` and `2 ^ 64 - 1`. -/
def uint64? (n : Int) : Option UInt64 :=
  if 0 ≤ n ∧ n.toNat < UInt64.size then some (UInt64.ofNat n.toNat) else none

end Numeral

end Tenancy
