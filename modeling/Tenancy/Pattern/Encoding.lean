import Tenancy.Pattern.Ranges

namespace Tenancy

/-!
# Encoding — characters and sets of characters as bytes of UTF-8

* `Encoding.bytes` — the bytes of a character;
* `Encoding.rows` — rows of ranges of bytes that stand for a range of characters.

A row of ranges stands for the characters whose bytes are, one by one, in its ranges. Since not
every range of characters is a row, it is cut where the number of bytes changes, at the surrogates,
and so that all bytes behind the first one that varies take all their values.
-/

namespace Encoding

/-- A range of bytes, with both its ends. -/
structure ByteRange where
  /-- The first byte. -/
  first : Nat
  /-- The last byte. -/
  last : Nat
  deriving Repr, DecidableEq

/-- The bytes of a character. -/
def bytes (n : Nat) : List Nat :=
  if n < 0x80 then [n]
  else if n < 0x800 then [0xC0 + n / 64, 0x80 + n % 64]
  else if n < 0x10000 then [0xE0 + n / 4096, 0x80 + n / 64 % 64, 0x80 + n % 64]
  else [0xF0 + n / 262144, 0x80 + n / 4096 % 64, 0x80 + n / 64 % 64, 0x80 + n % 64]

/-- The characters with one, two, three and four bytes, on both sides of the surrogates. -/
def lengths : Ranges :=
  [(0, 0x7F), (0x80, 0x7FF), (0x800, 0xD7FF), (0xE000, 0xFFFF), (0x10000, 0x10FFFF)]

/-- A range of characters of one length, cut at multiples of the block sizes: blocks that it holds
in part are cut off, and what is left is cut at multiples of the next size. -/
def blocks : List Nat → Nat → Nat → Ranges
  | [], first, last => [(first, last)]
  | size :: sizes, first, last =>
    if first / size = last / size then [(first, last)]
    else
      let start := (first + size - 1) / size * size
      let stop := (last + 1) / size * size
      (if first < start then [(first, start - 1)] else [])
        ++ (if start < stop then blocks sizes start (stop - 1) else [])
        ++ (if stop ≤ last then [(stop, last)] else [])

/-- The rows that stand for a range of characters, in ascending order. -/
def rows (first last : Nat) : List (List ByteRange) :=
  lengths.flatMap fun (least, most) =>
    let first := max first least
    let last := min last most
    if last < first then []
    else if last < 0x80 then [[⟨first, last⟩]]
    else (blocks [64, 4096, 262144] first last).map fun (f, l) =>
      (bytes f).zipWith ByteRange.mk (bytes l)

end Encoding

end Tenancy
