namespace Tenancy

/-!
# Ranges — sets of characters as rows of ranges of code points

* `Ranges` — a row of ranges, each with both its ends;
* `Ranges.holds` — is a character in the set?
* `Ranges.insert`, `Ranges.union`, `Ranges.complement` — sets from sets.

A row that these operations build is in ascending order, and neighbours that touch are joined. Code
points, and not characters, decide what touches: a range that ends in front of the surrogates does
not touch one that starts behind them.
-/

/-- A row of ranges of code points, each with both its ends. -/
abbrev Ranges := List (Nat × Nat)

namespace Ranges

/-- The last code point. -/
def lastPoint : Nat := 0x10FFFF

/-- Does one of the ranges hold the character? -/
def holds (rs : Ranges) (c : Char) : Bool :=
  rs.any fun (first, last) => first ≤ c.toNat && c.toNat ≤ last

/-- One character. -/
def single (c : Char) : Ranges := [(c.toNat, c.toNat)]

/-- The set with one more range. -/
def insert (first last : Nat) : Ranges → Ranges
  | [] => [(first, last)]
  | (f, l) :: rest =>
    if last + 1 < f then (first, last) :: (f, l) :: rest
    else if l + 1 < first then (f, l) :: insert first last rest
    else insert (min first f) (max last l) rest

/-- The characters in either set. -/
def union (rs ss : Ranges) : Ranges := rs.foldr (fun (f, l) acc => insert f l acc) ss

/-- The code point after one; no character is a surrogate. -/
def after (n : Nat) : Nat := if n = 0xD7FF then 0xE000 else n + 1

/-- The code point before one; no character is a surrogate. -/
def before (n : Nat) : Nat := if n = 0xE000 then 0xD7FF else n - 1

/-- What lies behind the code point and outside the ranges. Where nothing but surrogates lies
between two ranges, the gap is the range from the one's end to the other's start. -/
def gaps (last : Nat) : Ranges → Ranges
  | [] => if last < lastPoint then [(after last, lastPoint)] else []
  | (f, l) :: rest =>
    (min (after last) (before f), max (after last) (before f)) :: gaps l rest

/-- The characters outside the set. -/
def complement : Ranges → Ranges
  | [] => [(0, lastPoint)]
  | (f, l) :: rest => if 0 < f then (0, before f) :: gaps l rest else gaps l rest

end Ranges

end Tenancy
