import Mathlib.Algebra.Group.Nat.Defs
import Tenancy.Numeral

namespace Tenancy.Numeral

/-!
# Decimal spellings — the texts that denote an integer

* `takeWhile_append_row`, `dropWhile_append_row` — where a row of characters of one kind ends;
* `IsDigits`, `placeValue` — a row of digits, and the number that it denotes;
* `Spelling` — the spellings of an integer: digits with at most one sign in front;
* `signed?_eq_some_iff` — a text is read as an integer exactly if it is one of its spellings;
* `spelling_toString` — the decimal text of an integer is one of them;
* `int64?_eq_some_iff`, `uint64?_toNat` — the integers that fit into 64 bits.

An integer has many spellings, since there may be zeros and a plus sign in front, and zero may have
a minus sign.
-/

/-! ### Rows of characters -/

section

variable {p : Char → Bool} {cs rest : List Char} (hcs : ∀ c ∈ cs, p c = true)
  (hrest : ∀ c ∈ rest.head?, p c = false)

include hcs hrest

/-- A row of characters of one kind is taken as a whole, and nothing of what follows it. -/
theorem takeWhile_append_row : (cs ++ rest).takeWhile p = cs := by
  rw [List.takeWhile_append_of_pos hcs]
  cases rest with
  | nil => exact List.append_nil cs
  | cons c rest => simp [hrest c rfl]

theorem dropWhile_append_row : (cs ++ rest).dropWhile p = rest := by
  rw [List.dropWhile_append_of_pos hcs]
  cases rest with
  | nil => rfl
  | cons c rest => simp [hrest c rfl]

end

/-! ### Spellings -/

/-- A row of ASCII digits, of which there is one at least. -/
def IsDigits (cs : List Char) : Prop := cs ≠ [] ∧ ∀ c ∈ cs, c.isDigit = true

/-- What a row of digits denotes: each digit counts by its place. -/
def placeValue : List Char → Nat
  | [] => 0
  | c :: cs => (c.toNat - '0'.toNat) * 10 ^ cs.length + placeValue cs

/-- The text is a decimal spelling of the integer. -/
inductive Spelling : List Char → Int → Prop
  /-- Digits alone. -/
  | digits {cs : List Char} (h : IsDigits cs) : Spelling cs (placeValue cs)
  /-- Digits behind a plus sign. -/
  | plus {cs : List Char} (h : IsDigits cs) : Spelling ('+' :: cs) (placeValue cs)
  /-- Digits behind a minus sign. -/
  | minus {cs : List Char} (h : IsDigits cs) : Spelling ('-' :: cs) (-placeValue cs)

/-- Reading digits from the left gives each of them the weight of its place. -/
theorem ofDigitChars_eq_placeValue (cs : List Char) : Nat.ofDigitChars 10 cs 0 = placeValue cs := by
  induction cs with
  | nil => rfl
  | cons c cs ih =>
    rw [Nat.ofDigitChars_cons, Nat.ofDigitChars_eq_ofDigitChars_zero, ih, placeValue, Nat.mul_zero,
      Nat.zero_add, Nat.mul_comm]

theorem isDigits_iff {cs : List Char} :
    IsDigits cs ↔ (cs.isEmpty || !cs.all Char.isDigit) = false := by
  simp [IsDigits]

theorem natural?_eq_some_iff {cs : List Char} {n : Nat} :
    natural? cs = some n ↔ IsDigits cs ∧ placeValue cs = n := by
  rw [natural?, ofDigitChars_eq_placeValue, isDigits_iff]
  cases cs.isEmpty || !cs.all Char.isDigit <;> simp

/-- Digits do not start with a sign. -/
theorem IsDigits.head?_ne {cs : List Char} (h : IsDigits cs) {c : Char} (hc : c.isDigit = false) :
    cs.head? ≠ some c := by
  intro hhead
  have hdigit := h.2 c (List.mem_of_mem_head? hhead)
  rw [hc] at hdigit
  exact Bool.false_ne_true hdigit

theorem signed?_eq_some_iff {cs : List Char} {n : Int} : signed? cs = some n ↔ Spelling cs n := by
  constructor
  · intro h
    unfold signed? at h
    split at h <;> obtain ⟨m, hm, rfl⟩ := Option.map_eq_some_iff.1 h <;>
      obtain ⟨hdigits, rfl⟩ := natural?_eq_some_iff.1 hm
    · exact .plus hdigits
    · exact .minus hdigits
    · exact .digits hdigits
  · intro h
    cases h with
    | plus h => rw [signed?, natural?_eq_some_iff.2 ⟨h, rfl⟩]; rfl
    | minus h => rw [signed?, natural?_eq_some_iff.2 ⟨h, rfl⟩]; rfl
    | digits h =>
      unfold signed?
      split
      · exact absurd rfl (h.head?_ne (c := '+') rfl)
      · exact absurd rfl (h.head?_ne (c := '-') rfl)
      · rw [natural?_eq_some_iff.2 ⟨h, rfl⟩]
        rfl

/-! ### Decimal texts -/

theorem all_isDigit_toDigits (n : Nat) : (Nat.toDigits 10 n).all Char.isDigit = true :=
  List.all_eq_true.2 fun _ hc => Nat.isDigit_of_mem_toDigits (by decide) (by decide) hc

theorem isDigits_toDigits (n : Nat) : IsDigits (Nat.toDigits 10 n) :=
  ⟨Nat.toDigits_ne_nil, List.all_eq_true.1 (all_isDigit_toDigits n)⟩

/-- The digits of a number denote it. -/
theorem placeValue_toDigits (n : Nat) : placeValue (Nat.toDigits 10 n) = n := by
  rw [← ofDigitChars_eq_placeValue, Nat.ofDigitChars_ten_toDigits]

theorem natural?_toDigits (n : Nat) : natural? (Nat.toDigits 10 n) = some n :=
  natural?_eq_some_iff.2 ⟨isDigits_toDigits n, placeValue_toDigits n⟩

theorem toList_toString (n : Nat) : (toString n).toList = Nat.toDigits 10 n := by
  rw [Nat.toString_eq_ofList_toDigits, String.toList_ofList]

theorem toList_toString_negSucc (n : Nat) :
    (toString (Int.negSucc n)).toList = '-' :: Nat.toDigits 10 (n + 1) := by
  show ("-" ++ toString (n + 1)).toList = _
  rw [String.toList_append, toList_toString]
  rfl

/-- The decimal text of an integer is one of its spellings. -/
theorem spelling_toString (n : Int) : Spelling (toString n).toList n := by
  cases n with
  | ofNat n =>
    have hspelling := Spelling.digits (isDigits_toDigits n)
    rw [placeValue_toDigits] at hspelling
    have htext : (toString (Int.ofNat n)).toList = Nat.toDigits 10 n := toList_toString n
    rw [htext]
    exact hspelling
  | negSucc n =>
    have hspelling := Spelling.minus (isDigits_toDigits (n + 1))
    rw [placeValue_toDigits] at hspelling
    rw [toList_toString_negSucc]
    exact hspelling

/-! ### Words -/

/-- The integers that fit into a signed word are those of the signed words. -/
theorem int64?_eq_some_iff {z : Int} {n : Int64} : int64? z = some n ↔ z = n.toInt := by
  have hmin : Int64.minValue.toInt = -2 ^ 63 := rfl
  have hmax : Int64.maxValue.toInt = 2 ^ 63 - 1 := rfl
  unfold int64?
  constructor
  · intro h
    split at h
    · next hfits =>
      obtain rfl := Option.some.inj h
      rw [Int64.toInt_ofInt_of_le (by omega) (by omega)]
    · exact absurd h (by simp)
  · rintro rfl
    rw [if_pos ⟨n.minValue_le_toInt, n.toInt_le⟩, Int64.ofInt_toInt]

theorem uint64?_toNat (n : UInt64) : uint64? n.toNat = some n := by
  have hfits : 0 ≤ (n.toNat : Int) ∧ (n.toNat : Int).toNat < UInt64.size :=
    ⟨Int.natCast_nonneg _, n.toNat_lt_size⟩
  rw [uint64?, if_pos hfits, Int.toNat_natCast, UInt64.ofNat_toNat]

end Tenancy.Numeral
