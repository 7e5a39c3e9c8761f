import Tenancy.Json.Printer
import Tenancy.Proofs.Json.Grammar

namespace Tenancy.Json

/-!
# Printing JSON — the compact text of a value is one of its spellings

* `stringSpelling_quoted` — a string in quotes, with its escapes, spells the string;
* `numberSpelling_printNumber` — the decimal text of an integer spells it;
* `spelling_printChars` — the compact text of a value spells the value;
* `parse_print` — so it is read as the value.

Only quotes, backslashes and control characters are escaped. A control character without a letter of
its own is written as a code unit, which is never half of a surrogate pair.
-/

open Numeral (IsDigits placeValue)

/-! ### Strings -/

/-- A code unit in front of the surrogates is a character by itself. -/
theorem decodeParts_unit {n : Nat} (h : n < 0xD800) (parts : List StringPart) :
    decodeParts (.unit n :: parts) = (decodeParts parts).map (Char.ofNat n :: ·) := by
  have hlow : ¬ 0xD800 ≤ n := by omega
  have hhigh : ¬ 0xDC00 ≤ n := by omega
  cases parts with
  | nil => simp [decodeParts, hlow]
  | cons part parts =>
    cases part with
    | char c => simp [decodeParts, hlow]
    | unit low => rw [decodeParts]; simp [hlow, hhigh]

/-- The four digits that are written for a control character denote it. -/
theorem hex4?_digitChar {n : Nat} (h : n < 0x20) :
    hex4? '0' '0' (Nat.digitChar (n / 16)) (Nat.digitChar (n % 16)) = some n := by
  have hall : ∀ n < 0x20,
      hex4? '0' '0' (Nat.digitChar (n / 16)) (Nat.digitChar (n % 16)) = some n := by decide
  exact hall n h

/-- The characters that have an escape of one letter. -/
def lettered : List Char := ['"', '\\', '\x08', '\t', '\n', '\x0c', '\r']

theorem exists_escape_of_mem_lettered {c : Char} (h : c ∈ lettered) :
    ∃ e, escape? e = some c ∧ escaped c = ['\\', e] := by
  simp only [lettered, List.mem_cons, List.not_mem_nil, or_false] at h
  rcases h with rfl | rfl | rfl | rfl | rfl | rfl | rfl <;> exact ⟨_, by rfl, rfl⟩

theorem escaped_of_not_mem_lettered {c : Char} (h : c ∉ lettered) : escaped c =
    if c.toNat < 0x20 then
      ['\\', 'u', '0', '0', Nat.digitChar (c.toNat / 16), Nat.digitChar (c.toNat % 16)]
    else [c] := by
  simp only [lettered, List.mem_cons, List.not_mem_nil, or_false, not_or] at h
  simp [escaped, h]

/-- What is written for a character is one part of a string, and this part is the character. -/
theorem exists_partSpelling_escaped (c : Char) : ∃ part, PartSpelling (escaped c) part ∧
    ∀ parts, decodeParts (part :: parts) = (decodeParts parts).map (c :: ·) := by
  by_cases hletter : c ∈ lettered
  · obtain ⟨e, he, htext⟩ := exists_escape_of_mem_lettered hletter
    rw [htext]
    exact ⟨.char c, .letter he, fun _ => rfl⟩
  · rw [escaped_of_not_mem_lettered hletter]
    by_cases hcontrol : c.toNat < 0x20
    · rw [if_pos hcontrol]
      refine ⟨.unit c.toNat, .unit (hex4?_digitChar hcontrol), fun parts => ?_⟩
      rw [decodeParts_unit (by omega), Char.ofNat_toNat]
    · rw [if_neg hcontrol]
      refine ⟨.char c, .plain (by omega) ?_ ?_, fun _ => rfl⟩ <;> rintro rfl <;>
        exact hletter (by decide)

theorem exists_partsSpelling_escaped (cs : List Char) :
    ∃ parts, PartsSpelling (cs.flatMap escaped) parts ∧ decodeParts parts = some cs := by
  induction cs with
  | nil => exact ⟨[], .nil, rfl⟩
  | cons c cs ih =>
    obtain ⟨part, hpart, hdecode⟩ := exists_partSpelling_escaped c
    obtain ⟨parts, hparts, hcs⟩ := ih
    refine ⟨part :: parts, ?_, ?_⟩
    · rw [List.flatMap_cons]
      exact .cons hpart hparts
    · rw [hdecode, hcs, Option.map_some]

/-- A string in quotes, with its escapes, spells the string. -/
theorem stringSpelling_quoted (s : String) : StringSpelling (quoted s) (some s) := by
  obtain ⟨parts, hparts, hdecode⟩ := exists_partsSpelling_escaped s.toList
  have hspelling := StringSpelling.mk hparts
  rw [hdecode, Option.map_some, String.ofList_toList] at hspelling
  exact hspelling

theorem stringSpelling_printString (s : Option String) : StringSpelling (printString s) s := by
  cases s with
  | some s => exact stringSpelling_quoted s
  | none =>
    -- Half of a surrogate pair stands for every string that is no text.
    have hunit : PartSpelling ['\\', 'u', 'd', '8', '0', '0'] (.unit 0xD800) := .unit rfl
    exact .mk (.cons hunit .nil)

/-! ### Numbers -/

/-- The decimal text of a number has no zero in front, unless it is the number zero. -/
theorem head?_toDigits_ne {n : Nat} (h : 0 < n) : (Nat.toDigits 10 n).head? ≠ some '0' := by
  induction n using Nat.strongRecOn with
  | ind n ih =>
    by_cases hn : n < 10
    · rw [Nat.toDigits_of_lt_base hn]
      have hall : ∀ n < 10, 0 < n → [Nat.digitChar n].head? ≠ some '0' := by decide
      exact hall n hn h
    · rw [Nat.toDigits_of_base_le (by omega) (by omega),
        List.head?_append_of_ne_nil _ Nat.toDigits_ne_nil]
      exact ih (n / 10) (by omega) (by omega)

theorem isNatural_toDigits (n : Nat) : IsNatural (Nat.toDigits 10 n) := by
  refine ⟨Numeral.isDigits_toDigits n, fun hzero => ?_⟩
  by_cases hn : 0 < n
  · exact absurd hzero (head?_toDigits_ne hn)
  · obtain rfl : n = 0 := by omega
    rfl

theorem unsignedSpelling_toDigits (n : Nat) : UnsignedSpelling (Nat.toDigits 10 n) (some n) := by
  have hspelling := UnsignedSpelling.mk (isNatural_toDigits n) .absent .absent
  rw [Numeral.placeValue_toDigits, List.append_nil, List.append_nil] at hspelling
  exact hspelling

/-- The decimal text of an integer spells it. -/
theorem numberSpelling_toString (n : Int) : NumberSpelling (toString n).toList (some n) := by
  cases n with
  | ofNat n =>
    have htext : (toString (Int.ofNat n)).toList = Nat.toDigits 10 n := Numeral.toList_toString n
    rw [htext]
    exact .positive (unsignedSpelling_toDigits n)
  | negSucc n =>
    rw [Numeral.toList_toString_negSucc]
    exact .negative (unsignedSpelling_toDigits (n + 1))

theorem numberSpelling_printNumber (n : Option Int) : NumberSpelling (printNumber n) n := by
  cases n with
  | some n => exact numberSpelling_toString n
  | none => exact .negative (unsignedSpelling_toDigits 0)

/-! ### Values -/

/-- A spelling without blanks around it. -/
theorem Spelling.padded {cs : List Char} {v : Json} (h : Spelling cs v) : Padded cs v := by
  have hpadded := Padded.mk blanks_nil h blanks_nil
  rw [List.nil_append, List.append_nil] at hpadded
  exact hpadded

theorem StringSpelling.padded {cs : List Char} {s : Option String} (h : StringSpelling cs s) :
    PaddedString cs s := by
  have hpadded := PaddedString.mk blanks_nil h blanks_nil
  rw [List.nil_append, List.append_nil] at hpadded
  exact hpadded

mutual

/-- The compact text of a value spells it. -/
theorem spelling_printChars : ∀ v : Json, Spelling v.printChars v
  | .null => .null
  | .bool true => .yes
  | .bool false => .no
  | .number n => .number (numberSpelling_printNumber n)
  | .string s => .string (stringSpelling_printString s)
  | .array [] => .emptyArray blanks_nil
  | .array (v :: vs) => by
    obtain ⟨cs, hcs, hitems⟩ := itemsSpelling_printItems v (spelling_printChars v) vs
    rw [printChars, hcs]
    exact .array hitems
  | .object [] => .emptyObject blanks_nil
  | .object ((k, v) :: ms) => by
    obtain ⟨cs, hcs, hmembers⟩ := membersSpelling_printMembers k v (spelling_printChars v) ms
    rw [printChars, hcs]
    exact .object hmembers

theorem itemsSpelling_printItems (v : Json) (hv : Spelling v.printChars v) :
    ∀ vs : List Json, ∃ cs, v.printChars ++ printItems vs = cs ++ [']'] ∧
      ItemsSpelling cs (v :: vs)
  | [] => ⟨v.printChars, by rw [printItems], .one hv.padded⟩
  | w :: vs => by
    obtain ⟨cs, hcs, hitems⟩ := itemsSpelling_printItems w (spelling_printChars w) vs
    refine ⟨v.printChars ++ ',' :: cs, ?_, .more hv.padded hitems⟩
    rw [printItems, hcs, List.append_assoc, List.cons_append]

theorem membersSpelling_printMembers (k : Option String) (v : Json)
    (hv : Spelling v.printChars v) : ∀ ms : List (Option String × Json),
      ∃ cs, printString k ++ ':' :: (v.printChars ++ printMembers ms) = cs ++ ['\x7d'] ∧
        MembersSpelling cs ((k, v) :: ms)
  | [] => by
    refine ⟨_, ?_, .one (stringSpelling_printString k).padded hv.padded⟩
    rw [printMembers, List.append_assoc, List.cons_append]
  | (l, w) :: ms => by
    obtain ⟨cs, hcs, hmembers⟩ := membersSpelling_printMembers l w (spelling_printChars w) ms
    refine ⟨_, ?_, .more (stringSpelling_printString k).padded hv.padded hmembers⟩
    rw [printMembers, hcs, List.append_assoc, List.cons_append, List.append_assoc,
      List.cons_append]

end

/-- A value is read back from its compact text. -/
theorem parse_print (v : Json) : parse v.print = some v := by
  refine parse_of_padded ?_
  rw [print, String.toList_ofList]
  exact (spelling_printChars v).padded

end Tenancy.Json
