import Mathlib.Data.List.DropRight
import Tenancy.Json.Reader
import Tenancy.Proofs.Numeral.Spelling

namespace Tenancy.Json

/-!
# JSON spellings — the texts that denote a JSON value

* `StringSpelling`, `NumberSpelling` — the spellings of strings and numbers;
* `Spelling`, `Padded` — the spellings of a value, and those with blanks around them;
* `ItemsSpelling`, `MembersSpelling` — what stands between the brackets of an array and an object;
* `Spelling.readValue` — a spelling is read as its value, in front of every text that is closed;
* `parse_of_padded` — a text that spells a value is read as this value.

One value has many spellings. They differ in the blanks between tokens, in the escapes of
characters, and in fractions and exponents.
-/

open Numeral (IsDigits placeValue)

/-! ### The grammar -/

/-- A row of blanks. -/
def Blanks (ws : List Char) : Prop := ∀ c ∈ ws, isBlank c = true

/-- The spellings of a part of a string. -/
inductive PartSpelling : List Char → StringPart → Prop
  /-- A character as it is. -/
  | plain {c : Char} (hcontrol : 0x20 ≤ c.toNat) (hquote : c ≠ '"') (hescape : c ≠ '\\') :
    PartSpelling [c] (.char c)
  /-- A character by the letter of its escape. -/
  | letter {e c : Char} (h : escape? e = some c) : PartSpelling ['\\', e] (.char c)
  /-- A code unit by its hexadecimal digits. -/
  | unit {a b c d : Char} {n : Nat} (h : hex4? a b c d = some n) :
    PartSpelling ['\\', 'u', a, b, c, d] (.unit n)

/-- The spellings of a row of parts. -/
inductive PartsSpelling : List Char → List StringPart → Prop
  | nil : PartsSpelling [] []
  | cons {cs ds : List Char} {part : StringPart} {parts : List StringPart}
    (h : PartSpelling cs part) (hs : PartsSpelling ds parts) :
    PartsSpelling (cs ++ ds) (part :: parts)

/-- The spellings of a string. -/
inductive StringSpelling : List Char → Option String → Prop
  | mk {cs : List Char} {parts : List StringPart} (h : PartsSpelling cs parts) :
    StringSpelling ('"' :: (cs ++ ['"'])) ((decodeParts parts).map String.ofList)

/-- A row of digits with no zero in front, unless it is the only one. -/
structure IsNatural (ds : List Char) : Prop where
  digits : IsDigits ds
  head : ds.head? = some '0' → ds.length = 1

/-- A fraction, which may be missing: is it there? -/
inductive FractionSpelling : List Char → Bool → Prop
  | absent : FractionSpelling [] false
  | present {ds : List Char} (h : IsDigits ds) : FractionSpelling ('.' :: ds) true

/-- An exponent, which may be missing: is it there? -/
inductive ExponentSpelling : List Char → Bool → Prop
  | absent : ExponentSpelling [] false
  | present {mark : Char} {sign ds : List Char} (hmark : mark = 'e' ∨ mark = 'E')
    (hsign : sign = [] ∨ sign = ['+'] ∨ sign = ['-']) (h : IsDigits ds) :
    ExponentSpelling (mark :: (sign ++ ds)) true

/-- The spellings of a number without a sign. -/
inductive UnsignedSpelling : List Char → Option Nat → Prop
  | mk {ds fs es : List Char} {fraction exponent : Bool} (h : IsNatural ds)
    (hf : FractionSpelling fs fraction) (he : ExponentSpelling es exponent) :
    UnsignedSpelling (ds ++ (fs ++ es))
      (if fraction || exponent then none else some (placeValue ds))

/-- The spellings of a number. -/
inductive NumberSpelling : List Char → Option Int → Prop
  | positive {cs : List Char} {n : Option Nat} (h : UnsignedSpelling cs n) :
    NumberSpelling cs (n.map Int.ofNat)
  | negative {cs : List Char} {n : Option Nat} (h : UnsignedSpelling cs n) :
    NumberSpelling ('-' :: cs) ((n.filter (· ≠ 0)).map fun n => -Int.ofNat n)

/-- The spellings of a string with blanks around them. -/
inductive PaddedString : List Char → Option String → Prop
  | mk {ws cs ws' : List Char} {s : Option String} (hw : Blanks ws) (h : StringSpelling cs s)
    (hw' : Blanks ws') : PaddedString (ws ++ (cs ++ ws')) s

mutual

/-- The spellings of a value. -/
inductive Spelling : List Char → Json → Prop
  | null : Spelling ['n', 'u', 'l', 'l'] null
  | yes : Spelling ['t', 'r', 'u', 'e'] (bool true)
  | no : Spelling ['f', 'a', 'l', 's', 'e'] (bool false)
  | number {cs : List Char} {n : Option Int} (h : NumberSpelling cs n) : Spelling cs (number n)
  | string {cs : List Char} {s : Option String} (h : StringSpelling cs s) : Spelling cs (string s)
  | emptyArray {ws : List Char} (h : Blanks ws) : Spelling ('[' :: (ws ++ [']'])) (array [])
  | array {cs : List Char} {vs : List Json} (h : ItemsSpelling cs vs) :
    Spelling ('[' :: (cs ++ [']'])) (array vs)
  | emptyObject {ws : List Char} (h : Blanks ws) :
    Spelling ('\x7b' :: (ws ++ ['\x7d'])) (object [])
  | object {cs : List Char} {ms : List (Option String × Json)} (h : MembersSpelling cs ms) :
    Spelling ('\x7b' :: (cs ++ ['\x7d'])) (object ms)

/-- The spellings of a value with blanks around them. -/
inductive Padded : List Char → Json → Prop
  | mk {ws cs ws' : List Char} {v : Json} (hw : Blanks ws) (h : Spelling cs v) (hw' : Blanks ws') :
    Padded (ws ++ (cs ++ ws')) v

/-- The spellings of one item or more. -/
inductive ItemsSpelling : List Char → List Json → Prop
  | one {cs : List Char} {v : Json} (h : Padded cs v) : ItemsSpelling cs [v]
  | more {cs ds : List Char} {v : Json} {vs : List Json} (h : Padded cs v)
    (hs : ItemsSpelling ds vs) : ItemsSpelling (cs ++ ',' :: ds) (v :: vs)

/-- The spellings of one member or more. -/
inductive MembersSpelling : List Char → List (Option String × Json) → Prop
  | one {ks cs : List Char} {k : Option String} {v : Json} (hk : PaddedString ks k)
    (h : Padded cs v) : MembersSpelling (ks ++ ':' :: cs) [(k, v)]
  | more {ks cs ds : List Char} {k : Option String} {v : Json} {ms : List (Option String × Json)}
    (hk : PaddedString ks k) (h : Padded cs v) (hs : MembersSpelling ds ms) :
    MembersSpelling (ks ++ ':' :: (cs ++ ',' :: ds)) ((k, v) :: ms)

end

/-! ### Blanks -/

theorem blanks_nil : Blanks [] := fun _ hc => nomatch hc

theorem skipBlanks_append {ws : List Char} (h : Blanks ws) (cs : List Char) :
    skipBlanks (ws ++ cs) = skipBlanks cs :=
  List.dropWhile_append_of_pos h

theorem skipBlanks_cons {c : Char} (h : isBlank c = false) (cs : List Char) :
    skipBlanks (c :: cs) = c :: cs := by
  rw [skipBlanks, List.dropWhile_cons, if_neg (by simp [h])]

theorem skipBlanks_skipBlanks (cs : List Char) : skipBlanks (skipBlanks cs) = skipBlanks cs :=
  List.dropWhile_idempotent _ cs

theorem readValue_skipBlanks (fuel : Nat) (cs : List Char) :
    readValue fuel (skipBlanks cs) = readValue fuel cs := by
  cases fuel with
  | zero => rw [readValue, readValue]
  | succ fuel => rw [readValue, readValue, skipBlanks_skipBlanks]

theorem readItems_skipBlanks (fuel : Nat) (cs : List Char) :
    readItems fuel (skipBlanks cs) = readItems fuel cs := by
  cases fuel with
  | zero => rw [readItems, readItems]
  | succ fuel => rw [readItems, readItems, readValue_skipBlanks]

theorem readMembers_skipBlanks (fuel : Nat) (cs : List Char) :
    readMembers fuel (skipBlanks cs) = readMembers fuel cs := by
  cases fuel with
  | zero => rw [readMembers, readMembers]
  | succ fuel => rw [readMembers, readMembers, skipBlanks_skipBlanks]

/-! ### Strings -/

/-- One part is read in front of what follows it. -/
theorem PartSpelling.readParts {cs : List Char} {part : StringPart} (h : PartSpelling cs part)
    {ds rest : List Char} {parts : List StringPart} (hs : readParts ds = some (parts, rest)) :
    readParts (cs ++ ds) = some (part :: parts, rest) := by
  cases h with
  | @plain c hcontrol hquote hescape =>
    show Json.readParts (c :: ds) = _
    simp [Json.readParts, hescape, hcontrol, hs]
  | @letter e c h =>
    -- The letter `u` starts a code unit and is no escape by itself.
    have he : e ≠ 'u' := by
      rintro rfl
      exact nomatch h
    show Json.readParts ('\\' :: e :: ds) = _
    simp [Json.readParts, he, h, hs]
  | @unit a b c d n h =>
    show Json.readParts ('\\' :: 'u' :: a :: b :: c :: d :: ds) = _
    simp [Json.readParts, h, hs]

theorem PartsSpelling.readParts {cs : List Char} {parts : List StringPart}
    (h : PartsSpelling cs parts) (rest : List Char) :
    readParts (cs ++ '"' :: rest) = some (parts, rest) := by
  induction h with
  | nil => rfl
  | cons hpart _ ih =>
    rw [List.append_assoc]
    exact hpart.readParts ih

/-- A string is read up to its closing quote. -/
theorem StringSpelling.exists_readString {cs : List Char} {s : Option String}
    (h : StringSpelling cs s) :
    ∃ ds, cs = '"' :: ds ∧ ∀ rest, readString (ds ++ rest) = some (s, rest) := by
  obtain ⟨hparts⟩ := h
  refine ⟨_, rfl, fun rest => ?_⟩
  rw [List.append_assoc, List.singleton_append, readString, hparts.readParts rest, Option.map_some]

/-! ### Numbers -/

/-- No number in front of the text can go on with it. -/
def Closed (rest : List Char) : Prop :=
  ∀ c ∈ rest.head?, c.isDigit = false ∧ c ≠ '.' ∧ c ≠ 'e' ∧ c ≠ 'E'

theorem readDigits_append {ds rest : List Char} (h : IsDigits ds)
    (hrest : ∀ c ∈ rest.head?, c.isDigit = false) :
    readDigits (ds ++ rest) = some (ds, rest) := by
  rw [readDigits, Numeral.takeWhile_append_row h.2 hrest, Numeral.dropWhile_append_row h.2 hrest,
    if_neg (by simpa using h.1)]

theorem FractionSpelling.readFraction {fs rest : List Char} {b : Bool}
    (h : FractionSpelling fs b) (hrest : ∀ c ∈ rest.head?, c.isDigit = false ∧ c ≠ '.') :
    readFraction (fs ++ rest) = some (b, rest) := by
  cases h with
  | absent =>
    show Json.readFraction rest = _
    unfold Json.readFraction
    split
    · exact absurd rfl (hrest '.' rfl).2
    · rfl
  | present h =>
    show Json.readFraction ('.' :: (_ ++ rest)) = _
    rw [Json.readFraction, readDigits_append h fun c hc => (hrest c hc).1]
    rfl

/-- The sign of an exponent is passed over. -/
theorem skipSign_append {sign ds : List Char} (hsign : sign = [] ∨ sign = ['+'] ∨ sign = ['-'])
    (h : IsDigits ds) (rest : List Char) : skipSign (sign ++ (ds ++ rest)) = ds ++ rest := by
  obtain ⟨d, ds, rfl⟩ := List.exists_cons_of_ne_nil h.1
  have hd : d.isDigit = true := h.2 d List.mem_cons_self
  rcases hsign with rfl | rfl | rfl
  · show skipSign (d :: (ds ++ rest)) = _
    unfold skipSign
    split <;> simp_all
  · rfl
  · rfl

theorem ExponentSpelling.readExponent {es rest : List Char} {b : Bool}
    (h : ExponentSpelling es b) (hrest : Closed rest) :
    readExponent (es ++ rest) = some (b, rest) := by
  cases h with
  | absent =>
    show Json.readExponent rest = _
    unfold Json.readExponent
    split
    · exact absurd rfl (hrest 'e' rfl).2.2.1
    · exact absurd rfl (hrest 'E' rfl).2.2.2
    · rfl
  | @present mark sign ds hmark hsign h =>
    have hread := readDigits_append h fun c hc => (hrest c hc).1
    rw [List.cons_append, List.append_assoc]
    rcases hmark with rfl | rfl <;>
      rw [Json.readExponent, skipSign_append hsign h, hread, Option.map_some]

/-- Neither a digit nor a point stands where an exponent may stand. -/
theorem ExponentSpelling.head?_append {es rest : List Char} {b : Bool}
    (h : ExponentSpelling es b) (hrest : Closed rest) :
    ∀ c ∈ (es ++ rest).head?, c.isDigit = false ∧ c ≠ '.' := by
  cases h with
  | absent => exact fun c hc => ⟨(hrest c hc).1, (hrest c hc).2.1⟩
  | present hmark _ _ =>
    rintro c hc
    obtain rfl := Option.some.inj hc
    rcases hmark with rfl | rfl <;> decide

/-- No digit stands where a fraction may stand. -/
theorem FractionSpelling.head?_append {fs rest : List Char} {b : Bool}
    (h : FractionSpelling fs b) (hrest : ∀ c ∈ rest.head?, c.isDigit = false) :
    ∀ c ∈ (fs ++ rest).head?, c.isDigit = false := by
  cases h with
  | absent => exact hrest
  | present _ =>
    rintro c hc
    obtain rfl := Option.some.inj hc
    rfl

theorem UnsignedSpelling.readUnsigned {cs rest : List Char} {n : Option Nat}
    (h : UnsignedSpelling cs n) (hrest : Closed rest) :
    readUnsigned (cs ++ rest) = some (n, rest) := by
  obtain @⟨ds, fs, es, fraction, exponent, hnatural, hf, he⟩ := h
  have hexponent := he.head?_append hrest
  have hfraction := hf.head?_append fun c hc => (hexponent c hc).1
  have hlead : (decide (ds.head? = some '0') && decide (ds.length ≠ 1)) = false := by
    by_cases hzero : ds.head? = some '0'
    · simp [hnatural.head hzero]
    · simp [hzero]
  rw [List.append_assoc, List.append_assoc, Json.readUnsigned,
    readDigits_append hnatural.digits hfraction, ← Numeral.ofDigitChars_eq_placeValue]
  simp only [Option.bind_eq_bind, Option.bind_some, hlead, hf.readFraction hexponent,
    he.readExponent hrest, Bool.false_eq_true, if_false]
  rfl

/-- A number starts with a digit or with a minus sign in front of one. -/
theorem UnsignedSpelling.exists_head {cs : List Char} {n : Option Nat}
    (h : UnsignedSpelling cs n) : ∃ d ds, cs = d :: ds ∧ d.isDigit = true := by
  obtain @⟨ds, fs, es, fraction, exponent, hnatural, -, -⟩ := h
  obtain ⟨d, ds, rfl⟩ := List.exists_cons_of_ne_nil hnatural.digits.1
  exact ⟨d, _, rfl, hnatural.digits.2 d List.mem_cons_self⟩

theorem NumberSpelling.readNumber {cs rest : List Char} {n : Option Int}
    (h : NumberSpelling cs n) (hrest : Closed rest) :
    readNumber (cs ++ rest) = some (n, rest) := by
  cases h with
  | positive h =>
    have hread := h.readUnsigned hrest
    obtain ⟨d, ds, rfl, hd⟩ := h.exists_head
    unfold Json.readNumber
    split
    · next hminus =>
      obtain rfl := (List.cons.inj hminus).1
      exact absurd hd (by decide)
    · rw [hread, Option.map_some]
  | negative h =>
    show Json.readNumber ('-' :: (_ ++ rest)) = _
    rw [Json.readNumber, h.readUnsigned hrest, Option.map_some]

theorem NumberSpelling.exists_head {cs : List Char} {n : Option Int} (h : NumberSpelling cs n) :
    ∃ d ds, cs = d :: ds ∧ (d.isDigit = true ∨ d = '-') := by
  cases h with
  | positive h =>
    obtain ⟨d, ds, rfl, hd⟩ := h.exists_head
    exact ⟨d, ds, rfl, .inl hd⟩
  | negative _ => exact ⟨'-', _, rfl, .inr rfl⟩

/-! ### Values -/

theorem closed_cons {c : Char} (h : c.isDigit = false ∧ c ≠ '.' ∧ c ≠ 'e' ∧ c ≠ 'E')
    (rest : List Char) : Closed (c :: rest) := by
  intro d hd
  obtain rfl := Option.some.inj hd
  exact h

/-- Blanks do not open what is closed. -/
theorem Closed.blanks_append {ws rest : List Char} (h : Closed rest) (hw : Blanks ws) :
    Closed (ws ++ rest) := by
  cases ws with
  | nil => exact h
  | cons w ws =>
    refine closed_cons ?_ _
    have hblank : isBlank w = true := hw w List.mem_cons_self
    simp only [isBlank, Bool.or_eq_true, decide_eq_true_eq] at hblank
    rcases hblank with ((rfl | rfl) | rfl) | rfl <;> decide

theorem readValue_blanks_append {ws : List Char} (h : Blanks ws) (fuel : Nat) (cs : List Char) :
    readValue fuel (ws ++ cs) = readValue fuel cs := by
  rw [← readValue_skipBlanks, skipBlanks_append h, readValue_skipBlanks]

/-- A string with blanks around it is read up to its closing quote. -/
theorem PaddedString.exists_readString {cs : List Char} {s : Option String}
    (h : PaddedString cs s) : ∃ ds ws, Blanks ws ∧
      ∀ rest, skipBlanks (cs ++ rest) = '"' :: (ds ++ (ws ++ rest)) ∧
        readString (ds ++ (ws ++ rest)) = some (s, ws ++ rest) := by
  obtain @⟨ws, cs, ws', s, hw, hs, hw'⟩ := h
  obtain ⟨ds, rfl, hread⟩ := hs.exists_readString
  refine ⟨ds, ws', hw', fun rest => ⟨?_, hread _⟩⟩
  rw [List.append_assoc, skipBlanks_append hw, List.cons_append, List.cons_append,
    skipBlanks_cons rfl, List.append_assoc]

theorem isBlank_of_startsNumber {d : Char} (h : d.isDigit = true ∨ d = '-') :
    isBlank d = false := by
  rcases h with h | rfl
  · by_contra hblank
    simp only [isBlank, Bool.not_eq_false, Bool.or_eq_true, decide_eq_true_eq] at hblank
    rcases hblank with ((rfl | rfl) | rfl) | rfl <;> exact absurd h (by decide)
  · rfl

/-- A value starts neither with a blank nor with the end of an array. -/
theorem Spelling.exists_head {cs : List Char} {v : Json} (h : Spelling cs v) :
    ∃ c ds, cs = c :: ds ∧ isBlank c = false ∧ c ≠ ']' := by
  cases h with
  | number h =>
    obtain ⟨d, ds, rfl, hd⟩ := h.exists_head
    refine ⟨d, ds, rfl, isBlank_of_startsNumber hd, ?_⟩
    rintro rfl
    exact absurd hd (by decide)
  | string h =>
    obtain ⟨ds, rfl, -⟩ := h.exists_readString
    exact ⟨'"', ds, rfl, by decide⟩
  | _ => exact ⟨_, _, rfl, by decide⟩

theorem Padded.skipBlanks_ne {cs : List Char} {v : Json} (h : Padded cs v) (rest ds : List Char) :
    skipBlanks (cs ++ rest) ≠ ']' :: ds := by
  obtain ⟨hw, hv, -⟩ := h
  obtain ⟨c, cs, rfl, hblank, hc⟩ := hv.exists_head
  rw [List.append_assoc, skipBlanks_append hw, List.cons_append, List.cons_append,
    skipBlanks_cons hblank]
  exact fun heq => hc (List.cons.inj heq).1

theorem ItemsSpelling.skipBlanks_ne {cs : List Char} {vs : List Json} (h : ItemsSpelling cs vs)
    (rest ds : List Char) : skipBlanks (cs ++ rest) ≠ ']' :: ds := by
  cases h with
  | one h => exact h.skipBlanks_ne rest ds
  | more h _ =>
    rw [List.append_assoc]
    exact h.skipBlanks_ne _ ds

theorem readValue_number (fuel : Nat) {d : Char} (hd : d.isDigit = true ∨ d = '-')
    (cs : List Char) : readValue (fuel + 1) (d :: cs)
      = (readNumber (d :: cs)).map fun (n, rest) => (number n, rest) := by
  rw [readValue, skipBlanks_cons (isBlank_of_startsNumber hd)]
  split <;> simp_all

theorem readValue_string (fuel : Nat) (cs : List Char) : readValue (fuel + 1) ('"' :: cs)
    = (readString cs).map fun (s, rest) => (string s, rest) :=
  rfl

theorem readValue_emptyArray {fuel : Nat} {cs rest : List Char}
    (h : skipBlanks cs = ']' :: rest) :
    readValue (fuel + 1) ('[' :: cs) = some (array [], rest) := by
  have hopen : isBlank '[' = false := rfl
  rw [readValue, skipBlanks_cons hopen]
  simp only [h]

/-- An array that does not end at once has items. -/
theorem readValue_array {fuel : Nat} {cs rest : List Char} {vs : List Json}
    (hne : ∀ ds, skipBlanks cs ≠ ']' :: ds) (h : readItems fuel cs = some (vs, rest)) :
    readValue (fuel + 1) ('[' :: cs) = some (array vs, rest) := by
  have hopen : isBlank '[' = false := rfl
  rw [readValue, skipBlanks_cons hopen]
  -- The branch for an empty array is closed by `hne`.
  simp [readItems_skipBlanks, h]

theorem readValue_emptyObject {fuel : Nat} {cs rest : List Char}
    (h : skipBlanks cs = '\x7d' :: rest) :
    readValue (fuel + 1) ('\x7b' :: cs) = some (object [], rest) := by
  have hopen : isBlank '\x7b' = false := rfl
  rw [readValue, skipBlanks_cons hopen]
  simp only [h]

/-- An object that does not end at once has members. -/
theorem readValue_object {fuel : Nat} {cs rest : List Char} {ms : List (Option String × Json)}
    (hne : ∀ ds, skipBlanks cs ≠ '\x7d' :: ds) (h : readMembers fuel cs = some (ms, rest)) :
    readValue (fuel + 1) ('\x7b' :: cs) = some (object ms, rest) := by
  have hopen : isBlank '\x7b' = false := rfl
  rw [readValue, skipBlanks_cons hopen]
  simp [readMembers_skipBlanks, h]

theorem MembersSpelling.skipBlanks_ne {cs : List Char} {ms : List (Option String × Json)}
    (h : MembersSpelling cs ms) (rest ds : List Char) :
    skipBlanks (cs ++ rest) ≠ '\x7d' :: ds := by
  cases h with
  | one hk _ | more hk _ _ =>
    obtain ⟨ks, ws, -, hread⟩ := hk.exists_readString
    rw [List.append_assoc, (hread _).1]
    exact fun heq => absurd (List.cons.inj heq).1 (by decide)

-- The recursion follows the grammar. A bracket is one character and pays for two calls: the one that
-- reads the bracket, and the one that reads what stands behind it.
mutual

/-- A spelling is read as its value, if no number could go on with what follows it. Two calls for
each character are enough. -/
theorem Spelling.readValue : ∀ {cs : List Char} {v : Json}, Spelling cs v →
    ∀ (fuel : Nat) (rest : List Char), 2 * cs.length ≤ fuel → Closed rest →
      readValue fuel (cs ++ rest) = some (v, rest)
  | _, _, h, 0, rest, hfuel, _ => by
    obtain ⟨c, ds, rfl, -⟩ := h.exists_head
    exact absurd hfuel (by simp)
  | _, _, .null, fuel + 1, rest, _, _ => rfl
  | _, _, .yes, fuel + 1, rest, _, _ => rfl
  | _, _, .no, fuel + 1, rest, _, _ => rfl
  | _, _, .number h, fuel + 1, rest, _, hrest => by
    -- Only a number needs to know what follows: every other value ends with a character of its own.
    have hread := h.readNumber hrest
    obtain ⟨d, ds, rfl, hd⟩ := h.exists_head
    rw [List.cons_append] at hread
    rw [List.cons_append, readValue_number fuel hd, hread, Option.map_some]
  | _, _, .string h, fuel + 1, rest, _, _ => by
    obtain ⟨ds, rfl, hread⟩ := h.exists_readString
    rw [List.cons_append, readValue_string, hread, Option.map_some]
  | _, _, .emptyArray h, fuel + 1, rest, _, _ => by
    rw [List.cons_append, List.append_assoc]
    exact readValue_emptyArray (skipBlanks_append h _)
  | _, _, .array h, fuel + 1, rest, hfuel, _ => by
    simp only [List.length_cons, List.length_append] at hfuel
    rw [List.cons_append, List.append_assoc]
    exact readValue_array (h.skipBlanks_ne _) (h.readItems fuel rest (by omega))
  | _, _, .emptyObject h, fuel + 1, rest, _, _ => by
    rw [List.cons_append, List.append_assoc]
    exact readValue_emptyObject (skipBlanks_append h _)
  | _, _, .object h, fuel + 1, rest, hfuel, _ => by
    simp only [List.length_cons, List.length_append] at hfuel
    rw [List.cons_append, List.append_assoc]
    exact readValue_object (h.skipBlanks_ne _) (h.readMembers fuel rest (by omega))

theorem Padded.readValue : ∀ {cs : List Char} {v : Json}, Padded cs v →
    ∀ (fuel : Nat) (rest : List Char), 2 * cs.length ≤ fuel → Closed rest →
      ∃ ws, Blanks ws ∧ readValue fuel (cs ++ rest) = some (v, ws ++ rest)
  | _, _, .mk hw h hw', fuel, rest, hfuel, hrest => by
    simp only [List.length_append] at hfuel
    refine ⟨_, hw', ?_⟩
    rw [List.append_assoc, List.append_assoc, readValue_blanks_append hw]
    exact h.readValue fuel _ (by omega) (hrest.blanks_append hw')

theorem ItemsSpelling.readItems : ∀ {cs : List Char} {vs : List Json}, ItemsSpelling cs vs →
    ∀ (fuel : Nat) (rest : List Char), 2 * cs.length + 1 ≤ fuel →
      readItems fuel (cs ++ ([']'] ++ rest)) = some (vs, rest)
  | _, _, .one h, fuel + 1, rest, hfuel => by
    obtain ⟨ws, hw, hread⟩ := h.readValue fuel (']' :: rest) (by omega)
      (closed_cons (by decide) _)
    rw [List.singleton_append, Json.readItems, hread]
    simp only [Option.bind_eq_bind, Option.bind_some, skipBlanks_append hw]
    rfl
  | _, _, @ItemsSpelling.more cs ds _ _ h hs, fuel + 1, rest, hfuel => by
    simp only [List.length_append, List.length_cons] at hfuel
    obtain ⟨ws, hw, hread⟩ := h.readValue fuel (',' :: (ds ++ ([']'] ++ rest))) (by omega)
      (closed_cons (by decide) _)
    have hcomma : isBlank ',' = false := rfl
    rw [List.append_assoc, List.cons_append, Json.readItems, hread]
    simp only [Option.bind_eq_bind, Option.bind_some, skipBlanks_append hw,
      skipBlanks_cons hcomma, hs.readItems fuel rest (by omega)]
    rfl

theorem MembersSpelling.readMembers : ∀ {cs : List Char} {ms : List (Option String × Json)},
    MembersSpelling cs ms → ∀ (fuel : Nat) (rest : List Char), 2 * cs.length + 1 ≤ fuel →
      readMembers fuel (cs ++ (['\x7d'] ++ rest)) = some (ms, rest)
  | _, _, @MembersSpelling.one ks cs _ _ hk h, fuel + 1, rest, hfuel => by
    simp only [List.length_append, List.length_cons] at hfuel
    obtain ⟨ds, ws, hws, hkey⟩ := hk.exists_readString
    obtain ⟨hskip, hstring⟩ := hkey (':' :: (cs ++ '\x7d' :: rest))
    obtain ⟨ws', hws', hvalue⟩ := h.readValue fuel ('\x7d' :: rest) (by omega)
      (closed_cons (by decide) _)
    have hcolon : isBlank ':' = false := rfl
    have hclose : isBlank '\x7d' = false := rfl
    rw [List.append_assoc, List.cons_append, List.singleton_append, Json.readMembers, hskip]
    simp only [hstring, Option.bind_eq_bind, Option.bind_some, skipBlanks_append hws,
      skipBlanks_cons hcolon, hvalue, skipBlanks_append hws', skipBlanks_cons hclose]
    rfl
  | _, _, @MembersSpelling.more ks cs ds _ _ _ hk h hs, fuel + 1, rest, hfuel => by
    simp only [List.length_append, List.length_cons] at hfuel
    obtain ⟨es, ws, hws, hkey⟩ := hk.exists_readString
    obtain ⟨hskip, hstring⟩ := hkey (':' :: (cs ++ ',' :: (ds ++ (['\x7d'] ++ rest))))
    obtain ⟨ws', hws', hvalue⟩ := h.readValue fuel (',' :: (ds ++ (['\x7d'] ++ rest)))
      (by omega) (closed_cons (by decide) _)
    have hrest := hs.readMembers fuel rest (by omega)
    have hcolon : isBlank ':' = false := rfl
    have hcomma : isBlank ',' = false := rfl
    rw [List.append_assoc, List.cons_append, List.append_assoc, List.cons_append, Json.readMembers,
      hskip]
    simp only [hstring, Option.bind_eq_bind, Option.bind_some, skipBlanks_append hws,
      skipBlanks_cons hcolon, hvalue, skipBlanks_append hws', skipBlanks_cons hcomma, hrest]
    rfl

end

/-- **A text that spells a value is read as this value,** however it spells it. -/
theorem parse_of_padded {s : String} {v : Json} (h : Padded s.toList v) : parse s = some v := by
  obtain ⟨ws, hws, hread⟩ := h.readValue (2 * s.toList.length + 1) [] (Nat.le_succ _)
    (fun _ hc => nomatch hc)
  rw [List.append_nil] at hread
  have hblank : (skipBlanks (ws ++ [])).isEmpty = true := by
    rw [skipBlanks_append hws]
    rfl
  rw [parse, hread]
  simp only [Option.bind_eq_bind, Option.bind_some, hblank, if_true]

end Tenancy.Json
