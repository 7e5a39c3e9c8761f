import Tenancy.Proofs.Sql.Tokens

namespace Tenancy.Sql

/-!
# Quoting — names and string literals in front of any text

* `readEnclosed?` — what stands in front of a closing quote, and the text behind this quote;
* `readLiteral?`, `readName?` — the string literal or name in front of a text, and what is left;
* `readLiteral?_stringLiteral`, `readName?_identifier` — what is written as one is read as one;
* `quoted_texts_read_back` — no text can leave its quotes, and no two names are written alike.

A reader cannot know that a quote ends a text before it has seen the next character. This is the
only way in which the text behind can reach into a quoted one.
-/

/-! ### Reading -/

/-- What stands in front of the quote that ends a text, and what stands behind it. Two quotes in a
row are one quote of the text, and one alone ends it. -/
def readEnclosed? (q : Char) : List Char → Option (List Char × List Char)
  | [] => none
  | c :: cs =>
    if c = q then
      match cs with
      | [] => some ([], [])
      | d :: ds =>
        if d = q then (readEnclosed? q ds).map fun (text, rest) => (q :: text, rest)
        else some ([], d :: ds)
    else (readEnclosed? q cs).map fun (text, rest) => (c :: text, rest)

theorem readEnclosed?_cons_of_ne {q c : Char} (h : c ≠ q) (cs : List Char) :
    readEnclosed? q (c :: cs) = (readEnclosed? q cs).map fun (text, rest) => (c :: text, rest) := by
  cases cs <;> simp [readEnclosed?, h]

theorem readEnclosed?_pair (q : Char) (cs : List Char) : readEnclosed? q (q :: q :: cs)
    = (readEnclosed? q cs).map fun (text, rest) => (q :: text, rest) := by
  simp [readEnclosed?]

theorem readEnclosed?_single {q : Char} {rest : List Char} (h : rest.head? ≠ some q) :
    readEnclosed? q (q :: rest) = some ([], rest) := by
  cases rest with
  | nil => simp [readEnclosed?]
  | cons d ds =>
    have hd : d ≠ q := fun hd => h (congrArg some hd)
    simp [readEnclosed?, hd]

/-- The string literal in front of a text, and what is left of the text. -/
def readLiteral? (s : String) : Option (String × String) :=
  match s.toList with
  | '\'' :: cs =>
    (readEnclosed? '\'' cs).map fun (text, rest) => (String.ofList text, String.ofList rest)
  | _ => none

/-- The name in front of a text, and what is left of the text: a name in double quotes, or a row of
characters with which a name goes on. -/
def readName? (goesOn : Char → Bool) (s : String) : Option (String × String) :=
  match s.toList with
  | '"' :: cs =>
    (readEnclosed? '"' cs).map fun (name, rest) => (String.ofList name, String.ofList rest)
  | cs =>
    if (cs.takeWhile goesOn).isEmpty then none
    else some (String.ofList (cs.takeWhile goesOn), String.ofList (cs.dropWhile goesOn))

/-! ### Reading what has been written -/

/-- A text with its quotes doubled is read up to the quote that has been put behind it. -/
theorem readEnclosed?_doubled {q : Char} {rest : List Char} (h : rest.head? ≠ some q)
    (cs : List Char) : readEnclosed? q (doubled q cs ++ q :: rest) = some (cs, rest) := by
  -- `h` is used at the end only: inside, every quote is followed by another one.
  induction cs with
  | nil => exact readEnclosed?_single h
  | cons c cs ih =>
    by_cases hc : c = q
    · subst hc
      rw [doubled, if_pos rfl, List.cons_append, List.cons_append, readEnclosed?_pair, ih]
      rfl
    · rw [doubled, if_neg hc, List.cons_append, readEnclosed?_cons_of_ne hc, ih]
      rfl

theorem toList_enclosed_append (q : Char) (s r : String) :
    (String.ofList (enclosed q s.toList) ++ r).toList
      = q :: (doubled q s.toList ++ q :: r.toList) := by
  rw [String.toList_append, String.toList_ofList, enclosed, List.cons_append, List.append_assoc,
    List.singleton_append]

/-- A string literal is read back in front of every text that does not start with its quote. -/
theorem readLiteral?_stringLiteral (v : String) {r : String} (h : r.toList.head? ≠ some '\'') :
    readLiteral? (stringLiteral v ++ r) = some (v, r) := by
  rw [readLiteral?, stringLiteral, toList_enclosed_append]
  simp only [readEnclosed?_doubled h, Option.map_some, String.ofList_toList]

section

variable {goesOn : Char → Bool} (hplain : ∀ c, isPlainRest c = true → goesOn c = true)

/-- A name in double quotes is read back in front of every text that does not start with one. -/
theorem readName?_quoted (s : String) {r : String} (h : r.toList.head? ≠ some '"') :
    readName? goesOn (String.ofList (enclosed '"' s.toList) ++ r) = some (s, r) := by
  rw [readName?, toList_enclosed_append]
  simp only [readEnclosed?_doubled h, Option.map_some, String.ofList_toList]

/-- The characters of a plain name are plain, and the first is no quote. -/
theorem isPlain_cases {cs : List Char} (h : isPlain cs = true) :
    ∃ d ds, cs = d :: ds ∧ d ≠ '"' ∧ ∀ c ∈ d :: ds, isPlainRest c = true := by
  cases cs with
  | nil => exact absurd h (by simp [isPlain])
  | cons d ds =>
    rw [isPlain, Bool.and_eq_true, List.all_eq_true] at h
    have hd : isPlainRest d = true := by rw [isPlainRest, h.1, Bool.true_or]
    refine ⟨d, ds, rfl, ?_, List.forall_mem_cons.2 ⟨hd, h.2⟩⟩
    rintro rfl
    exact absurd h.1 (by decide)

include hplain in
/-- A plain name is read back in front of every text with which no name goes on. -/
theorem readName?_plain {s r : String} (hs : isPlain s.toList = true)
    (h : ∀ c ∈ r.toList.head?, goesOn c = false) : readName? goesOn (s ++ r) = some (s, r) := by
  obtain ⟨d, ds, hcons, hquote, hall⟩ := isPlain_cases hs
  rw [← hcons] at hall
  have hall : ∀ c ∈ s.toList, goesOn c = true := fun c hc => hplain c (hall c hc)
  have htake : (s ++ r).toList.takeWhile goesOn = s.toList := by
    rw [String.toList_append]
    exact Numeral.takeWhile_append_row hall h
  have hdrop : (s ++ r).toList.dropWhile goesOn = r.toList := by
    rw [String.toList_append]
    exact Numeral.dropWhile_append_row hall h
  unfold readName?
  split
  · next cs hfirst =>
    rw [String.toList_append, hcons, List.cons_append] at hfirst
    exact absurd (List.cons.inj hfirst).1 hquote
  · rw [htake, hdrop, hcons, if_neg (by simp), ← hcons, String.ofList_toList, String.ofList_toList]

include hplain in
/-- A name is read back in front of every text that starts neither with a character of names nor
with a double quote. -/
theorem readName?_identifier (s : String) {r : String}
    (h : ∀ c ∈ r.toList.head?, goesOn c = false ∧ c ≠ '"') :
    readName? goesOn (identifier s ++ r) = some (s, r) := by
  unfold identifier
  split
  · next hs => exact readName?_plain hplain hs fun c hc => (h c hc).1
  · exact readName?_quoted s fun hc => (h '"' hc).2 rfl

/-- **Quoting cannot be escaped.** A string literal in front of any text that does not start with a
single quote is read as the string, and all of the other text is left. The same is true of a name in
front of any text that starts neither with a double quote nor with a character of names, whatever
characters are these, if only those of plain names are among them. So different names are written
differently. -/
theorem quoted_texts_read_back (goesOn : Char → Bool)
    (hplain : ∀ c, isPlainRest c = true → goesOn c = true) :
    (∀ v r : String, r.toList.head? ≠ some '\'' →
      readLiteral? (stringLiteral v ++ r) = some (v, r)) ∧
    (∀ s r : String, (∀ c ∈ r.toList.head?, goesOn c = false ∧ c ≠ '"') →
      readName? goesOn (identifier s ++ r) = some (s, r)) ∧
    ∀ s t : String, identifier s = identifier t → s = t := by
  refine ⟨fun v r h => readLiteral?_stringLiteral v h,
    fun s r h => readName?_identifier hplain s h, fun s t h => ?_⟩
  have hs := readName?_identifier hplain s (r := "") (fun _ hc => nomatch hc)
  have ht := readName?_identifier hplain t (r := "") (fun _ hc => nomatch hc)
  rw [h, ht] at hs
  exact (Prod.mk.inj (Option.some.inj hs)).1.symm

/-- An id that tries to end its literal, and a name that tries to end its quotes. -/
theorem quoted_texts_read_back_hostile :
    readLiteral? (stringLiteral "' OR ''='" ++ " AND $1") = some ("' OR ''='", " AND $1") ∧
    readName? isWordRest (identifier "id\" = $1 --" ++ ".id") = some ("id\" = $1 --", ".id") ∧
    readName? isWordRest (identifier "" ++ " AS o") = some ("", " AS o") := by
  have hplain : ∀ c, isPlainRest c = true → isWordRest c = true :=
    fun c hc => by rw [isWordRest, hc, Bool.true_or]
  obtain ⟨hliteral, hname, -⟩ := quoted_texts_read_back isWordRest hplain
  refine ⟨hliteral _ _ (by decide), hname _ _ fun c hc => ?_, hname _ _ fun c hc => ?_⟩
  · obtain rfl : '.' = c := Option.some.inj hc
    decide
  · obtain rfl : ' ' = c := Option.some.inj hc
    decide

end

end Tenancy.Sql
