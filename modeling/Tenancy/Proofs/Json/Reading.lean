import Tenancy.Proofs.Json.Grammar

namespace Tenancy.Json

/-!
# Reading JSON — what is read has been spelled

* `partsSpelling_of_readParts`, `numberSpelling_of_readNumber` — what is read as a string or as a
  number spells it;
* `spelling_of_readValue` — what is read as a value spells it, but for blanks in front;
* `parse_eq_some_iff` — the texts that are read as a value are its spellings.

Each lemma cuts the text that is read into a spelling and what is left over.
-/

open Numeral (IsDigits)

/-- A reader whose outcome is wrapped has read something, and has left the same text over. -/
theorem exists_of_map_eq_some {α β : Type} (f : α → β) {o : Option (α × List Char)} {b : β}
    {rest : List Char} (h : o.map (fun p => (f p.1, p.2)) = some (b, rest)) :
    ∃ a, o = some (a, rest) ∧ f a = b := by
  obtain ⟨⟨a, rest⟩, ho, h⟩ := Option.map_eq_some_iff.1 h
  obtain ⟨hb, rfl⟩ := Prod.mk.inj h
  exact ⟨a, ho, hb⟩

/-! ### Blanks and words -/

theorem exists_blanks {cs ds : List Char} (h : skipBlanks cs = ds) :
    ∃ ws, Blanks ws ∧ cs = ws ++ ds := by
  refine ⟨cs.takeWhile isBlank, fun c hc => List.mem_takeWhile_imp hc, ?_⟩
  rw [← h]
  exact List.takeWhile_append_dropWhile.symm

theorem eq_of_afterWord? {word : String} {cs rest : List Char} {v w : Json}
    (h : (afterWord? word cs).map (fun rest => (w, rest)) = some (v, rest)) :
    w = v ∧ cs = word.toList ++ rest := by
  obtain ⟨ds, hword, h⟩ := Option.map_eq_some_iff.1 h
  obtain ⟨hw, rfl⟩ := Prod.mk.inj h
  refine ⟨hw, ?_⟩
  unfold afterWord? at hword
  split at hword
  · next hstart =>
    obtain ⟨es, rfl⟩ := List.isPrefixOf_iff_prefix.1 hstart
    rw [List.drop_left, Option.some.injEq] at hword
    rw [hword]
  · exact nomatch hword

/-! ### Strings -/

theorem partsSpelling_of_readParts {cs rest : List Char} {parts : List StringPart}
    (h : readParts cs = some (parts, rest)) :
    ∃ ds, PartsSpelling ds parts ∧ cs = ds ++ '"' :: rest := by
  fun_induction readParts cs generalizing parts rest with
  | case1 => exact nomatch h
  | case2 cs =>
    obtain ⟨rfl, rfl⟩ := Prod.mk.inj (Option.some.inj h)
    exact ⟨[], .nil, rfl⟩
  | case3 a b c d cs ih =>
    obtain ⟨n, hn, h⟩ := Option.bind_eq_some_iff.1 h
    obtain ⟨⟨parts, rest⟩, hread, h⟩ := Option.bind_eq_some_iff.1 h
    obtain ⟨rfl, rfl⟩ := Prod.mk.inj (Option.some.inj h)
    obtain ⟨ds, hds, rfl⟩ := ih hread
    exact ⟨_, .cons (.unit hn) hds, rfl⟩
  | case4 e cs hne ih =>
    obtain ⟨c, hc, h⟩ := Option.bind_eq_some_iff.1 h
    obtain ⟨⟨parts, rest⟩, hread, h⟩ := Option.bind_eq_some_iff.1 h
    obtain ⟨rfl, rfl⟩ := Prod.mk.inj (Option.some.inj h)
    obtain ⟨ds, hds, rfl⟩ := ih hread
    exact ⟨_, .cons (.letter hc) hds, rfl⟩
  | case5 => exact nomatch h
  | case6 c cs hquote _ _ hplain ih =>
    obtain ⟨⟨parts, rest⟩, hread, h⟩ := Option.bind_eq_some_iff.1 h
    obtain ⟨rfl, rfl⟩ := Prod.mk.inj (Option.some.inj h)
    obtain ⟨ds, hds, rfl⟩ := ih hread
    simp only [Bool.or_eq_true, decide_eq_true_eq, not_or, Nat.not_lt] at hplain
    exact ⟨_, .cons (.plain hplain.1 hquote hplain.2) hds, rfl⟩

theorem stringSpelling_of_readString {cs rest : List Char} {s : Option String}
    (h : readString cs = some (s, rest)) :
    ∃ ds, StringSpelling ds s ∧ '"' :: cs = ds ++ rest := by
  obtain ⟨parts, hread, rfl⟩ :=
    exists_of_map_eq_some (fun parts => (decodeParts parts).map String.ofList) h
  obtain ⟨ds, hds, rfl⟩ := partsSpelling_of_readParts hread
  refine ⟨_, .mk hds, ?_⟩
  rw [List.cons_append, List.append_assoc, List.singleton_append]

/-! ### Numbers -/

theorem isDigits_of_readDigits {cs ds rest : List Char} (h : readDigits cs = some (ds, rest)) :
    IsDigits ds ∧ cs = ds ++ rest := by
  unfold readDigits at h
  split at h
  · exact nomatch h
  · next hne =>
    obtain ⟨rfl, rfl⟩ := Prod.mk.inj (Option.some.inj h)
    refine ⟨⟨fun hnil => hne (by rw [hnil]; rfl), fun c hc => List.mem_takeWhile_imp hc⟩, ?_⟩
    exact List.takeWhile_append_dropWhile.symm

theorem fractionSpelling_of_readFraction {cs rest : List Char} {b : Bool}
    (h : readFraction cs = some (b, rest)) : ∃ fs, FractionSpelling fs b ∧ cs = fs ++ rest := by
  unfold readFraction at h
  split at h
  · obtain ⟨ds, hread, rfl⟩ := exists_of_map_eq_some (fun _ => true) h
    obtain ⟨hds, rfl⟩ := isDigits_of_readDigits hread
    exact ⟨_, .present hds, rfl⟩
  · obtain ⟨rfl, rfl⟩ := Prod.mk.inj (Option.some.inj h)
    exact ⟨[], .absent, rfl⟩

theorem exists_sign (cs : List Char) :
    ∃ sign, (sign = [] ∨ sign = ['+'] ∨ sign = ['-']) ∧ cs = sign ++ skipSign cs := by
  unfold skipSign
  split
  · exact ⟨['+'], .inr (.inl rfl), rfl⟩
  · exact ⟨['-'], .inr (.inr rfl), rfl⟩
  · exact ⟨[], .inl rfl, rfl⟩

theorem exponentSpelling_of_mark {mark : Char} (hmark : mark = 'e' ∨ mark = 'E')
    {cs rest : List Char} {b : Bool}
    (h : (readDigits (skipSign cs)).map (fun (_, rest) => (true, rest)) = some (b, rest)) :
    ∃ es, ExponentSpelling es b ∧ mark :: cs = es ++ rest := by
  obtain ⟨ds, hread, rfl⟩ := exists_of_map_eq_some (fun _ => true) h
  obtain ⟨hds, hskip⟩ := isDigits_of_readDigits hread
  obtain ⟨sign, hsign, hcs⟩ := exists_sign cs
  refine ⟨_, .present hmark hsign hds, ?_⟩
  rw [hcs, hskip, List.cons_append, List.append_assoc]

theorem exponentSpelling_of_readExponent {cs rest : List Char} {b : Bool}
    (h : readExponent cs = some (b, rest)) : ∃ es, ExponentSpelling es b ∧ cs = es ++ rest := by
  unfold readExponent at h
  split at h
  · exact exponentSpelling_of_mark (.inl rfl) h
  · exact exponentSpelling_of_mark (.inr rfl) h
  · obtain ⟨rfl, rfl⟩ := Prod.mk.inj (Option.some.inj h)
    exact ⟨[], .absent, rfl⟩

theorem unsignedSpelling_of_readUnsigned {cs rest : List Char} {n : Option Nat}
    (h : readUnsigned cs = some (n, rest)) :
    ∃ ds, UnsignedSpelling ds n ∧ cs = ds ++ rest := by
  unfold readUnsigned at h
  obtain ⟨⟨ds, cs'⟩, hdigits, h⟩ := Option.bind_eq_some_iff.1 h
  dsimp only at h
  split at h
  · exact nomatch h
  · next hlead =>
    obtain ⟨⟨fraction, cs''⟩, hfraction, h⟩ := Option.bind_eq_some_iff.1 h
    obtain ⟨⟨exponent, rest⟩, hexponent, h⟩ := Option.bind_eq_some_iff.1 h
    obtain ⟨rfl, rfl⟩ := Prod.mk.inj (Option.some.inj h)
    obtain ⟨hds, rfl⟩ := isDigits_of_readDigits hdigits
    obtain ⟨fs, hfs, rfl⟩ := fractionSpelling_of_readFraction hfraction
    obtain ⟨es, hes, rfl⟩ := exponentSpelling_of_readExponent hexponent
    have hnatural : IsNatural ds := ⟨hds, fun hzero => by simpa [hzero] using hlead⟩
    refine ⟨ds ++ (fs ++ es), ?_, ?_⟩
    · rw [Numeral.ofDigitChars_eq_placeValue]
      exact .mk hnatural hfs hes
    · rw [List.append_assoc, List.append_assoc]

theorem numberSpelling_of_readNumber {cs rest : List Char} {n : Option Int}
    (h : readNumber cs = some (n, rest)) : ∃ ds, NumberSpelling ds n ∧ cs = ds ++ rest := by
  unfold readNumber at h
  split at h
  · obtain ⟨n, hread, rfl⟩ := exists_of_map_eq_some
      (fun n : Option Nat => (n.filter (· ≠ 0)).map fun n => -Int.ofNat n) h
    obtain ⟨ds, hds, rfl⟩ := unsignedSpelling_of_readUnsigned hread
    exact ⟨_, .negative hds, rfl⟩
  · obtain ⟨n, hread, rfl⟩ := exists_of_map_eq_some (Option.map Int.ofNat) h
    obtain ⟨ds, hds, rfl⟩ := unsignedSpelling_of_readUnsigned hread
    exact ⟨_, .positive hds, rfl⟩

/-! ### Values -/

/-- A value with blanks around it is what has been read as one, up to the next token. -/
theorem exists_padded {ws cs rest ts : List Char} {v : Json} (hws : Blanks ws) (h : Spelling cs v)
    (hrest : skipBlanks rest = ts) : ∃ ds, Padded ds v ∧ ws ++ (cs ++ rest) = ds ++ ts := by
  obtain ⟨ws', hws', rfl⟩ := exists_blanks hrest
  refine ⟨_, .mk hws h hws', ?_⟩
  rw [List.append_assoc, List.append_assoc]

theorem exists_paddedString {ws cs rest ts : List Char} {s : Option String} (hws : Blanks ws)
    (h : StringSpelling cs s) (hrest : skipBlanks rest = ts) :
    ∃ ds, PaddedString ds s ∧ ws ++ (cs ++ rest) = ds ++ ts := by
  obtain ⟨ws', hws', rfl⟩ := exists_blanks hrest
  refine ⟨_, .mk hws h hws', ?_⟩
  rw [List.append_assoc, List.append_assoc]

-- The induction is on the fuel, with the text general: each call hands what it has left over to the
-- next one. Blanks behind a value are found only when the token behind them is looked at.
mutual

/-- What is read as a value spells it, but for blanks in front. -/
theorem spelling_of_readValue : ∀ (fuel : Nat) {cs rest : List Char} {v : Json},
    readValue fuel cs = some (v, rest) →
      ∃ ws ds, Blanks ws ∧ Spelling ds v ∧ cs = ws ++ (ds ++ rest)
  | fuel + 1, cs, rest, v, h => by
    obtain ⟨ws, hws, hcs⟩ := exists_blanks (rfl : skipBlanks cs = skipBlanks cs)
    rw [readValue] at h
    suffices hds : ∃ ds, Spelling ds v ∧ skipBlanks cs = ds ++ rest by
      obtain ⟨ds, hds, hskip⟩ := hds
      exact ⟨ws, ds, hws, hds, hskip ▸ hcs⟩
    split at h
    · next cs' hskip =>
      obtain ⟨s, hread, rfl⟩ := exists_of_map_eq_some string h
      obtain ⟨ds, hds, htext⟩ := stringSpelling_of_readString hread
      exact ⟨ds, .string hds, hskip.trans htext⟩
    · next cs' hskip =>
      split at h
      · next rest' hend =>
        obtain ⟨rfl, rfl⟩ := Prod.mk.inj (Option.some.inj h)
        obtain ⟨ws', hws', rfl⟩ := exists_blanks hend
        refine ⟨_, .emptyArray hws', ?_⟩
        rw [hskip, List.cons_append, List.append_assoc, List.singleton_append]
      · obtain ⟨vs, hread, rfl⟩ := exists_of_map_eq_some array h
        -- The blanks behind the bracket belong to the first item.
        rw [readItems_skipBlanks] at hread
        obtain ⟨ds, hds, htext⟩ := itemsSpelling_of_readItems fuel hread
        refine ⟨_, .array hds, ?_⟩
        rw [hskip, htext, List.cons_append, List.append_assoc, List.singleton_append]
    · next cs' hskip =>
      split at h
      · next rest' hend =>
        obtain ⟨rfl, rfl⟩ := Prod.mk.inj (Option.some.inj h)
        obtain ⟨ws', hws', rfl⟩ := exists_blanks hend
        refine ⟨_, .emptyObject hws', ?_⟩
        rw [hskip, List.cons_append, List.append_assoc, List.singleton_append]
      · obtain ⟨ms, hread, rfl⟩ := exists_of_map_eq_some object h
        rw [readMembers_skipBlanks] at hread
        obtain ⟨ds, hds, htext⟩ := membersSpelling_of_readMembers fuel hread
        refine ⟨_, .object hds, ?_⟩
        rw [hskip, htext, List.cons_append, List.append_assoc, List.singleton_append]
    · next cs' hskip =>
      obtain ⟨rfl, rfl⟩ := eq_of_afterWord? h
      exact ⟨_, .null, hskip⟩
    · next cs' hskip =>
      obtain ⟨rfl, rfl⟩ := eq_of_afterWord? h
      exact ⟨_, .yes, hskip⟩
    · next cs' hskip =>
      obtain ⟨rfl, rfl⟩ := eq_of_afterWord? h
      exact ⟨_, .no, hskip⟩
    · obtain ⟨n, hread, rfl⟩ := exists_of_map_eq_some number h
      obtain ⟨ds, hds, htext⟩ := numberSpelling_of_readNumber hread
      exact ⟨ds, .number hds, htext⟩

theorem itemsSpelling_of_readItems : ∀ (fuel : Nat) {cs rest : List Char} {vs : List Json},
    readItems fuel cs = some (vs, rest) → ∃ ds, ItemsSpelling ds vs ∧ cs = ds ++ ']' :: rest
  | fuel + 1, cs, rest, vs, h => by
    rw [readItems] at h
    obtain ⟨⟨v, rest₁⟩, hread, h⟩ := Option.bind_eq_some_iff.1 h
    obtain ⟨ws, ds, hws, hds, hcs⟩ := spelling_of_readValue fuel hread
    dsimp only at h
    split at h
    · next rest₂ hend =>
      obtain ⟨rfl, rfl⟩ := Prod.mk.inj (Option.some.inj h)
      obtain ⟨es, hes, htext⟩ := exists_padded hws hds hend
      exact ⟨es, .one hes, hcs.trans htext⟩
    · next rest₂ hcomma =>
      obtain ⟨⟨vs, rest⟩, hmore, h⟩ := Option.bind_eq_some_iff.1 h
      obtain ⟨rfl, rfl⟩ := Prod.mk.inj (Option.some.inj h)
      obtain ⟨es, hes, htext⟩ := exists_padded hws hds hcomma
      obtain ⟨fs, hfs, rfl⟩ := itemsSpelling_of_readItems fuel hmore
      refine ⟨_, .more hes hfs, ?_⟩
      rw [hcs, htext, List.append_assoc, List.cons_append]
    · exact nomatch h

theorem membersSpelling_of_readMembers : ∀ (fuel : Nat) {cs rest : List Char}
    {ms : List (Option String × Json)}, readMembers fuel cs = some (ms, rest) →
      ∃ ds, MembersSpelling ds ms ∧ cs = ds ++ '\x7d' :: rest
  | fuel + 1, cs, rest, ms, h => by
    rw [readMembers] at h
    split at h
    · next cs' hquote =>
      obtain ⟨ws, hws, rfl⟩ := exists_blanks hquote
      obtain ⟨⟨k, rest₁⟩, hkey, h⟩ := Option.bind_eq_some_iff.1 h
      dsimp only at h
      split at h
      · next rest₂ hcolon =>
        obtain ⟨⟨v, rest₃⟩, hread, h⟩ := Option.bind_eq_some_iff.1 h
        obtain ⟨ks, hks, hktext⟩ := stringSpelling_of_readString hkey
        obtain ⟨js, hjs, hjtext⟩ := exists_paddedString hws hks hcolon
        obtain ⟨ws', ds, hws', hds, hvtext⟩ := spelling_of_readValue fuel hread
        rw [hktext, hjtext, hvtext]
        dsimp only at h
        split at h
        · next rest₄ hend =>
          obtain ⟨rfl, rfl⟩ := Prod.mk.inj (Option.some.inj h)
          obtain ⟨es, hes, htext⟩ := exists_padded hws' hds hend
          refine ⟨_, .one hjs hes, ?_⟩
          rw [htext, List.append_assoc, List.cons_append]
        · next rest₄ hcomma =>
          obtain ⟨⟨ms, rest⟩, hread, h⟩ := Option.bind_eq_some_iff.1 h
          obtain ⟨rfl, rfl⟩ := Prod.mk.inj (Option.some.inj h)
          obtain ⟨es, hes, htext⟩ := exists_padded hws' hds hcomma
          obtain ⟨fs, hfs, rfl⟩ := membersSpelling_of_readMembers fuel hread
          refine ⟨_, .more hjs hes hfs, ?_⟩
          rw [htext, List.append_assoc, List.cons_append, List.append_assoc, List.cons_append]
        · exact nomatch h
      · exact nomatch h
    · exact nomatch h

end

/-- **The texts that are read as a value are its spellings.** -/
theorem parse_eq_some_iff {s : String} {v : Json} : parse s = some v ↔ Padded s.toList v := by
  constructor
  · intro h
    obtain ⟨⟨v', rest⟩, hread, h⟩ := Option.bind_eq_some_iff.1 h
    obtain ⟨ws, ds, hws, hds, htext⟩ := spelling_of_readValue _ hread
    dsimp only at h
    split at h
    · next hrest =>
      obtain rfl := Option.some.inj h
      obtain ⟨es, hes, heq⟩ := exists_padded hws hds (List.isEmpty_iff.1 hrest)
      rw [htext, heq, List.append_nil]
      exact hes
    · exact nomatch h
  · exact parse_of_padded

end Tenancy.Json
