import Tenancy.Plan.Sql
import Tenancy.Proofs.Numeral.Spelling

namespace Tenancy

/-!
# Tokens — SQL text as a reader takes it apart

A reader goes through the text once, one character at a time. A token ends where the next character
cannot belong to it, so tokens need no blanks between them unless both are words.

* `Sql.Token` — keywords, names, parameters, literals and signs;
* `Sql.lex`, `Sql.tokens` — the tokens of a text;
* `Sql.Breaks` — a text with which no token that stands in front of it can go on;
* `Sql.Spells` — a text has certain tokens, whatever text that breaks stands behind it;
* `spells_identifier`, `spells_literal`, `spells_param` — names, values and parameters are single
  tokens, whatever characters they contain;
* `spells_of_isOpen_eq_false` — a text in which all quotes are closed can be read by itself.

Keywords are known by their capitals: a name is written in capitals only between double quotes.
-/

namespace Sql

/-- A token of an SQL text. -/
inductive Token
  /-- A word that is no plain name, such as `AND`. -/
  | keyword (letters : String)
  /-- A name, plain or in double quotes. -/
  | name (name : String)
  /-- A parameter, by its number. -/
  | param (index : Nat)
  /-- A string literal. -/
  | text (text : String)
  /-- An integer. -/
  | number (value : Int)
  /-- Any other character. -/
  | sign (c : Char)
  deriving Repr, DecidableEq

/-! ### Taking a text apart -/

/-- May the character start a word? -/
def isWordStart (c : Char) : Bool := isPlainStart c || ('A' ≤ c && c ≤ 'Z')

/-- May the character stand in a word, after its start? -/
def isWordRest (c : Char) : Bool := isPlainRest c || ('A' ≤ c && c ≤ 'Z')

/-- What stands between quotes. -/
inductive Quote
  /-- A name, between double quotes. -/
  | name
  /-- A string literal, between single quotes. -/
  | text
  deriving Repr, DecidableEq

/-- The quotes themselves. -/
def Quote.char : Quote → Char
  | name => '"'
  | text => '\''

/-- The token for a text between quotes. -/
def Quote.token (q : Quote) (cs : List Char) : Token :=
  match q with
  | name => .name (String.ofList cs)
  | text => .text (String.ofList cs)

/-- What has been read of the next token. -/
inductive Pending
  /-- Nothing. -/
  | blank
  /-- The front of a word. -/
  | word (cs : List Char)
  /-- A dollar sign and digits. -/
  | param (digits : List Char)
  /-- Digits with at most one sign in front. -/
  | number (cs : List Char)
  /-- A quote, and text behind it. -/
  | quoted (q : Quote) (cs : List Char)
  /-- Text between two quotes, of which the second ends it unless a third one follows. -/
  | ended (q : Quote) (cs : List Char)
  /-- A sign. -/
  | sign (c : Char)
  deriving Repr, DecidableEq

namespace Pending

/-- What has been read once `c` has been read behind the end of a token. -/
def start (c : Char) : Pending :=
  if c = ' ' then blank
  else if isWordStart c then word [c]
  else if c = '$' then param []
  else if c.isDigit || c = '-' then number [c]
  else if c = '"' then quoted .name []
  else if c = '\'' then quoted .text []
  else sign c

/-- The token with one more character, if it can go on with this character. -/
def extend : Pending → Char → Option Pending
  | word cs, c => if isWordRest c then some (word (cs ++ [c])) else none
  | param cs, c => if c.isDigit then some (param (cs ++ [c])) else none
  | number cs, c => if c.isDigit then some (number (cs ++ [c])) else none
  | quoted q cs, c => some (if c = q.char then ended q cs else quoted q (cs ++ [c]))
  | ended q cs, c => if c = q.char then some (quoted q (cs ++ [c])) else none
  | blank, _ | sign _, _ => none

/-- The token that has been read when it ends here. A quote that is not closed, and a dollar or a
minus sign without digits, count as signs. -/
def tokens : Pending → List Token
  | blank => []
  | word cs => [if isPlain cs then .name (String.ofList cs) else .keyword (String.ofList cs)]
  | param cs => [(Numeral.natural? cs).elim (.sign '$') .param]
  | number cs => [(Numeral.signed? cs).elim (.sign '-') .number]
  | quoted q _ => [.sign q.char]
  | ended q cs => [q.token cs]
  | sign c => [.sign c]

/-- Is there a quote that is not closed? -/
def isOpen : Pending → Bool
  | quoted .. => true
  | _ => false

/-- Has no token begun that could go on? -/
def isDone : Pending → Bool
  | blank | sign _ => true
  | _ => false

end Pending

/-- The tokens of a text behind what has been read of the first of them. -/
def scan (p : Pending) : List Char → List Token
  | [] => p.tokens
  | c :: cs =>
    match p.extend c with
    | some p' => scan p' cs
    | none => p.tokens ++ scan (.start c) cs

/-- What has been read of the last token of a text, behind what has been read of the first. -/
def pending (p : Pending) : List Char → Pending
  | [] => p
  | c :: cs => pending ((p.extend c).getD (.start c)) cs

/-- The tokens of a row of characters. -/
def lex (cs : List Char) : List Token := scan .blank cs

/-- The tokens of a text. -/
def tokens (s : String) : List Token := lex s.toList

/-! ### Where tokens end -/

/-- No token in front of the character can go on with it, unless a quote is open. -/
def isBreak (c : Char) : Bool := !isWordRest c && c ≠ '"' && c ≠ '\''

/-- No token in front of the text can go on with it, unless a quote is open. -/
def Breaks (cs : List Char) : Prop := ∀ c ∈ cs.head?, isBreak c = true

theorem breaks_nil : Breaks [] := fun _ h => nomatch h

theorem breaks_cons {c : Char} (h : isBreak c = true) (cs : List Char) : Breaks (c :: cs) := by
  intro d hd
  obtain rfl := Option.some.inj hd
  exact h

theorem Breaks.append {cs ds : List Char} (hc : Breaks cs) (hd : Breaks ds) :
    Breaks (cs ++ ds) := by
  cases cs with
  | nil => exact hd
  | cons c cs => exact breaks_cons (hc c rfl) _

theorem isWordRest_of_isDigit {c : Char} (h : c.isDigit = true) : isWordRest c = true := by
  have hrest : ('0' ≤ c && c ≤ '9') = true := by simpa [Char.isDigit, Char.le_def] using h
  simp [isWordRest, isPlainRest, hrest]

/-- A token ends in front of a character that breaks. -/
theorem Pending.extend_of_isBreak {p : Pending} (hp : p.isOpen = false) {c : Char}
    (h : isBreak c = true) : p.extend c = none := by
  have hword : isWordRest c = false := by simp_all [isBreak]
  have hdigit : c.isDigit = false :=
    Bool.eq_false_iff.2 fun hd => by simp [isWordRest_of_isDigit hd] at hword
  cases p with
  | quoted q cs => simp [isOpen] at hp
  | ended q cs => cases q <;> simp_all [extend, isBreak, Quote.char]
  | _ => simp [extend, hword, hdigit]

/-- Nothing goes on where no token has begun, and a sign does not go on. -/
theorem Pending.extend_of_isDone {p : Pending} (hp : p.isDone = true) (c : Char) :
    p.extend c = none := by
  cases p <;> first | rfl | simp [isDone] at hp

/-- A text that the last token in front of it does not go on with does not change the tokens in
front of it. -/
theorem scan_append {p : Pending} {cs ds : List Char}
    (h : ∀ c ∈ ds.head?, (pending p cs).extend c = none) :
    scan p (cs ++ ds) = scan p cs ++ lex ds := by
  induction cs generalizing p with
  | nil =>
    cases ds with
    | nil => exact (List.append_nil _).symm
    | cons d ds =>
      have hend : p.extend d = none := h d rfl
      rw [List.nil_append, scan, scan, hend]
      rfl
  | cons c cs ih =>
    rw [List.cons_append, scan, scan]
    cases hc : p.extend c with
    | none =>
      rw [pending, hc, Option.getD_none] at h
      simp only [ih h, List.append_assoc]
    | some p' =>
      rw [pending, hc, Option.getD_some] at h
      simp only [ih h]

/-- The last token of a text is what has been read of it at the end. -/
theorem exists_scan_eq (p : Pending) (cs : List Char) :
    ∃ front, scan p cs = front ++ (pending p cs).tokens := by
  induction cs generalizing p with
  | nil => exact ⟨[], rfl⟩
  | cons c cs ih =>
    rw [scan, pending]
    cases p.extend c with
    | none =>
      obtain ⟨front, hfront⟩ := ih (.start c)
      exact ⟨p.tokens ++ front, by simp [hfront]⟩
    | some p' => exact ih p'

/-! ### What a text spells -/

/-- The text has the tokens `ts`, whatever text that breaks stands behind it. -/
def Spells (cs : List Char) (ts : List Token) : Prop :=
  ∀ ds, Breaks ds → lex (cs ++ ds) = ts ++ lex ds

/-- The text has the tokens `ts`, whatever text stands behind it. -/
def Leads (cs : List Char) (ts : List Token) : Prop := ∀ ds, lex (cs ++ ds) = ts ++ lex ds

theorem Spells.lex_eq {cs : List Char} {ts : List Token} (h : Spells cs ts) : lex cs = ts := by
  have hnil := h [] breaks_nil
  rwa [List.append_nil, show lex [] = [] from rfl, List.append_nil] at hnil

theorem Spells.append {cs ds : List Char} {ts us : List Token} (hc : Spells cs ts)
    (hd : Spells ds us) (h : Breaks ds) : Spells (cs ++ ds) (ts ++ us) := by
  intro es hes
  rw [List.append_assoc, hc _ (h.append hes), hd es hes, List.append_assoc]

theorem Leads.spells {cs : List Char} {ts : List Token} (h : Leads cs ts) : Spells cs ts :=
  fun ds _ => h ds

theorem Leads.append {cs ds : List Char} {ts us : List Token} (hc : Leads cs ts)
    (hd : Spells ds us) : Spells (cs ++ ds) (ts ++ us) := by
  intro es hes
  rw [List.append_assoc, hc, hd es hes, List.append_assoc]

/-- A text in which no quote is open can be read by itself. -/
theorem spells_of_isOpen_eq_false {cs : List Char} (h : (pending .blank cs).isOpen = false) :
    Spells cs (lex cs) :=
  fun _ hds => scan_append fun c hc => Pending.extend_of_isBreak h (hds c hc)

/-- A text that ends in a blank or in a sign can be read by itself, whatever stands behind it. -/
theorem leads_of_isDone {cs : List Char} (h : (pending .blank cs).isDone = true) :
    Leads cs (lex cs) :=
  fun _ => scan_append fun c _ => Pending.extend_of_isDone h c

/-- Characters with which a token goes on stay in one token. -/
theorem scan_of_extend {p p' : Pending} {cs : List Char} (h : cs.foldlM Pending.extend p = some p')
    (ds : List Char) : scan p (cs ++ ds) = scan p' ds := by
  induction cs generalizing p with
  | nil =>
    obtain rfl := Option.some.inj h
    rfl
  | cons c cs ih =>
    rw [List.foldlM_cons, Option.bind_eq_bind, Option.bind_eq_some_iff] at h
    obtain ⟨p₁, hp₁, hp'⟩ := h
    rw [List.cons_append, scan, hp₁]
    exact ih hp'

/-- A text that is a single token. -/
theorem spells_of_extend {c : Char} {cs : List Char} {p : Pending}
    (h : cs.foldlM Pending.extend (.start c) = some p) (hp : p.isOpen = false) :
    Spells (c :: cs) p.tokens := by
  intro ds hds
  have hstart : lex (c :: cs ++ ds) = scan (.start c) (cs ++ ds) := rfl
  have hend : ∀ d ∈ ds.head?, (pending p []).extend d = none :=
    fun d hd => Pending.extend_of_isBreak hp (hds d hd)
  rw [hstart, scan_of_extend h, ← List.nil_append ds]
  exact scan_append hend

/-! ### Words, numbers and quoted texts -/

/-- A token that goes on with certain characters takes in a row of them. -/
theorem foldlM_extend {f : List Char → Pending} {goesOn : Char → Bool}
    (hgo : ∀ cs c, goesOn c = true → (f cs).extend c = some (f (cs ++ [c])))
    {cs : List Char} (h : cs.all goesOn = true) (front : List Char) :
    cs.foldlM Pending.extend (f front) = some (f (front ++ cs)) := by
  induction cs generalizing front with
  | nil => simp
  | cons c cs ih =>
    rw [List.all_cons, Bool.and_eq_true] at h
    rw [List.foldlM_cons, hgo front c h.1, Option.bind_eq_bind, Option.bind_some, ih h.2,
      List.append_assoc, List.singleton_append]

theorem foldlM_extend_quoted (q : Quote) (acc cs : List Char) :
    (doubled q.char cs ++ [q.char]).foldlM Pending.extend (.quoted q acc)
      = some (.ended q (acc ++ cs)) := by
  induction cs generalizing acc with
  | nil => simp [doubled, Pending.extend]
  | cons c cs ih =>
    rw [doubled]
    split
    · next hc =>
      -- The first of the two quotes ends the text, and the second one takes it up again.
      subst hc
      rw [List.cons_append, List.cons_append, List.foldlM_cons, Pending.extend, if_pos rfl,
        Option.bind_eq_bind, Option.bind_some, List.foldlM_cons, Pending.extend, if_pos rfl,
        Option.bind_eq_bind, Option.bind_some, ih, List.append_assoc, List.singleton_append]
    · next hc =>
      rw [List.cons_append, List.foldlM_cons, Pending.extend, if_neg hc, Option.bind_eq_bind,
        Option.bind_some, ih, List.append_assoc, List.singleton_append]

theorem start_quote (q : Quote) : Pending.start q.char = .quoted q [] := by
  cases q <;> rfl

/-- A text between quotes is one token. -/
theorem spells_enclosed (q : Quote) (cs : List Char) :
    Spells (enclosed q.char cs) [q.token cs] := by
  refine spells_of_extend (p := .ended q cs) ?_ rfl
  rw [start_quote, foldlM_extend_quoted, List.nil_append]

theorem start_of_isPlainStart {c : Char} (h : isPlainStart c = true) :
    Pending.start c = .word [c] := by
  have hblank : c ≠ ' ' := by
    rintro rfl
    exact absurd h (by decide)
  simp [Pending.start, hblank, isWordStart, h]

/-- A name is one token. -/
theorem spells_identifier (s : String) : Spells (identifier s).toList [.name s] := by
  unfold identifier
  split
  · next hplain =>
    cases hs : s.toList with
    | nil => simp [hs, isPlain] at hplain
    | cons c cs =>
      rw [hs, isPlain, Bool.and_eq_true] at hplain
      have hrest : cs.all isWordRest = true := List.all_eq_true.2 fun d hd => by
        simp [isWordRest, List.all_eq_true.1 hplain.2 d hd]
      have hword : Spells (c :: cs) (Pending.word (c :: cs)).tokens := spells_of_extend
        (by
          rw [start_of_isPlainStart hplain.1]
          exact foldlM_extend (f := .word) (fun _ _ hgo => if_pos hgo) hrest [c])
        rfl
      have hname : isPlain (c :: cs) = true := by simp [isPlain, hplain.1, hplain.2]
      rwa [Pending.tokens, if_pos hname, ← hs, String.ofList_toList, hs] at hword
  · have hquoted := spells_enclosed .name s.toList
    rwa [Quote.token, String.ofList_toList, ← String.toList_ofList (l := enclosed _ _)] at hquoted

/-- A string literal is one token. -/
theorem spells_stringLiteral (s : String) : Spells (stringLiteral s).toList [.text s] := by
  have hquoted := spells_enclosed .text s.toList
  rwa [Quote.token, String.ofList_toList, ← String.toList_ofList (l := enclosed _ _)] at hquoted

/-- A parameter is one token. -/
theorem spells_param (n : Nat) : Spells ("$" ++ toString n).toList [.param n] := by
  have hdigits := foldlM_extend (f := .param) (fun _ _ hgo => if_pos hgo)
    (Numeral.all_isDigit_toDigits n) []
  have hparam := spells_of_extend (c := '$') hdigits rfl
  rw [Pending.tokens, List.nil_append, Numeral.natural?_toDigits] at hparam
  rw [String.toList_append, Numeral.toList_toString]
  exact hparam

theorem isWordStart_of_isDigit {c : Char} (h : c.isDigit = true) : isWordStart c = false := by
  have hunderscore : c ≠ '_' := by
    rintro rfl
    exact absurd h (by decide)
  grind [Char.isDigit, isWordStart, isPlainStart, Char.le_def]

theorem start_of_isDigit {c : Char} (h : c.isDigit = true) : Pending.start c = .number [c] := by
  have hblank : c ≠ ' ' := by
    rintro rfl
    exact absurd h (by decide)
  have hdollar : c ≠ '$' := by
    rintro rfl
    exact absurd h (by decide)
  simp [Pending.start, hblank, hdollar, isWordStart_of_isDigit h, h]

/-- The text of an integer starts with a digit or a minus sign, and goes on with digits. -/
theorem exists_start_number (n : Int) : ∃ c cs, (toString n).toList = c :: cs ∧
    Pending.start c = .number [c] ∧ cs.all Char.isDigit = true := by
  cases n with
  | ofNat n =>
    have hall := Numeral.all_isDigit_toDigits n
    have htext : (toString (Int.ofNat n)).toList = Nat.toDigits 10 n := Numeral.toList_toString n
    cases hdigits : Nat.toDigits 10 n with
    | nil => exact absurd hdigits Nat.toDigits_ne_nil
    | cons c cs =>
      rw [hdigits, List.all_cons, Bool.and_eq_true] at hall
      exact ⟨c, cs, htext.trans hdigits, start_of_isDigit hall.1, hall.2⟩
  | negSucc n =>
    exact ⟨'-', _, Numeral.toList_toString_negSucc n, rfl, Numeral.all_isDigit_toDigits (n + 1)⟩

/-- An integer is one token. -/
theorem spells_number (n : Int) : Spells (toString n).toList [.number n] := by
  obtain ⟨c, cs, htext, hstart, hall⟩ := exists_start_number n
  have hread := Numeral.signed?_eq_some_iff.2 (Numeral.spelling_toString n)
  have hnumber : Spells (c :: cs) (Pending.number (c :: cs)).tokens := spells_of_extend
    (by
      rw [hstart]
      exact foldlM_extend (f := .number) (fun _ _ hgo => if_pos hgo) hall [c])
    rfl
  rw [Pending.tokens, ← htext, hread] at hnumber
  exact hnumber

/-- The token of a literal. -/
def Token.ofLiteral : Literal → Token
  | .null => .keyword "NULL"
  | .bool true => .keyword "TRUE"
  | .bool false => .keyword "FALSE"
  | .int n => .number n.toInt
  | .text s => .text s

/-- A literal is one token. -/
theorem spells_literal (v : Literal) : Spells (literal v).toList [.ofLiteral v] := by
  cases v with
  | null =>
    have hnull : Spells "NULL".toList [.keyword "NULL"] := spells_of_isOpen_eq_false rfl
    exact hnull
  | bool b =>
    have hfalse : Spells "FALSE".toList [.keyword "FALSE"] := spells_of_isOpen_eq_false rfl
    have htrue : Spells "TRUE".toList [.keyword "TRUE"] := spells_of_isOpen_eq_false rfl
    cases b
    · exact hfalse
    · exact htrue
  | int n => exact spells_number n.toInt
  | text s => exact spells_stringLiteral s

/-! ### Fragments -/

namespace Fragment

/-- The characters of a fragment with its values written out. -/
def letters (f : Fragment) : List Char := f.inline.toList

@[simp] theorem letters_nil : letters [] = [] := rfl

@[simp] theorem letters_text_cons (s : String) (f : Fragment) :
    letters (.text s :: f) = s.toList ++ letters f :=
  String.toList_append

@[simp] theorem letters_value_cons (v : Literal) (f : Fragment) :
    letters (.value v :: f) = (literal v).toList ++ letters f :=
  String.toList_append

@[simp] theorem letters_append (f g : Fragment) : letters (f ++ g) = letters f ++ letters g := by
  rw [letters, inline_append, String.toList_append]
  rfl

end Fragment

end Sql

/-- A column is written as two names with a dot between them. -/
theorem spells_column (c : Column) :
    Sql.Spells c.sql.toList [.name c.relation.qualifier, .sign '.', .name c.name] := by
  have hdot : Sql.Leads ".".toList [.sign '.'] := Sql.leads_of_isDone rfl
  rw [Column.sql, String.toList_append, String.toList_append, List.append_assoc]
  exact (Sql.spells_identifier _).append (hdot.append (Sql.spells_identifier _))
    (Sql.breaks_cons rfl _)

namespace Plan

open Sql (Fragment Token Spells Leads leads_of_isDone)

/-- Parentheses add two signs. -/
theorem spells_parenthesized {f : Fragment} {ts : List Token} (h : Spells f.letters ts) :
    Spells (parenthesized f).letters (.sign '(' :: (ts ++ [.sign ')'])) := by
  have hopen : Leads "(".toList [.sign '('] := leads_of_isDone rfl
  have hclose : Leads ")".toList [.sign ')'] := leads_of_isDone rfl
  have hend : Spells ")".toList [.sign ')'] := hclose.spells
  simp only [parenthesized, List.cons_append, Fragment.letters_text_cons, Fragment.letters_append,
    Fragment.letters_nil, List.append_nil]
  exact hopen.append (h.append hend (Sql.breaks_cons rfl _))

end Plan

end Tenancy
