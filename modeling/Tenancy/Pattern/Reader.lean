import Tenancy.Pattern.Basic
import Tenancy.Pattern.Folding

namespace Tenancy

/-!
# Reading patterns

* `Pattern.parse` — the pattern that a text denotes.

A text is a choice of sequences. What can stand in a sequence: characters, `.`, `^`, `$`, escapes,
sets in brackets, groups `(…)` and `(?:…)`, switches `(?i)`, and after each of them but a switch
any number of repetitions `*`, `+`, `?`, `{n}`, `{n,}`, `{n,m}`, each with an optional `?`. There is
no look-around and there are no back references; a bracket inside a set, doubled `&`, `-` or `~`
there, and groups with a name are refused as well.
-/

namespace Pattern

/-- What the switches stand at. -/
structure Switches where
  /-- Letter `i`: case variants match. -/
  fold : Bool := false
  /-- Letter `m`: `^` and `$` match at lines. -/
  lines : Bool := false
  /-- Letter `s`: `.` matches a line feed too. -/
  dotAll : Bool := false
  deriving Repr, DecidableEq

/-- Turns a switch on or off. The letter `U` changes only what a repetition prefers, and `u` is on
in any case. -/
def Switches.set (s : Switches) (on : Bool) : Char → Option Switches
  | 'i' => some { s with fold := on }
  | 'm' => some { s with lines := on }
  | 's' => some { s with dotAll := on }
  | 'U' => some s
  | 'u' => if on then some s else none
  | _ => none

/-- Switches up to `)` or `:`, which is left in front of the rest. Letters after `-` turn switches
off; no letter occurs twice, and `-` is followed by one. -/
def readSwitches (s : Switches) (used : List Char) : List Char → Option (Switches × List Char)
  | [] => none
  | c :: cs =>
    if c = ')' || c = ':' then
      if used.head? = some '-' then none else some (s, c :: cs)
    else if c ∈ used then none
    else if c = '-' then readSwitches s ('-' :: used) cs
    else do readSwitches (← s.set ('-' ∉ used) c) (c :: used) cs

/-! ### Characters and sets -/

/-- What an escape means. -/
inductive Escape
  | char (c : Char)
  | ranges (ranges : Ranges)
  | anchor (anchor : Anchor)

/-- Every ASCII character but letters, digits, `<` and `>` stands for itself after a backslash. -/
def isEscapable (c : Char) : Bool := c.toNat < 0x80 && !c.isAlphanum && c ≠ '<' && c ≠ '>'

/-- The meaning of a character after a backslash. -/
def escape? : Char → Option Escape
  | 'd' => some (.ranges Letters.digits)
  | 'D' => some (.ranges Letters.digits.complement)
  | 's' => some (.ranges Letters.spaces)
  | 'S' => some (.ranges Letters.spaces.complement)
  | 'w' => some (.ranges Letters.words)
  | 'W' => some (.ranges Letters.words.complement)
  | 'b' => some (.anchor .boundary)
  | 'B' => some (.anchor .noBoundary)
  | 'A' => some (.anchor .start)
  | 'z' => some (.anchor .stop)
  | 'a' => some (.char '\x07')
  | 't' => some (.char '\t')
  | 'n' => some (.char '\n')
  | 'v' => some (.char '\x0b')
  | 'f' => some (.char '\x0c')
  | 'r' => some (.char '\r')
  | c => if isEscapable c then some (.char c) else none

/-- The set with its case variants, if they are meant. -/
def foldIf (fold : Bool) (rs : Ranges) : Ranges := if fold then Folding.close rs else rs

/-- One part of a set that is no range: a character, or a class. -/
def readItem : List Char → Option ((Char ⊕ Ranges) × List Char)
  | [] => none
  | ['\\'] => none
  | '\\' :: c :: cs =>
    match escape? c with
    | some (.char c) => some (.inl c, cs)
    | some (.ranges rs) => some (.inr rs, cs)
    | _ => none
  | c :: cs => some (.inl c, cs)

/-- A part of a set by itself. -/
def itemOf : Char ⊕ Ranges → Ranges
  | .inl c => .single c
  | .inr rs => rs

/-- The parts of a set up to its closing bracket. The first argument bounds their number. -/
def readItems : Nat → List Char → Option (List Ranges × List Char)
  | 0, _ => none
  | fuel + 1, cs =>
    match cs with
    | ']' :: rest => some ([], rest)
    | '[' :: _ | '&' :: '&' :: _ | '-' :: '-' :: _ | '~' :: '~' :: _ => none
    | cs => do
      let (item, rest) ← readItem cs
      let alone := (readItems fuel rest).map fun (items, rest) => (itemOf item :: items, rest)
      match rest with
      -- A hyphen before the closing bracket stands for itself.
      | '-' :: ']' :: _ | '-' :: '-' :: _ => alone
      | '-' :: rest =>
        let (last, rest) ← readItem rest
        match item, last with
        | .inl first, .inl last =>
          if first ≤ last then
            let (items, rest) ← readItems fuel rest
            return ([(first.toNat, last.toNat)] :: items, rest)
          else none
        | _, _ => none
      | _ => alone

/-- A set after its opening bracket. Hyphens in front stand for themselves, and so does a closing
bracket in front. Case variants are added before the complement is taken. The first argument bounds
the number of parts. -/
def readSet (fuel : Nat) (fold : Bool) (cs : List Char) : Option (CharSet × List Char) := do
  let (negated, cs) := match cs with
    | '^' :: cs => (true, cs)
    | cs => (false, cs)
  let hyphens := (cs.takeWhile (· = '-')).map Ranges.single
  let cs := cs.dropWhile (· = '-')
  let (front, cs) := match hyphens, cs with
    | [], ']' :: cs => ([Ranges.single ']'], cs)
    | _, cs => (hyphens, cs)
  let (items, rest) ← readItems fuel cs
  let parts := front ++ items
  let ranges := foldIf fold (parts.foldr Ranges.union [])
  return (⟨if negated then ranges.complement else ranges, min parts.length 2⟩, rest)

/-- A character that stands for itself. -/
def charOf (s : Switches) (c : Char) : Pattern := char ⟨foldIf s.fold (.single c), 0⟩

/-- One character, class, set or place. The first argument bounds the number of parts of a set. -/
def readAtom (fuel : Nat) (s : Switches) : List Char → Option (Pattern × List Char)
  | [] => none
  | ['\\'] => none
  | '.' :: cs =>
    some (char ⟨if s.dotAll then Ranges.complement [] else (Ranges.single '\n').complement, 0⟩, cs)
  | '^' :: cs => some (anchor (if s.lines then .lineStart else .start), cs)
  | '$' :: cs => some (anchor (if s.lines then .lineStop else .stop), cs)
  | '[' :: cs => (readSet fuel s.fold cs).map fun (set, rest) => (char set, rest)
  | '\\' :: c :: cs =>
    match escape? c with
    | some (.char c) => some (charOf s c, cs)
    | some (.ranges rs) => some (char ⟨rs, 0⟩, cs)
    | some (.anchor a) => some (anchor a, cs)
    | none => none
  | c :: cs =>
    if c = '*' || c = '+' || c = '?' || c = '\x7b' then none else some (charOf s c, cs)

/-! ### Repetitions -/

/-- A count, with white space around it allowed. It is below `2 ^ 32`. -/
def readCount (cs : List Char) : Option (Nat × List Char) :=
  let cs := cs.dropWhile Letters.isSpace
  let digits := cs.takeWhile Char.isDigit
  let n := Nat.ofDigitChars 10 digits 0
  if digits.isEmpty || UInt32.size ≤ n then none
  else some (n, (cs.dropWhile Char.isDigit).dropWhile Letters.isSpace)

/-- The bounds of a counted repetition after its opening brace. -/
def readBounds (cs : List Char) : Option ((Nat × Option Nat) × List Char) := do
  let (least, rest) ← readCount cs
  match rest with
  | '\x7d' :: rest => return ((least, some least), rest)
  | ',' :: '\x7d' :: rest => return ((least, none), rest)
  | ',' :: rest =>
    let (most, rest) ← readCount rest
    match rest with
    | '\x7d' :: rest => if least ≤ most then return ((least, some most), rest) else none
    | _ => none
  | _ => none

/-- The bounds of a repetition in front; nothing if there is no repetition in front. -/
def readRepetition : List Char → Option (Option (Nat × Option Nat) × List Char)
  | '*' :: cs => some (some (0, none), cs)
  | '+' :: cs => some (some (1, none), cs)
  | '?' :: cs => some (some (0, some 1), cs)
  | '\x7b' :: cs => (readBounds cs).map fun (bounds, rest) => (some bounds, rest)
  | cs => some (none, cs)

/-- The text without the mark of a repetition that takes as little as it can. -/
def skipLazy : List Char → List Char
  | '?' :: cs => cs
  | cs => cs

/-- A pattern with the repetitions behind it. The first argument bounds their number. -/
def readRepetitions : Nat → Pattern → List Char → Option (Pattern × List Char)
  | 0, _, _ => none
  | fuel + 1, p, cs => do
    match ← readRepetition cs with
    | (none, rest) => return (p, rest)
    | (some (least, most), rest) =>
      readRepetitions fuel (repeated p least most) (skipLazy rest)

/-! ### Sequences and choices -/

mutual

/-- A choice of sequences up to `)` or the end. A switch inside stays on, also in the alternatives
that follow. -/
def readChoice : Nat → Switches → List Char → Option (Pattern × List Char)
  | 0, _, _ => none
  | fuel + 1, s, cs => do
    let (p, s, rest) ← readSequence fuel s cs
    match rest with
    | '|' :: rest =>
      let (q, rest) ← readChoice fuel s rest
      return (either p q, rest)
    | rest => return (p, rest)

/-- A sequence up to `|`, `)` or the end, and what the switches stand at then. It ends in `empty`,
and a switch is an `empty` in it. -/
def readSequence : Nat → Switches → List Char → Option (Pattern × Switches × List Char)
  | 0, _, _ => none
  | fuel + 1, s, cs => do
    match cs with
    | [] => return (empty, s, [])
    | '|' :: _ | ')' :: _ => return (empty, s, cs)
    | '(' :: '?' :: cs =>
      match ← readSwitches s [] cs with
      -- Before a colon the switches count for the group, otherwise for what follows.
      | (t, ':' :: rest) => readGroup fuel s t false rest
      | (t, _ :: rest) =>
        if cs.head? = some ')' then none
        else
          let (q, s, rest) ← readSequence fuel t rest
          return (seq empty q, s, rest)
      | _ => none
    | '(' :: cs => readGroup fuel s s true cs
    | cs =>
      let (p, rest) ← readAtom fuel s cs
      readRest fuel s p rest

/-- A group after its opening, in which the switches stand at `t`, and the rest of the sequence, in
which they stand at `s` again. -/
def readGroup : Nat → Switches → Switches → Bool → List Char →
    Option (Pattern × Switches × List Char)
  | 0, _, _, _, _ => none
  | fuel + 1, s, t, captured, cs => do
    match ← readChoice fuel t cs with
    | (p, ')' :: rest) => readRest fuel s (group captured p) rest
    | _ => none

/-- The repetitions of a pattern and the rest of the sequence. -/
def readRest : Nat → Switches → Pattern → List Char → Option (Pattern × Switches × List Char)
  | 0, _, _, _ => none
  | fuel + 1, s, p, cs => do
    let (p, rest) ← readRepetitions fuel p cs
    let (q, s, rest) ← readSequence fuel s rest
    return (seq p q, s, rest)

end

/-- The pattern that a text denotes, if it denotes one. No character takes more than four calls, one
inside the other. -/
def parse (text : String) : Option Pattern := do
  match ← readChoice (4 * text.toList.length + 4) {} text.toList with
  | (p, []) => return p
  | _ => none

end Pattern

end Tenancy
