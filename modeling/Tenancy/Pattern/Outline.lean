import Tenancy.Pattern.Basic

namespace Tenancy

/-!
# Outlines — patterns in the form that machines are built from

* `Outline` — a pattern without what its notation adds;
* `Outline.append`, `Outline.choice`, `Outline.iterate` — sequences, choices and repetitions,
  simplified;
* `Pattern.outline` — the outline of a pattern;
* `Outline.shortest`, `Outline.isPlace`, `Outline.atStart`, `Outline.atStop` — what a machine needs
  to know of an outline.

In an outline, neighbouring characters are one text, neither a sequence nor a choice is a part of
its like, a choice of characters or of sets is a set, and what all parts of a choice start with
stands in front of it.
-/

/-- A pattern without what its notation adds. -/
inductive Outline
  /-- Some code points, one after the other. -/
  | text (points : List Nat)
  /-- A character of a set. -/
  | set (ranges : Ranges)
  /-- A place in the text. -/
  | anchor (anchor : Pattern.Anchor)
  /-- Something to be remembered. -/
  | captured (inner : Outline)
  /-- A repetition. -/
  | repeated (inner : Outline) (least : Nat) (most : Option Nat)
  /-- A part of a sequence and the rest of the sequence. -/
  | seq (first rest : Outline)
  /-- A part of a choice and the rest of the choice. -/
  | either (first rest : Outline)
  deriving Repr, DecidableEq

namespace Outline

/-- Nothing at all. -/
def nothing : Outline := text []

/-- One character of a set. -/
def ofRanges : Ranges → Outline
  | [(first, last)] => if first = last then text [first] else set [(first, last)]
  | rs => set rs

/-- Are places all that it can match? -/
def isPlace : Outline → Bool
  | text points => points.isEmpty
  | set _ => false
  | anchor _ => true
  | captured o => o.isPlace
  | repeated o _ _ => o.isPlace
  | seq o rest => o.isPlace && rest.isPlace
  | either o rest => o.isPlace && rest.isPlace

/-- The least number of characters in a match; nothing if a part of it has no match at all. -/
def shortest : Outline → Option Nat
  | text points => some points.length
  | set rs => if rs.isEmpty then none else some 1
  | anchor _ => some 0
  | captured o => o.shortest
  | repeated o least _ => o.shortest.map (· * least)
  | seq o rest => do return (← o.shortest) + (← rest.shortest)
  | either o rest => do return min (← o.shortest) (← rest.shortest)

/-- Does every match start at the start of the text? -/
def atStart : Outline → Bool
  | text _ | set _ => false
  | anchor a => a = .start
  | captured o => o.atStart
  | repeated o least _ => 0 < least && o.atStart
  | seq o rest => o.atStart || o.isPlace && rest.atStart
  | either o rest => o.atStart && rest.atStart

/-- Does every match end at the end of the text? -/
def atStop : Outline → Bool
  | text _ | set _ => false
  | anchor a => a = .stop
  | captured o => o.atStop
  | repeated o least _ => 0 < least && o.atStop
  | seq o rest => rest.atStop || rest.isPlace && o.atStop
  | either o rest => o.atStop && rest.atStop

/-! ### Sequences and repetitions -/

/-- One part, no sequence itself, in front of an outline. -/
def link : Outline → Outline → Outline
  | o, text [] => o
  | text ps, text qs => text (ps ++ qs)
  | text ps, seq (text qs) rest => seq (text (ps ++ qs)) rest
  | o, rest => seq o rest

/-- One outline after the other. -/
def append : Outline → Outline → Outline
  | text [], o => o
  | seq p rest, o => link p (append rest o)
  | p, o => link p o

/-- The parts of a sequence. -/
def parts : Outline → List Outline
  | text [] => []
  | seq o rest => o :: rest.parts
  | o => [o]

/-- A repetition. A place is repeated once at most. -/
def iterate (o : Outline) (least : Nat) (most : Option Nat) : Outline :=
  let (least, most) :=
    if o.isPlace then (min least 1, some (min (most.getD 1) 1)) else (least, most)
  if least = 0 && most = some 0 then nothing
  else if least = 1 && most = some 1 then o
  else repeated o least most

/-! ### Choices -/

/-- The parts of a choice. -/
def alternatives : Outline → List Outline
  | either o rest => o :: rest.alternatives
  | o => [o]

/-- A choice of parts that are no choices themselves. -/
def ofAlternatives : List Outline → Outline
  | [] => set []
  | [o] => o
  | o :: os => either o (ofAlternatives os)

/-- The one character that it matches. -/
def char? : Outline → Option Nat
  | text [c] => some c
  | _ => none

/-- The set of which it matches a character. -/
def set? : Outline → Option Ranges
  | set rs => some rs
  | _ => none

/-- The parts, if it is a sequence. -/
def parts? : Outline → Option (List Outline)
  | seq o rest => some (seq o rest).parts
  | _ => none

/-- Is a part of it remembered? -/
def captures : Outline → Bool
  | text _ | set _ | anchor _ => false
  | captured _ => true
  | repeated o _ _ => o.captures
  | seq o rest => o.captures || rest.captures
  | either o rest => o.captures || rest.captures

/-- What two sequences have in front in common. Parts to be remembered are never the same. -/
def common : List Outline → List Outline → List Outline
  | o :: os, p :: ps => if o = p && !o.captures then o :: common os ps else []
  | _, _ => []

/-- What the outlines have in front in common, if they are sequences. -/
def commonFront (os : List Outline) : List Outline :=
  match os.mapM parts? with
  | some (first :: others) => others.foldl common first
  | _ => []

/-- How many outlines it is built from. -/
def size : Outline → Nat
  | text _ | set _ | anchor _ => 1
  | captured o => o.size + 1
  | repeated o _ _ => o.size + 1
  | seq o rest => o.size + rest.size + 1
  | either o rest => o.size + rest.size + 1

/-- A choice. The first argument bounds how often its parts have a front in common. -/
def choiceWithin : Nat → List Outline → Outline
  | 0, os => ofAlternatives os
  | fuel + 1, os =>
    let os := os.flatMap alternatives
    match os.mapM char?, os.mapM set? with
    | some points, _ => ofRanges (points.foldr (fun c rs => rs.insert c c) [])
    | none, some sets => ofRanges (sets.foldr Ranges.union [])
    | none, none =>
      match commonFront os with
      | [] => ofAlternatives os
      | front =>
        let backs := os.map fun o => (o.parts.drop front.length).foldr append nothing
        front.foldr append (choiceWithin fuel backs)

/-- A choice; there is none if only one part is given. -/
def choice : List Outline → Outline
  | [o] => o
  | os => choiceWithin (os.foldr (fun o n => o.size + n) 0) os

end Outline

namespace Pattern

/-- The outlines of the parts of a choice; of one part, if the pattern is no choice. -/
def outlines : Pattern → List Outline
  | empty => [.nothing]
  | char set => [.ofRanges set.ranges]
  | anchor a => [.anchor a]
  | group true p => [.captured (.choice p.outlines)]
  | group false p => [.choice p.outlines]
  | seq p q => [(Outline.choice p.outlines).append (.choice q.outlines)]
  | either p q => p.outlines ++ q.outlines
  | repeated p least most => [(Outline.choice p.outlines).iterate least most]

/-- The outline of a pattern. -/
def outline (p : Pattern) : Outline := .choice p.outlines

end Pattern

end Tenancy
