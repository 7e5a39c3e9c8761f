import Tenancy.Pattern.Letters

namespace Tenancy

/-!
# Patterns — what the texts of a kind look like

* `Pattern` — the syntax of a pattern;
* `Pattern.after` — where a match can end, given where it can start;
* `Pattern.occursIn` — does some part of a text match?

Whether a repetition takes as much or as little as it can makes no difference to that question, so
patterns do not record it. They do record what makes no difference but to their size: groups, and
how sets are written.
-/

namespace Pattern

/-- A set of characters, as it is written. -/
structure CharSet where
  /-- The characters. -/
  ranges : Ranges
  /-- How deep the notation is nested: 0 without brackets, 1 for brackets around one part, 2 for
  brackets around more. -/
  nesting : Nat := 0
  deriving Repr, DecidableEq

/-- A condition on a place in a text. -/
inductive Anchor
  /-- The start of the text. -/
  | start
  /-- The end of the text. -/
  | stop
  /-- The start of a line. -/
  | lineStart
  /-- The end of a line. -/
  | lineStop
  /-- A place between a word character and another one, or the text's start or end. -/
  | boundary
  /-- Any other place. -/
  | noBoundary
  deriving Repr, DecidableEq

end Pattern

open Pattern in
/-- A pattern. -/
inductive Pattern
  /-- Nothing at all. -/
  | empty
  /-- A character of a set. -/
  | char (set : CharSet)
  /-- A place in the text. -/
  | anchor (anchor : Anchor)
  /-- A pattern in parentheses, remembered if it is `captured`. -/
  | group (captured : Bool) (inner : Pattern)
  /-- One pattern after the other. -/
  | seq (first second : Pattern)
  /-- One pattern or the other. -/
  | either (first second : Pattern)
  /-- A pattern repeated from `least` times to `most` times, or without limit. -/
  | repeated (inner : Pattern) (least : Nat) (most : Option Nat)
  deriving Repr, DecidableEq

namespace Pattern

/-- Places between the characters of a text, each counted by the characters before it, in ascending
order. -/
abbrev Places := List Nat

/-- The places in either list. -/
def Places.union : Places → Places → Places
  | [], t => t
  | i :: s, t => t.takeWhile (· < i) ++ i :: Places.union s (t.dropWhile (· ≤ i))

/-- The places in the first list that are not in the second. -/
def Places.without : Places → Places → Places
  | [], _ => []
  | i :: s, t =>
    let t := t.dropWhile (· < i)
    if t.head? = some i then Places.without s t else i :: Places.without s t

/-- Are the characters before and after a place not both or neither word characters? -/
def isBoundary (text : Array Char) (i : Nat) : Bool :=
  let isWordAt (c : Option Char) : Bool := c.any Letters.isWord
  (if i = 0 then false else isWordAt text[i - 1]?) != isWordAt text[i]?

/-- Does the condition hold at the place? -/
def Anchor.holds (text : Array Char) (i : Nat) : Anchor → Bool
  | start => i = 0
  | stop => i = text.size
  | lineStart => i = 0 || text[i - 1]? = some '\n'
  | lineStop => i = text.size || text[i]? = some '\n'
  | boundary => isBoundary text i
  | noBoundary => !isBoundary text i

/-- Exactly `n` steps from the places; a step that leads nowhere new is not repeated. -/
def exactly (step : Places → Places) : Nat → Places → Places
  | 0, s => s
  | n + 1, s => if step s = s then s else exactly step n (step s)

/-- The places seen, and those that at most `n` steps lead to from the new ones among them. Steps go
on from places that no step has led to before, since the others have been gone on from. -/
def upTo (step : Places → Places) : Nat → (seen new : Places) → Places
  | 0, seen, _ => seen
  | n + 1, seen, new =>
    let next := (step new).without seen
    if next.isEmpty then seen else upTo step n (seen.union next) next

/-- The places where a match of the pattern can end that starts at one of the given places. -/
def after (text : Array Char) : Pattern → Places → Places
  | empty, s => s
  | char set, s =>
    s.filterMap fun i => if text[i]?.any set.ranges.holds then some (i + 1) else none
  | anchor a, s => s.filter fun i => a.holds text i
  | group _ p, s => p.after text s
  | seq p q, s => q.after text (p.after text s)
  | either p q, s => (p.after text s).union (q.after text s)
  | repeated p least most, s =>
    let s := exactly (p.after text) least s
    match most with
    | none => upTo (p.after text) (text.size + 1) s s
    | some n => upTo (p.after text) (n - least) s s

/-- Does some part of the text match the pattern? -/
def occursIn (p : Pattern) (text : String) : Bool :=
  let cs := text.toList.toArray
  !(p.after cs (List.range (cs.size + 1))).isEmpty

end Pattern

end Tenancy
