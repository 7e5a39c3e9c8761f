import Tenancy.Pattern.Basic

namespace Tenancy

/-!
# Nesting — how deep a pattern is nested

* `Pattern.nesting` — the depth of a pattern as it is written.

Parentheses, repetitions, sequences of more than one part, choices of more than one part, brackets
and rows of more than one part inside brackets count one each.
-/

namespace Pattern

/-- What a pattern is the rest of. -/
inductive Rest
  /-- Of nothing: it stands by itself. -/
  | whole
  /-- Of a sequence. -/
  | ofSequence
  /-- Of a choice. -/
  | ofChoice
  deriving Repr, DecidableEq

/-- The depth of a pattern. The rest of a sequence or of a choice is not nested in it. -/
def depth : Rest → Pattern → Nat
  | _, empty => 0
  | _, char set => set.nesting
  | _, anchor _ => 0
  | _, group _ p => p.depth .whole + 1
  | _, repeated p _ _ => p.depth .whole + 1
  | rest, seq p q =>
    max (p.depth .whole) (q.depth .ofSequence)
      + if rest = .ofSequence || q = empty then 0 else 1
  | rest, either p q =>
    max (p.depth .whole) (q.depth .ofChoice) + if rest = .ofChoice then 0 else 1

/-- The depth of a pattern as it is written. -/
def nesting (p : Pattern) : Nat := p.depth .whole

end Pattern

end Tenancy
