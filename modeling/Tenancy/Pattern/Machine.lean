import Std.Data.HashMap
import Tenancy.Pattern.Encoding
import Tenancy.Pattern.Outline

namespace Tenancy

/-!
# Machines — the size of what looks for a pattern in a text

* `Machine.Size` — the size of a machine, as far as it is built;
* `Machine.add` — the size with an outline added;
* `Machine.whole` — the size of the machine that looks for an outline;
* `Outline.fits` — does the machine stay within the limit?

Two machines look for a pattern, one that reads the bytes of a text forward and one that reads them
backward. A character takes a state for each of its bytes; a set of ASCII characters takes a state
with a list of ranges; any other set takes a tree of states in which equal parts are shared. A
choice takes a fork, and a repetition takes a copy for each round that it counts, and a fork for
each round that it may leave out.
-/

namespace Machine

open Encoding

/-! ### Sizes -/

/-- The size of a machine, as far as it is built. -/
structure Size where
  /-- The number of states. The next state is called by it. -/
  states : Nat := 0
  /-- The number of ranges in states that have a list of them. -/
  ranges : Nat := 0
  /-- The number of ways out of forks. -/
  branches : Nat := 0
  deriving Repr, DecidableEq

/-- The number of bytes that a machine takes. -/
def Size.bytes (s : Size) : Nat := 32 * s.states + 8 * s.ranges + 4 * s.branches

/-- Is the machine within the limit of 10 MiB? -/
def Size.fits (s : Size) : Bool := s.bytes ≤ 10 * 1024 * 1024

/-- With some more states. -/
def Size.withStates (s : Size) (n : Nat) : Size := { s with states := s.states + n }

/-- With one more state that has a list of ranges. -/
def Size.withRanges (s : Size) (n : Nat) : Size :=
  { s with states := s.states + 1, ranges := s.ranges + n }

/-- With one more fork. -/
def Size.withFork (s : Size) (n : Nat) : Size :=
  { s with states := s.states + 1, branches := s.branches + n }

/-! ### Sets of characters -/

/-- A memory of states that are there already, with a fixed number of slots. A new state displaces
the one that its slot held before. -/
structure Memory (κ : Type) where
  /-- The number of slots. -/
  slots : UInt64
  /-- What the slots hold: how a state is made up, and the state. -/
  held : Std.HashMap UInt64 (κ × Nat) := ∅

/-- A digest of some numbers: each is mixed in by an exclusive or and a multiplication. -/
def digest (ns : List Nat) : UInt64 :=
  ns.foldl (fun h n => (h ^^^ n.toUInt64) * 1099511628211) 14695981039346656037

/-- A size, and a memory of the states in it. -/
abbrev Shared (κ : Type) := Size × Memory κ

/-- The state in memory that is made up like this. -/
def Memory.find? {κ : Type} [BEq κ] (memory : Memory κ) (slot : UInt64) (key : κ) : Option Nat :=
  match memory.held[slot]? with
  | some (k, state) => if k == key then some state else none
  | none => none

/-- The state that is made up like this: the one in memory, or else a new one. -/
def Shared.state {κ : Type} [BEq κ] (built : Shared κ) (numbers : List Nat) (key : κ)
    (add : Size → Size) : Nat × Shared κ :=
  let (size, memory) := built
  let slot := digest numbers % memory.slots
  match memory.find? slot key with
  | some state => (state, size, memory)
  | none =>
    (size.states, add size, { memory with held := memory.held.insert slot (key, size.states) })

/-- The rows that start with the same range, together. -/
def groups : List (List ByteRange) → List (ByteRange × List (List ByteRange))
  | [] => []
  | [] :: rest => groups rest
  | (r :: row) :: rest =>
    match groups rest with
    | (r', rows) :: gs => if r = r' then (r, row :: rows) :: gs else (r, [row]) :: (r', rows) :: gs
    | [] => [(r, [row])]

/-- The state from which the rows lead to a target. The first argument bounds their length. -/
def tree (target : Nat) : Nat → List (List ByteRange) → Shared (List (ByteRange × Nat)) →
    Nat × Shared (List (ByteRange × Nat))
  | 0, _, built => (target, built)
  | fuel + 1, rows, built =>
    let (ways, built) := (groups rows).foldl
      (fun (ways, built) (r, rows) =>
        let (next, built) :=
          if rows.all (·.isEmpty) then (target, built) else tree target fuel rows built
        (ways ++ [(r, next)], built))
      ([], built)
    built.state (ways.flatMap fun (r, next) => [r.first, r.last, next]) ways
      (·.withRanges ways.length)

/-- The size with a set of characters added, to be read forward: states that go on alike are
shared. -/
def setForward (rows : List (List ByteRange)) (size : Size) : Size :=
  (tree size.states 4 rows (size.withStates 1, ⟨10000, ∅⟩)).2.1

/-- The size with a set of characters added, to be read backward: a fork with a way for each row,
which share states that lead to the same one. -/
def setBackward (rows : List (List ByteRange)) (size : Size) : Size :=
  (rows.foldl
    (fun (built : Shared (Nat × ByteRange)) row =>
      let (_, size, memory) := row.foldl
        (fun (next, built) r =>
          Shared.state built [next, r.first, r.last] (next, r) (·.withStates 1))
        (size.states + 1, built)
      ({ size with branches := size.branches + 1 }, memory))
    (size.withStates 2, ⟨1000, ∅⟩)).1

/-- The size with a set of characters added. -/
def ofSet (backward : Bool) (rs : Ranges) (size : Size) : Size :=
  if rs.all fun (_, last) => last < 0x80 then (size.withStates 1).withRanges rs.length
  else
    let rows := rs.flatMap fun (first, last) => rows first last
    if backward then setBackward rows size else setForward rows size

/-! ### Choices of texts -/

/-- The texts between the ends of texts: a text that ends closes the row of those before it. -/
def chunks : List (List Nat) → List (List (List Nat))
  | [] => [[]]
  | [] :: rest => [] :: chunks rest
  | text :: rest =>
    match chunks rest with
    | chunk :: others => (text :: chunk) :: others
    | [] => [[text]]

/-- The size with a tree of texts added that starts with a common state. Texts that start alike
share states, unless one that ends there stands between them. The first argument bounds their
length. -/
def texts : Nat → List (List Nat) → Size → Size
  | 0, _, size => size
  | fuel + 1, ts, size =>
    let ends := ts.takeWhile (·.isEmpty)
    let rest := ts.dropWhile (·.isEmpty)
    if rest.isEmpty then size
    else
      let rows := chunks (if ends.isEmpty then rest else [] :: rest)
      let size := rows.foldl
        (fun size row =>
          let firsts := (row.filterMap (·.head?)).eraseDups
          let size := firsts.foldl
            (fun size b => texts fuel ((row.filter (·.head? = some b)).map (·.drop 1)) size) size
          match firsts.length with
          | 0 => size
          | 1 => size.withStates 1
          | n => size.withRanges n)
        size
      let ways := (rows.filter (!·.isEmpty)).length + (rows.length - 1)
      if ways = 1 then size else size.withFork ways

/-- The bytes of a text, if the outline is one that is not empty. -/
def text? : Outline → Option (List Nat)
  | .text [] => none
  | .text points => some (points.flatMap Encoding.bytes)
  | _ => none

/-! ### Outlines -/

/-- Some rounds of building; none is begun outside the limit. -/
def rounds (build : Size → Size) : Nat → Size → Size
  | 0, size => size
  | n + 1, size => if size.fits then rounds build n (build size) else size

/-- Some copies, one after the other; a state if there are none. -/
def copies (build : Size → Size) (n : Nat) (size : Size) : Size :=
  if n = 0 then size.withStates 1 else rounds build n size

/-- The size with a repetition added, given what adds one round. -/
def repeated (once : Size → Size) (moves : Bool) (least : Nat) (most : Option Nat) (size : Size) :
    Size :=
  match least, most with
  | 0, none =>
    -- A round that may match nothing is kept apart from the decision to begin.
    if moves then once (size.withFork 2)
    else (((once size).withFork 2).withFork 2).withStates 1
  | 1, none => (once size).withFork 2
  | n + 2, none => (once (copies once (n + 1) size)).withFork 2
  | 0, some 1 => (once (size.withFork 2)).withStates 1
  | n, some m =>
    let size := copies once n size
    if n = m then size
    else rounds (fun size => once (size.withFork 2)) (m - n) (size.withStates 1)

/-- After a part of a choice, given how many stand in front of it: a way out of the fork. The fork
itself and the end of the choice come with the second part. -/
def closePart : Option Nat → Size → Size
  | none, size => size
  | some turn, size =>
    let size := if turn = 1 then size.withStates 2 else size
    { size with branches := size.branches + 1 }

/-- The size with an outline added. If it is a part or the rest of a choice, the second argument is
the number of parts in front of it. -/
def add (backward : Bool) : Outline → Option Nat → Size → Size
  | .text points, turn, size =>
    closePart turn (size.withStates (max 1 (points.flatMap Encoding.bytes).length))
  | .set rs, turn, size => closePart turn (ofSet backward rs size)
  | .anchor _, turn, size => closePart turn (size.withStates 1)
  | .captured o, turn, size =>
    closePart turn
      (if backward then add backward o none size
      else (add backward o none (size.withStates 1)).withStates 1)
  | .repeated o least most, turn, size =>
    closePart turn (repeated (add backward o none) (o.shortest.any (0 < ·)) least most size)
  | .seq o rest, turn, size =>
    closePart turn
      (if backward then add backward o none (add backward rest none size)
      else add backward rest none (add backward o none size))
  | .either o rest, none, size =>
    match (Outline.either o rest).alternatives.mapM text? with
    | some ts =>
      let ts := if backward then ts.map List.reverse else ts
      texts ((ts.map List.length).sum + 1) ts (size.withStates 1)
    | none => add backward rest (some 1) (closePart (some 0) (add backward o none size))
  | .either o rest, some turn, size =>
    add backward rest (some (turn + 1)) (closePart (some turn) (add backward o none size))

/-- The size of the machine that looks for an outline: what skips the text in front of a match,
unless matches stand at the text's start; what remembers the match, if it is read forward; the
outline; and the end. -/
def whole (backward : Bool) (o : Outline) : Size :=
  let front : Size :=
    if backward && o.atStop || !backward && o.atStart then { states := 1 }
    else { states := 3, ranges := 1, branches := 2 }
  if backward then (add backward o none front).withStates 1
  else (add backward o none (front.withStates 1)).withStates 2

end Machine

/-- Do the machines that look for the outline stay within the limit? -/
def Outline.fits (o : Outline) : Bool := (Machine.whole false o).fits && (Machine.whole true o).fits

end Tenancy
