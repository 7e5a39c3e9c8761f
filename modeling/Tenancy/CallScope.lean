import Tenancy.Tenant

namespace Tenancy

/-!
# Call scopes — the tenant of the code that is running

* `Binding` — what a scope binds: a tenant, no tenant, or the write-only flag;
* `Bindings` — what is bound at the moment, as one thread sees it;
* `Bindings.access` — the access that is read off the bindings;
* `Action` — what a task does: read, pause, or run a body within a binding;
* `Action.poll`, `Action.pollAll` — run an action, or a whole task, up to its next pause;
* `Tasks.run` — polls several tasks on one thread in any order.

A binding is installed whenever its body goes on and taken back whenever the body stops, be it for
a pause or for good. So a task that pauses leaves nothing behind, and finds its own bindings when
it goes on.
-/

/-- What is bound at the moment. -/
structure Bindings where
  /-- The tenant, or that there is none, or nothing. -/
  tenant : Option (Option Tenant) := none
  /-- The write-only flag, or nothing. -/
  writeOnly : Option Bool := none
  deriving Repr, DecidableEq

/-- What a scope binds. -/
inductive Binding
  /-- A tenant, or that there is none. -/
  | tenant (tenant : Option Tenant)
  /-- The write-only flag. -/
  | writeOnly (enabled : Bool)
  deriving Repr, DecidableEq

namespace Bindings

/-- The access of the code that is running: no tenant and no write-only mode unless bound. -/
def access (s : Bindings) : Access := ⟨s.tenant.join, s.writeOnly.getD false⟩

/-- The bindings inside a scope. -/
def install (s : Bindings) : Binding → Bindings
  | .tenant t => { s with tenant := some t }
  | .writeOnly b => { s with writeOnly := some b }

/-- The bindings after a scope that was entered at `before`: what the scope has bound is as it was
then. -/
def takeBack (s before : Bindings) : Binding → Bindings
  | .tenant _ => { s with tenant := before.tenant }
  | .writeOnly _ => { s with writeOnly := before.writeOnly }

end Bindings

/-- What a task does. -/
inductive Action
  /-- Reads the access. -/
  | read
  /-- Lets others go on. -/
  | pause
  /-- Runs a body within a binding. -/
  | within (binding : Binding) (body : List Action)
  deriving Repr

/-- What running a task up to its next pause amounts to. -/
structure Polled where
  /-- What was read, in order. -/
  reads : List Access
  /-- What is left to do, if the task has paused; `none` if it has finished. -/
  rest : Option (List Action)
  /-- What is bound afterwards. -/
  bindings : Bindings
  deriving Repr

mutual

/-- Runs an action up to its next pause. -/
def Action.poll (s : Bindings) : Action → Polled
  | .read => ⟨[s.access], none, s⟩
  | .pause => ⟨[], some [], s⟩
  | .within b body =>
    let inner := pollAll (s.install b) body
    ⟨inner.reads, inner.rest.map fun left => [.within b left], inner.bindings.takeBack s b⟩

/-- Runs a list of actions up to the next pause. -/
def Action.pollAll (s : Bindings) : List Action → Polled
  | [] => ⟨[], none, s⟩
  | a :: rest =>
    let first := a.poll s
    match first.rest with
    -- Pausing inside an action pauses the whole list.
    | some left => ⟨first.reads, some (left ++ rest), first.bindings⟩
    | none =>
      let others := pollAll first.bindings rest
      { others with reads := first.reads ++ others.reads }

end

mutual

/-- The number of pauses in an action. -/
def Action.pauses : Action → Nat
  | .read => 0
  | .pause => 1
  | .within _ body => pausesAll body

/-- The number of pauses in a list of actions. -/
def Action.pausesAll : List Action → Nat
  | [] => 0
  | a :: rest => a.pauses + pausesAll rest

end

/-! ### Several tasks on one thread -/

/-- Tasks on one thread. -/
structure Tasks where
  /-- What each task has left to do; `none` if it has finished. -/
  tasks : List (Option (List Action))
  /-- What is bound outside the tasks. -/
  bindings : Bindings := {}
  deriving Repr

/-- What the thread does next. -/
inductive Turn
  /-- Polls a task. -/
  | poll (task : Nat)
  /-- Reads the access outside every task. -/
  | outside
  deriving Repr, DecidableEq

namespace Tasks

/-- Takes one turn. A task that has finished, or does not exist, is passed over. -/
def take (s : Tasks) : Turn → List Access × Tasks
  | .outside => ([s.bindings.access], s)
  | .poll i =>
    match s.tasks[i]? with
    | some (some actions) =>
      let r := Action.pollAll s.bindings actions
      (r.reads, { tasks := s.tasks.set i r.rest, bindings := r.bindings })
    | _ => ([], s)

/-- Takes turns in order. Each reading comes with the turn it belongs to. -/
def run (s : Tasks) : List Turn → List (Turn × Access)
  | [] => []
  | turn :: turns =>
    let (reads, s) := s.take turn
    reads.map (turn, ·) ++ s.run turns

/-- The turns of one round: each task once in order, and then a reading outside. -/
def round (tasks : Nat) : List Turn := (List.range tasks).map .poll ++ [.outside]

/-- Rounds until every task has finished. A task takes one poll more than it pauses. -/
def rounds (tasks : List (List Action)) : List Turn :=
  let polls := tasks.map fun actions => Action.pausesAll actions + 1
  (List.replicate (polls.foldl max 0) (round tasks.length)).flatten

/-- Runs tasks to their end, round by round, on a thread on which nothing is bound. -/
def runAll (tasks : List (List Action)) : List (Turn × Access) :=
  run { tasks := tasks.map some } (rounds tasks)

end Tasks

end Tenancy
