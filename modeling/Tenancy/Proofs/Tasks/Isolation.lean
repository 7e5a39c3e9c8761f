import Mathlib.Data.List.Induction
import Tenancy.CallScope

namespace Tenancy

/-!
# Isolation — what tasks on one thread read

A task that is polled installs its bindings again and takes them back when it pauses, so neither the
schedule nor the other tasks can be noticed from within.

* `Binding.innermost` — the access that a nest of scopes stands for;
* `Action.trace` — what a task observes if it is left alone: its readings and its pauses;
* `Action.trace_poll` — a poll makes the trace go on up to the next pause, and leaves nothing bound;
* `Tasks.after` — tasks after some turns, of which `Tasks.bindings_after` and `Tasks.Left.after` say
  what is bound and what is left to do;
* `Tasks.turns_read_own_nests` — whatever the schedule, a reading gives the access of the task's own
  nest.
-/

/-! ### Nests of scopes -/

namespace Binding

/-- The access that a nest of scopes stands for, the innermost scope first: the innermost binding of
a tenant, and the innermost binding of the flag. -/
def innermost : List Binding → Access
  | [] => {}
  | .tenant t :: nest => { innermost nest with tenant := t }
  | .writeOnly b :: nest => { innermost nest with writeOnly := b }

end Binding

namespace Bindings

/-- What is bound inside a nest of scopes. -/
def ofNest : List Binding → Bindings
  | [] => {}
  | b :: nest => (ofNest nest).install b

theorem access_ofNest (nest : List Binding) : (ofNest nest).access = Binding.innermost nest := by
  induction nest with
  | nil => rfl
  | cons b nest ih =>
    rw [access, Access.mk.injEq] at ih
    cases b with
    | tenant t => simp [ofNest, install, access, Binding.innermost, ← ih.2]
    | writeOnly b => simp [ofNest, install, access, Binding.innermost, ← ih.1]

/-- A scope takes back what it has installed. -/
theorem takeBack_install (s : Bindings) (b : Binding) : (s.install b).takeBack s b = s := by
  cases b <;> rfl

end Bindings

/-! ### What a task observes -/

namespace Action

mutual

/-- What an action observes in a nest of scopes if it is left alone: an access for each reading, and
nothing for each pause. -/
def trace (nest : List Binding) : Action → List (Option Access)
  | read => [some (Binding.innermost nest)]
  | pause => [none]
  | within b body => traceAll (b :: nest) body

/-- What a list of actions observes, one after another. -/
def traceAll (nest : List Binding) : List Action → List (Option Access)
  | [] => []
  | a :: rest => a.trace nest ++ traceAll nest rest

end

/-- The readings of a trace after `k` pauses and before the next one. -/
def stretch : Nat → List (Option Access) → List Access
  | _, [] => []
  | 0, none :: _ => []
  | 0, some a :: trace => a :: stretch 0 trace
  | k + 1, none :: trace => stretch k trace
  | k + 1, some _ :: trace => stretch (k + 1) trace

/-- What is observed from a pause on: nothing if there was none. -/
def traceOfRest (nest : List Binding) : Option (List Action) → List (Option Access)
  | none => []
  | some left => none :: traceAll nest left

theorem traceAll_append (nest : List Binding) (as bs : List Action) :
    traceAll nest (as ++ bs) = traceAll nest as ++ traceAll nest bs := by
  induction as with
  | nil => rfl
  | cons a as ih => rw [List.cons_append, traceAll, traceAll, ih, List.append_assoc]

mutual

/-- A poll leaves bound what was bound. -/
theorem bindings_poll (s : Bindings) : ∀ a : Action, (a.poll s).bindings = s
  | read | pause => rfl
  | within b body => by
    rw [poll]
    simp only [bindings_pollAll (s.install b) body, Bindings.takeBack_install]

/-- A poll of a list leaves bound what was bound. -/
theorem bindings_pollAll (s : Bindings) : ∀ as : List Action, (pollAll s as).bindings = s
  | [] => rfl
  | a :: rest => by
    rw [pollAll]
    cases h : (a.poll s).rest with
    | some left => exact bindings_poll s a
    | none =>
      simp only [bindings_poll s a]
      exact bindings_pollAll s rest

end

mutual

/-- What a poll reads is the trace up to the next pause, and what it leaves to do is the rest. -/
theorem trace_poll (nest : List Binding) : ∀ a : Action,
    a.trace nest = (a.poll (.ofNest nest)).reads.map some
      ++ traceOfRest nest (a.poll (.ofNest nest)).rest
  | read => by simp [trace, poll, traceOfRest, Bindings.access_ofNest]
  | pause => rfl
  | within b body => by
    have hbody := trace_pollAll (b :: nest) body
    rw [Bindings.ofNest] at hbody
    rw [trace, poll, hbody]
    -- What the body leaves to do is done inside the scope once more.
    cases (pollAll ((Bindings.ofNest nest).install b) body).rest with
    | none => rfl
    | some left => simp [traceOfRest, traceAll, trace]

/-- The same of a list of actions. -/
theorem trace_pollAll (nest : List Binding) : ∀ as : List Action,
    traceAll nest as = (pollAll (.ofNest nest) as).reads.map some
      ++ traceOfRest nest (pollAll (.ofNest nest) as).rest
  | [] => rfl
  | a :: rest => by
    rw [traceAll, trace_poll nest a, pollAll]
    cases h : (a.poll (.ofNest nest)).rest with
    | some left => simp [traceOfRest, traceAll_append]
    | none => simp [traceOfRest, bindings_poll, trace_pollAll nest rest]

end

/-! ### Stretches -/

theorem stretch_nil (k : Nat) : stretch k [] = [] := by
  cases k <;> rfl

/-- The first stretch are the readings in front of the first pause. -/
theorem stretch_zero (nest : List Binding) (reads : List Access) (rest : Option (List Action)) :
    stretch 0 (reads.map some ++ traceOfRest nest rest) = reads := by
  induction reads with
  | nil => cases rest <;> rfl
  | cons a reads ih => exact congrArg (a :: ·) ih

/-- The later stretches are those of what is left to do. -/
theorem stretch_succ (nest : List Binding) (k : Nat) (reads : List Access)
    (rest : Option (List Action)) :
    stretch (k + 1) (reads.map some ++ traceOfRest nest rest)
      = stretch k (rest.elim [] (traceAll nest)) := by
  induction reads with
  | nil =>
    cases rest with
    | none => exact (stretch_nil _).trans (stretch_nil _).symm
    | some left => rfl
  | cons a reads ih => exact ih

end Action

/-! ### Tasks -/

namespace Tasks

/-- The tasks after some turns. -/
def after (s : Tasks) (turns : List Turn) : Tasks := turns.foldl (fun s turn => (s.take turn).2) s

theorem after_append (s : Tasks) (xs ys : List Turn) :
    s.after (xs ++ ys) = (s.after xs).after ys :=
  List.foldl_append

theorem run_cons (s : Tasks) (turn : Turn) (turns : List Turn) :
    s.run (turn :: turns) = (s.take turn).1.map (turn, ·) ++ (s.take turn).2.run turns :=
  rfl

theorem run_append (s : Tasks) (xs ys : List Turn) :
    s.run (xs ++ ys) = s.run xs ++ (s.after xs).run ys := by
  induction xs generalizing s with
  | nil => rfl
  | cons turn xs ih =>
    rw [List.cons_append, run_cons, ih, run_cons, List.append_assoc]
    rfl

/-- A turn leaves bound what was bound. -/
theorem bindings_take (s : Tasks) (turn : Turn) : (s.take turn).2.bindings = s.bindings := by
  cases turn with
  | outside => rfl
  | poll i =>
    rw [take]
    split
    · exact Action.bindings_pollAll _ _
    · rfl

theorem bindings_after (s : Tasks) (turns : List Turn) : (s.after turns).bindings = s.bindings := by
  induction turns generalizing s with
  | nil => rfl
  | cons turn turns ih => exact (ih _).trans (bindings_take s turn)

theorem length_tasks_take (s : Tasks) (turn : Turn) :
    (s.take turn).2.tasks.length = s.tasks.length := by
  cases turn with
  | outside => rfl
  | poll i =>
    rw [take]
    split
    · exact List.length_set
    · rfl

theorem length_tasks_after (s : Tasks) (turns : List Turn) :
    (s.after turns).tasks.length = s.tasks.length := by
  induction turns generalizing s with
  | nil => rfl
  | cons turn turns ih => exact (ih _).trans (length_tasks_take s turn)

theorem take_poll_of_eq_some {s : Tasks} {i : Nat} {actions : List Action}
    (h : s.tasks[i]? = some (some actions)) : s.take (.poll i)
      = ((Action.pollAll s.bindings actions).reads,
        { tasks := s.tasks.set i (Action.pollAll s.bindings actions).rest
          bindings := (Action.pollAll s.bindings actions).bindings }) := by
  rw [take, h]

/-- A task that has finished, or does not exist, is passed over. -/
theorem take_poll_of_ne_some {s : Tasks} {i : Nat}
    (h : ∀ actions, s.tasks[i]? ≠ some (some actions)) : s.take (.poll i) = ([], s) := by
  rw [take]
  split
  · next actions ha => exact absurd ha (h actions)
  · rfl

/-- A turn polls one task and leaves the others as they are. -/
theorem getElem?_take {s : Tasks} {turn : Turn} {i : Nat} (h : turn ≠ .poll i) :
    (s.take turn).2.tasks[i]? = s.tasks[i]? := by
  cases turn with
  | outside => rfl
  | poll j =>
    have hij : j ≠ i := fun hji => h (congrArg Turn.poll hji)
    rw [take]
    split
    · exact List.getElem?_set_ne hij
    · rfl

/-! ### What is left to do -/

/-- What is left to do of a task that has been polled `n` times: it observes what the body observes
after `n` pauses. -/
def Left (body : List Action) (n : Nat) (rest : Option (List Action)) : Prop :=
  ∀ k, Action.stretch k (rest.elim [] (Action.traceAll []))
    = Action.stretch (n + k) (Action.traceAll [] body)

section

variable {s : Tasks} {i n : Nat} {body : List Action} {rest : Option (List Action)}
  (hbound : s.bindings = {}) (hrest : s.tasks[i]? = some rest) (hleft : Left body n rest)
include hbound hrest hleft

/-- A poll brings the first of the stretches that are left. -/
theorem Left.poll : (s.take (.poll i)).1 = Action.stretch n (Action.traceAll [] body) ∧
    ∃ rest', (s.take (.poll i)).2.tasks[i]? = some rest' ∧ Left body (n + 1) rest' := by
  cases rest with
  | some actions =>
    have htrace : Action.traceAll [] actions = (Action.pollAll {} actions).reads.map some
        ++ Action.traceOfRest [] (Action.pollAll {} actions).rest :=
      Action.trace_pollAll [] actions
    rw [take_poll_of_eq_some hrest, hbound]
    refine ⟨?_, _, List.getElem?_set_self (List.getElem?_eq_some_iff.1 hrest).1, fun k => ?_⟩
    · rw [← Nat.add_zero n, ← hleft 0, Option.elim_some, htrace, Action.stretch_zero]
    · rw [Nat.add_assoc, Nat.add_comm 1, ← hleft (k + 1), Option.elim_some, htrace,
        Action.stretch_succ]
  | none =>
    rw [take_poll_of_ne_some (by simp [hrest])]
    refine ⟨?_, none, hrest, fun k => ?_⟩
    · rw [← Nat.add_zero n, ← hleft 0]
      rfl
    · rw [Nat.add_assoc, ← hleft (1 + k), Option.elim_none, Action.stretch_nil, Action.stretch_nil]

/-- A turn leaves less to do of the task that it polls, and of no other task. -/
theorem Left.take (turn : Turn) : ∃ rest', (s.take turn).2.tasks[i]? = some rest' ∧
    Left body (n + [turn].count (.poll i)) rest' := by
  by_cases hturn : turn = .poll i
  · subst hturn
    rw [List.count_singleton_self]
    exact (Left.poll hbound hrest hleft).2
  · rw [getElem?_take hturn, List.count_singleton, if_neg (by simpa using hturn)]
    exact ⟨rest, hrest, hleft⟩

end

/-! ### Schedules -/

/-- The tasks before the first turn, on a thread on which nothing is bound. -/
def start (bodies : List (List Action)) : Tasks := { tasks := bodies.map some }

variable {bodies : List (List Action)}

/-- After some turns each task has left to do what it observes after as many pauses as it has been
polled. -/
theorem exists_left (before : List Turn) {i : Nat} {body : List Action}
    (hbody : bodies[i]? = some body) : ∃ rest, ((start bodies).after before).tasks[i]? = some rest ∧
      Left body (before.count (.poll i)) rest := by
  induction before using List.reverseRecOn with
  | nil =>
    refine ⟨some body, ?_, fun k => ?_⟩
    · simp [after, start, hbody]
    · rw [List.count_nil, Nat.zero_add]
      rfl
  | append_singleton before turn ih =>
    obtain ⟨rest, hrest, hleft⟩ := ih
    rw [after_append, List.count_append]
    exact Left.take (bindings_after _ before) hrest hleft turn

/-- What a turn reads, by the bodies of the tasks and the turns before it: outside the tasks that
nothing is bound, and in a task what its body observes, if it is left alone, after as many pauses as
the task has been polled. -/
def readings (bodies : List (List Action)) (before : List Turn) : Turn → List Access
  | .outside => [{}]
  | .poll i => (bodies[i]?).elim [] fun body =>
    Action.stretch (before.count (.poll i)) (Action.traceAll [] body)

theorem fst_take_after (before : List Turn) (turn : Turn) :
    (((start bodies).after before).take turn).1 = readings bodies before turn := by
  have hbound : ((start bodies).after before).bindings = {} := bindings_after _ before
  cases turn with
  | outside =>
    rw [take, hbound]
    rfl
  | poll i =>
    rw [readings]
    cases hbody : bodies[i]? with
    | none =>
      have hlength : ((start bodies).after before).tasks.length ≤ i := by
        rw [length_tasks_after, start, List.length_map]
        exact List.getElem?_eq_none_iff.1 hbody
      rw [take_poll_of_ne_some (by simp [List.getElem?_eq_none hlength]), Option.elim_none]
    | some body =>
      obtain ⟨rest, hrest, hleft⟩ := exists_left before hbody
      exact (Left.poll hbound hrest hleft).1

/-- **A task reads its own bindings, whatever the schedule.** Each turn of a schedule reads what
`readings` says. In a task this is what the body of this very task observes, if it is left alone,
between one pause and the next. There a reading gives the access of the nest of scopes around it in
the body: the innermost binding of a tenant and the innermost binding of the flag, no tenant where
there is none and no flag where there is none. A turn leaves bound outside the tasks what was
bound, whatever that is. -/
theorem turns_read_own_nests (bodies : List (List Action)) :
    (∀ before turn turns, (start bodies).run (before ++ turn :: turns)
      = (start bodies).run before ++ (readings bodies before turn).map (turn, ·)
        ++ ((start bodies).after (before ++ [turn])).run turns) ∧
    ∀ (s : Tasks) (turn : Turn), (s.take turn).2.bindings = s.bindings := by
  refine ⟨fun before turn turns => ?_, bindings_take⟩
  rw [run_append, run_cons, fst_take_after, ← List.append_assoc, after_append]
  rfl

/-- While one task pauses in a scope without a tenant, another one reads its own. -/
example : (start [[.within (.tenant (some ⟨"t1"⟩)) [.within (.tenant none) [.pause, .read], .read]],
    [.within (.tenant (some ⟨"t2"⟩)) [.read]]]).run [.poll 0, .poll 1, .outside, .poll 0]
      = [(.poll 1, .ofTenant ⟨"t2"⟩), (.outside, {}), (.poll 0, {}), (.poll 0, .ofTenant ⟨"t1"⟩)] := by
  decide

end Tasks

end Tenancy
