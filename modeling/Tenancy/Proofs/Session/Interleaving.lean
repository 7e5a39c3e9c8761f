import Tenancy.Proofs.Session.Transparency

namespace Tenancy

/-!
# Interleaving — lookups during which other things happen

A lookup asks once whether its table is a tenant table. If it has to build a plan, it does so in a
second step and keeps the plan in a third one. In between, the builder itself or another caller may
put requests to the session.

* `Session.begin`, `Session.proceed` — the steps of a lookup;
* `find_eq_steps`, `answer_fetch_eq_steps` — a whole lookup takes these steps in a row, with the
  inner requests of a builder behind the first one;
* `Traffic`, `Traffic.step`, `Traffic.run` — lookups under way, and what may happen next;
* `Traffic.races` — a lookup builds with a tenant condition what it began as a plan for all tenants;
* `Traffic.Private` — no tenant condition is kept, and no lookup finds that of another tenant;
* `private_unless_raced` — a run without races keeps everything private, and a race is enough to
  break that;
* `kept_plan_of_another_tenant` — a run with a race.
-/

namespace Session

/-- How far a lookup has come. -/
inductive Stage
  /-- Its table was a tenant table: a plan is to be built and not to be kept. -/
  | bypassing
  /-- Its table was no tenant table and no plan was kept: one is to be built and kept. -/
  | missing
  /-- A plan has been built and is to be kept. -/
  | storing (plan : Plan)
  /-- The lookup has its answer. -/
  | done (plan : Except ScopeError Plan)

/-- The first step of a lookup: how it is to be answered. -/
def begin (s : Session) (k : Lookup) : Stage × Session :=
  match s.route k with
  | .bypass => (.bypassing, { s with cache := s.cache.countBypass })
  | .hit p => (.done (.ok p), { s with cache := s.cache.countHit })
  | .miss => (.missing, s)

/-- The next step of a lookup. -/
def proceed (s : Session) (k : Lookup) (access : Access) : Stage → Stage × Session
  | .bypassing => (.done (s.build access k.plan).value, s)
  | .missing =>
    match (s.build access k.plan).value with
    | .error e => (.done (.error e), s)
    | .ok p => (.storing p, s)
  | .storing p => (.done (.ok (s.cache.store k p).1), { s with cache := (s.cache.store k p).2 })
  | .done r => (.done r, s)

/-- A lookup that nothing interferes with takes its steps one after another. -/
theorem find_eq_steps (s : Session) (k : Lookup) (access : Access) :
    let first := s.begin k
    let second := first.2.proceed k access first.1
    let third := second.2.proceed k access second.1
    third = (.done (s.find k access).value.1, (s.find k access).value.2) := by
  intro first second third
  simp only [third, second, first, begin, find, fetch]
  cases hroute : s.route k with
  | bypass => rfl
  | hit p => rfl
  | miss =>
    cases hbuild : (s.build access k.plan).value with
    | error e => simp [proceed, hbuild]
    | ok p => simp [proceed, hbuild]

/-- A builder that restricts the plan of the lookup has its inner requests answered behind the first
step. -/
theorem answer_fetch_eq_steps (s : Session) (k : Lookup) (access : Access) (inner : List Request)
    (hroute : ∀ p, s.route k ≠ .hit p) :
    let first := s.begin k
    let inside := (first.2.answerAll inner).value
    let second := inside.2.proceed k access first.1
    let third := second.2.proceed k access second.1
    ∃ r, third.1 = .done r ∧ (s.answer (.fetch k inner { access := some access })).value
      = (.fetched k (some inside.1) (r.mapError .scope), third.2) := by
  intro first inside second third
  have hanswer : (s.answer (.fetch k inner { access := some access })).value
      = ((fun x => (Reply.fetched k x.1 x.2.1, x.2.2)) (s.fetch k fun s =>
          s.answerAll inner >>= fun x => (fun built => (x.1, built, x.2)) <$>
            Recipe.build { access := some access } x.2 k).value) := rfl
  rw [hanswer]
  simp only [third, second, inside, first, begin, fetch]
  cases hcase : s.route k with
  | bypass => exact ⟨_, rfl, rfl⟩
  | hit p => exact absurd hcase (hroute p)
  | miss =>
    cases hbuild : ((s.answerAll inner).value.2.build access k.plan).value with
    | error e =>
      exact ⟨.error e, by simp [proceed, hbuild],
        by simp [Recipe.build, proceed, hbuild, Except.mapError]⟩
    | ok p =>
      refine ⟨.ok ((s.answerAll inner).value.2.cache.store k p).1, ?_, ?_⟩
      · simp [proceed, hbuild]
      · simp [Recipe.build, proceed, hbuild, Except.mapError]

end Session

/-! ### Traffic -/

/-- A lookup under way. -/
structure Call where
  /-- What is looked up. -/
  lookup : Lookup
  /-- On whose behalf. -/
  access : Access
  /-- How far it has come. -/
  stage : Session.Stage

/-- A session with the lookups that have begun, whether they are done or not. -/
structure Traffic where
  /-- The session. -/
  session : Session
  /-- The lookups. -/
  calls : List Call := []

/-- What may happen next. -/
inductive Move
  /-- A lookup begins. -/
  | begin (lookup : Lookup) (access : Access)
  /-- The lookup with a number takes its next step. -/
  | proceed (call : Nat)
  /-- A request is answered as a whole. -/
  | request (request : Request) (whole : request.isNested = false)

namespace Traffic

/-- One step of a session in use. -/
def step (w : Traffic) : Move → Traffic
  | .begin k access => ⟨(w.session.begin k).2, w.calls ++ [⟨k, access, (w.session.begin k).1⟩]⟩
  | .proceed i =>
    match w.calls[i]? with
    | none => w
    | some c =>
      let next := w.session.proceed c.lookup c.access c.stage
      ⟨next.2, w.calls.set i { c with stage := next.1 }⟩
  | .request r _ => { w with session := (w.session.answer r).value.2 }

theorem step_proceed {w : Traffic} {i : Nat} {c : Call} (hi : w.calls[i]? = some c) :
    w.step (.proceed i) = ⟨(w.session.proceed c.lookup c.access c.stage).2,
      w.calls.set i { c with stage := (w.session.proceed c.lookup c.access c.stage).1 }⟩ := by
  rw [step, hi]

/-- A session in use, step by step. -/
def run (w : Traffic) (ms : List Move) : Traffic := ms.foldl step w

/-- Does the step build a plan with a tenant condition for a lookup that began when its table was no
tenant table? -/
def races (w : Traffic) : Move → Bool
  | .proceed i =>
    match w.calls[i]? with
    | some ⟨k, access, .missing⟩ => (k.keyFor? w.session.partitioning access).isSome
    | _ => false
  | _ => false

/-- Is there no race in the run? -/
def raceFree (w : Traffic) : List Move → Bool
  | [] => true
  | m :: ms => !w.races m && (w.step m).raceFree ms

/-- No plan that is kept has a tenant condition, and no lookup finds a tenant condition but for the
tenant who asks. -/
structure Private (w : Traffic) : Prop where
  kept : ∀ e ∈ w.session.cache.entries, e.2.tenantKeys = []
  found : ∀ c ∈ w.calls, ∀ p, c.stage = .done (.ok p) → ∀ q ∈ p.tenantKeys,
    ∃ part t, c.access.tenant = some t ∧ q = Partition.keyCondition part c.lookup.relation t

end Traffic

/-! ### Without races -/

namespace Lookup

/-- Every tenant condition that the plan of a lookup is given is for the tenant who asks. -/
theorem exists_of_mem_tenantKeys {k : Lookup} {g : Partitioning} {access : Access} {q : Plan}
    (hq : q ∈ (k.withKeys (k.keyFor? g access).toList).tenantKeys) :
    ∃ part t, access.tenant = some t ∧ q = Partition.keyCondition part k.relation t := by
  rw [tenantKeys_withKeys] at hq
  obtain ⟨c, hc, hq⟩ := List.mem_flatMap.1 hq
  obtain ⟨-, part, t, -, ht, rfl⟩ := keyFor?_eq_some_iff.1 (Option.mem_toList.1 hc)
  exact ⟨part, t, ht, List.mem_singleton.1 hq⟩

end Lookup

namespace Call

/-- What is known of a lookup as long as there is no race: a plan that is to be kept is that of the
lookup, and what is found is what the lookup is given by some partitioning. -/
def Sound (c : Call) : Prop :=
  match c.stage with
  | .bypassing | .missing => True
  | .storing p => p = c.lookup.plan
  | .done r => ∃ g, r = .ok (c.lookup.withKeys (c.lookup.keyFor? g c.access).toList)

/-- What is found is sound if it is the plan of the lookup: no table is a tenant table for the empty
partitioning. -/
theorem sound_of_plan (k : Lookup) (access : Access) :
    (⟨k, access, .done (.ok k.plan)⟩ : Call).Sound := by
  refine ⟨⟨fun _ => none⟩, ?_⟩
  have hkey : k.keyFor? ⟨fun _ => none⟩ access = none := by
    simp [Lookup.keyFor?, Lookup.openPartition?]
  rw [hkey, Option.toList_none, Lookup.withKeys_nil]

end Call

namespace Session

/-- The first step keeps the cache plain. -/
theorem begin_of_plain {s : Session} (h : s.cache.Plain) (k : Lookup) (access : Access) :
    (s.begin k).2.cache.Plain ∧ (⟨k, access, (s.begin k).1⟩ : Call).Sound := by
  rw [begin]
  cases hroute : s.route k with
  | bypass => exact ⟨h, trivial⟩
  | miss => exact ⟨h, trivial⟩
  | hit p =>
    obtain rfl := h.eq_of_find? (find?_of_route_eq_hit hroute)
    exact ⟨h, Call.sound_of_plan k access⟩

/-- The other steps keep the cache plain unless there is a race. -/
theorem proceed_of_plain {s : Session} (h : s.cache.Plain) {c : Call} (hc : c.Sound)
    (hrace : c.stage = .missing → c.lookup.keyFor? s.partitioning c.access = none) :
    (s.proceed c.lookup c.access c.stage).2.cache.Plain ∧
      { c with stage := (s.proceed c.lookup c.access c.stage).1 }.Sound := by
  obtain ⟨k, access, stage⟩ := c
  have hbuild := value_build_plan s access k
  cases stage with
  | bypassing =>
    simp only [proceed]
    exact ⟨h, s.partitioning, hbuild⟩
  | missing =>
    have hkey : k.keyFor? s.partitioning access = none := hrace rfl
    rw [hkey, Option.toList_none, Lookup.withKeys_nil] at hbuild
    simp only [proceed, hbuild]
    exact ⟨h, rfl⟩
  | storing p =>
    obtain rfl : p = k.plan := hc
    simp only [proceed, h.store_fst]
    exact ⟨h.store k, Call.sound_of_plan k access⟩
  | done r => exact ⟨h, hc⟩

end Session

namespace Traffic

/-- What a step keeps as long as there is no race. -/
structure Orderly (w : Traffic) : Prop where
  plain : w.session.cache.Plain
  sound : ∀ c ∈ w.calls, c.Sound

theorem Orderly.step {w : Traffic} (h : w.Orderly) {m : Move} (hm : w.races m = false) :
    (w.step m).Orderly := by
  cases m with
  | begin k access =>
    obtain ⟨hplain, hsound⟩ := Session.begin_of_plain h.plain k access
    refine ⟨hplain, fun c hc => ?_⟩
    rcases List.mem_append.1 hc with hc | hc
    · exact h.sound c hc
    · rw [List.mem_singleton.1 hc]
      exact hsound
  | proceed i =>
    cases hi : w.calls[i]? with
    | none =>
      rw [Traffic.step, hi]
      exact h
    | some c =>
      have hrace : c.stage = .missing →
          c.lookup.keyFor? w.session.partitioning c.access = none := by
        intro hstage
        obtain ⟨k, access, stage⟩ := c
        obtain rfl : stage = .missing := hstage
        simpa [races, hi] using hm
      obtain ⟨hplain, hsound⟩ :=
        Session.proceed_of_plain h.plain (h.sound c (List.mem_of_getElem? hi)) hrace
      rw [step_proceed hi]
      refine ⟨hplain, fun c' hc' => ?_⟩
      rcases List.mem_or_eq_of_mem_set hc' with hc' | rfl
      · exact h.sound c' hc'
      · exact hsound
  | request r hr => exact ⟨(Session.answer_of_plain h.plain hr).2, h.sound⟩

/-- A run without races keeps what a step keeps. -/
theorem Orderly.run {w : Traffic} (h : w.Orderly) {ms : List Move} (hms : w.raceFree ms = true) :
    (w.run ms).Orderly := by
  induction ms generalizing w with
  | nil => exact h
  | cons m ms ih =>
    rw [raceFree, Bool.and_eq_true, Bool.not_eq_true'] at hms
    exact ih (h.step hms.1) hms.2

theorem Orderly.isPrivate {w : Traffic} (h : w.Orderly) : w.Private := by
  constructor
  · intro e he
    rw [h.plain e he, ← Lookup.withKeys_nil, Lookup.tenantKeys_withKeys]
    rfl
  · intro c hc p hp q hq
    have hsound := h.sound c hc
    rw [Call.Sound, hp] at hsound
    obtain ⟨g, hg⟩ := hsound
    obtain rfl := Except.ok.inj hg
    exact Lookup.exists_of_mem_tenantKeys hq

/-! ### With a race -/

/-- A lookup that races and finds no other plan kept meanwhile keeps its own, which has a condition
for its tenant. -/
theorem exists_kept_of_races {w : Traffic} {i : Nat} {c : Call} (hi : w.calls[i]? = some c)
    (hrace : w.races (.proceed i) = true) (hnew : w.session.cache.find? c.lookup = none) :
    ∃ part t p, c.access.tenant = some t ∧
      (w.run [.proceed i, .proceed i]).session.cache.find? c.lookup = some p ∧
      p.tenantKeys = [Partition.keyCondition part c.lookup.relation t] := by
  obtain ⟨k, access, stage⟩ := c
  cases stage with
  | missing =>
    have hsome : (k.keyFor? w.session.partitioning access).isSome := by
      simpa [races, hi] using hrace
    obtain ⟨q, hq⟩ := Option.isSome_iff_exists.1 hsome
    obtain ⟨-, part, t, -, ht, rfl⟩ := Lookup.keyFor?_eq_some_iff.1 hq
    have hbuild := Session.value_build_plan w.session access k
    rw [hq, Option.toList_some] at hbuild
    set p := k.withKeys [part.keyCondition k.relation t] with hp
    -- The plan is built, and then it is kept.
    have hbuilt : w.step (.proceed i) = ⟨w.session, w.calls.set i ⟨k, access, .storing p⟩⟩ := by
      rw [step_proceed hi]
      simp [Session.proceed, hbuild]
    have hi' : (w.step (.proceed i)).calls[i]? = some ⟨k, access, .storing p⟩ := by
      have hlt : i < w.calls.length := (List.getElem?_eq_some_iff.1 hi).1
      rw [hbuilt, List.getElem?_set_self hlt]
    have hkept : (w.run [.proceed i, .proceed i]).session.cache
        = (w.session.cache.store k p).2 := by
      show ((w.step (.proceed i)).step (.proceed i)).session.cache = _
      rw [step_proceed hi', hbuilt]
      rfl
    refine ⟨part, t, p, ht, ?_, ?_⟩
    · rw [hkept, PlanCache.find?_store, if_pos rfl, hnew, Option.getD_none]
    · rw [hp, Lookup.tenantKeys_withKeys]
      rfl
  | _ => simp [races, hi] at hrace

/-- **Lookups are private unless they race.** In whatever order lookups take their steps and other
requests are answered in between, from an empty cache on: as long as no lookup builds with a tenant
condition what it began as a plan for all tenants, no plan that is kept has a tenant condition, and
no lookup finds one but for the tenant who asks. One lookup that does so is enough: if no other plan
has been kept for it meanwhile, it keeps the condition for its own tenant. -/
theorem private_unless_raced {s : Session} (hempty : s.cache.entries = []) (ms : List Move) :
    let w := run ⟨s, []⟩ ms
    (raceFree ⟨s, []⟩ ms = true → w.Private) ∧
      ∀ i c, w.calls[i]? = some c → w.races (.proceed i) = true →
        w.session.cache.find? c.lookup = none → ∃ part t p, c.access.tenant = some t ∧
          (w.run [.proceed i, .proceed i]).session.cache.find? c.lookup = some p ∧
          p.tenantKeys = [Partition.keyCondition part c.lookup.relation t] := by
  intro w
  have horderly : Orderly ⟨s, []⟩ := by
    refine ⟨PlanCache.plain_of_entries_eq_nil hempty, fun c hc => ?_⟩
    simp at hc
  exact ⟨fun hms => (horderly.run hms).isPrivate, fun i c => exists_kept_of_races⟩

/-- The orders, which are looked up by their ids. -/
def orders : Partition := ⟨"orders", "tenant_id", .text⟩

/-- Two lookups for orders in turns, while the items become a tenant table. -/
def unraced : List Move :=
  [.begin (.byId "orders") (.ofTenant ⟨"t1"⟩), .begin (.byId "orders") (.ofTenant ⟨"t2"⟩),
    .request (.register ⟨"items", "tenant_id", .text⟩) rfl, .proceed 1, .proceed 0, .proceed 0,
    .request (.register orders) rfl, .proceed 1]

/-- A lookup for an order, while the orders become a tenant table. -/
def raced : List Move :=
  [.begin (.byId "orders") (.ofTenant ⟨"t1"⟩), .request (.register orders) rfl]

/-- Lookups in turns are private, and a lookup keeps its own condition where it races. -/
theorem orders_are_private_unless_raced :
    (run ⟨Session.emptySession, []⟩ unraced).Private ∧
      ∃ part t p, some (⟨"t1"⟩ : Tenant) = some t ∧
        ((run ⟨Session.emptySession, []⟩ raced).run [.proceed 0, .proceed 0]).session.cache.find?
          (.byId "orders") = some p ∧
        p.tenantKeys = [Partition.keyCondition part (Lookup.byId "orders").relation t] := by
  have hunraced := private_unless_raced (s := Session.emptySession) rfl unraced
  have hraced := private_unless_raced (s := Session.emptySession) rfl raced
  refine ⟨hunraced.1 (by decide), ?_⟩
  exact hraced.2 0 ⟨.byId "orders", .ofTenant ⟨"t1"⟩, .missing⟩ rfl (by decide) rfl

/-- **The race.** While one tenant looks up an order, the orders become a tenant table. The plan
that is kept has a condition for this tenant. Once the orders are no tenant table any more, another
tenant is given this plan. -/
theorem kept_plan_of_another_tenant :
    let k : Lookup := .byId "orders"
    let w := run ⟨Session.emptySession, []⟩ (raced ++ [.proceed 0, .proceed 0,
      .request (.unregister "orders") rfl, .begin k (.ofTenant ⟨"t2"⟩)])
    ∃ p, w.session.cache.find? k = some p ∧
      w.calls[1]? = some ⟨k, .ofTenant ⟨"t2"⟩, .done (.ok p)⟩ ∧
      p.tenantKeys = [orders.keyCondition k.relation ⟨"t1"⟩] ∧ ¬ w.Private := by
  intro k w
  set p := k.withKeys [orders.keyCondition k.relation ⟨"t1"⟩] with hp
  have hkept : w.session.cache.find? k = some p := by rfl
  have hfound : w.calls[1]? = some ⟨k, .ofTenant ⟨"t2"⟩, .done (.ok p)⟩ := by rfl
  have hkeys : p.tenantKeys = [orders.keyCondition k.relation ⟨"t1"⟩] := rfl
  refine ⟨p, hkept, hfound, hkeys, fun hprivate => ?_⟩
  -- The condition would have to be one for the second tenant, whose id is no number.
  obtain ⟨part, t, ht, hcondition⟩ := hprivate.found _ (List.mem_of_getElem? hfound) p rfl _
    (hkeys ▸ List.mem_singleton_self _)
  obtain rfl : (⟨"t2"⟩ : Tenant) = t := Option.some.inj ht
  have hvalue : part.keyValue ⟨"t2"⟩ = .text "t2" := by
    cases hkey : part.keyType with
    | text => rw [Partition.keyValue, hkey]
    | integer =>
      rw [Partition.keyValue, hkey]
      rfl
  have hother : Literal.text "t1" = .text "t2" := by
    rw [← hvalue]
    exact (Plan.tenantKey.inj hcondition).2
  exact absurd hother (by decide)

end Traffic

end Tenancy
