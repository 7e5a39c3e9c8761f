import Tenancy.Proofs.Restrict.Additions
import Tenancy.Proofs.Session.Lookups

namespace Tenancy

/-!
# Transparency — the plan cache does not show in what is found

* `PlanCache.Plain` — every plan that is kept is the plan of its lookup, which no tenant shows in;
* `find_of_plain` — with such a cache a lookup finds what is built for it, and keeps it such;
* `answer_of_plain`, `answerAll_of_plain` — what one request keeps, and what a run keeps;
* `cache_is_transparent` — in a run from an empty cache every lookup finds what is built for it.
-/

namespace PlanCache

/-- Every plan that is kept is the plan of its lookup, as it is before any restriction. -/
def Plain (c : PlanCache) : Prop := ∀ e ∈ c.entries, e.2 = e.1.plan

theorem plain_of_entries_eq_nil {c : PlanCache} (h : c.entries = []) : c.Plain := by
  intro e he
  simp [h] at he

theorem mem_entries_of_find? {c : PlanCache} {k : Lookup} {p : Plan} (hp : c.find? k = some p) :
    (k, p) ∈ c.entries := by
  obtain ⟨es, es', hentries, -⟩ := List.lookup_eq_some_iff.1 hp
  simp [hentries]

theorem Plain.eq_of_find? {c : PlanCache} (h : c.Plain) {k : Lookup} {p : Plan}
    (hp : c.find? k = some p) : p = k.plan :=
  h _ (mem_entries_of_find? hp)

theorem Plain.invalidate {c : PlanCache} (h : c.Plain) (table : String) :
    (c.invalidate table).Plain :=
  fun e he => h e (List.mem_of_mem_filter he)

/-- What is kept stays plain when a plan that is plain itself is added. -/
theorem Plain.store {c : PlanCache} (h : c.Plain) (k : Lookup) : (c.store k k.plan).2.Plain := by
  intro e he
  unfold PlanCache.store at he
  split at he
  · exact h e he
  · next hnone =>
    have hmem : e ∈ (k, k.plan) :: c.entries := he
    rcases List.mem_cons.1 hmem with rfl | hmem
    · rfl
    · exact h e hmem

/-- Where what is kept is plain, the answer to a plain plan is that plan. -/
theorem Plain.store_fst {c : PlanCache} (h : c.Plain) (k : Lookup) :
    (c.store k k.plan).1 = k.plan := by
  rw [PlanCache.store_fst]
  cases hkept : c.find? k with
  | none => rfl
  | some kept => exact h.eq_of_find? hkept

end PlanCache

namespace Session

/-! ### One lookup -/

theorem find?_of_route_eq_hit {s : Session} {k : Lookup} {p : Plan} (h : s.route k = .hit p) :
    s.cache.find? k = some p := by
  rw [route] at h
  split at h
  · simp at h
  · split at h
    · next hp =>
      cases h
      exact hp
    · simp at h

/-- For a table that is no tenant table the plan of a lookup is built as it is. -/
theorem value_build_plan_of_not_covers {s : Session} {k : Lookup}
    (h : s.partitioning.covers k.table = false) (access : Access) :
    (s.build access k.plan).value = .ok k.plan := by
  have hnone : s.partitioning.of? k.table = none := by
    simpa [Partitioning.covers] using h
  have hkey : k.keyFor? s.partitioning access = none := by
    simp [Lookup.keyFor?, Lookup.openPartition?, hnone]
  rw [value_build_plan, hkey, Option.toList_none, Lookup.withKeys_nil]

/-- What is kept of a session and its cache while it looks up what it is asked for. -/
theorem find_of_plain {s : Session} (h : s.cache.Plain) (k : Lookup) (access : Access) :
    (s.find k access).value.1 = (s.build access k.plan).value ∧
      (s.find k access).value.2.directory = s.directory ∧
      (s.find k access).value.2.cache.Plain := by
  cases hcovers : s.partitioning.covers k.table with
  | true =>
    have hroute : s.route k = .bypass := by rw [route, if_pos hcovers]
    simp only [find, fetch, hroute]
    exact ⟨rfl, rfl, h⟩
  | false =>
    have hbuild := value_build_plan_of_not_covers hcovers access
    cases hkept : s.cache.find? k with
    | some p =>
      have hroute : s.route k = .hit p := by simp [route, hcovers, hkept]
      obtain rfl := h.eq_of_find? hkept
      simp only [find, fetch, hroute]
      exact ⟨hbuild.symm, rfl, h⟩
    | none =>
      have hroute : s.route k = .miss := by simp [route, hcovers, hkept]
      simp [find, fetch, hroute, hbuild, h.store_fst, h.store]

end Session

/-! ### Runs -/

namespace Request

/-- Are there requests inside the request? -/
def isNested : Request → Bool
  | fetch .. => true
  | _ => false

/-- The tenant tables after the request. -/
def changed (d : Directory) : Request → Directory
  | register p => d.insert p
  | unregister table => d.erase table
  | _ => d

end Request

namespace Session

theorem answer_of_plain {s : Session} (h : s.cache.Plain) {r : Request} (hr : r.isNested = false) :
    (s.answer r).value.2.directory = r.changed s.directory ∧
      (s.answer r).value.2.cache.Plain := by
  cases r with
  | find k access =>
    have hsame : (s.answer (.find k access)).value.2 = (s.find k access).value.2 := rfl
    rw [hsame]
    exact (find_of_plain h k access).2
  | fetch => simp [Request.isNested] at hr
  | invalidate table => exact ⟨rfl, h.invalidate table⟩
  | clear => exact ⟨rfl, PlanCache.plain_of_entries_eq_nil rfl⟩
  | _ => exact ⟨rfl, h⟩

/-- A run keeps what one request keeps. -/
theorem answerAll_of_plain {s : Session} (h : s.cache.Plain) {rs : List Request}
    (hrs : ∀ r ∈ rs, r.isNested = false) :
    (s.answerAll rs).value.2.directory = rs.foldl Request.changed s.directory ∧
      (s.answerAll rs).value.2.cache.Plain := by
  induction rs generalizing s with
  | nil => exact ⟨rfl, h⟩
  | cons r rs ih =>
    obtain ⟨hdirectory, hplain⟩ := answer_of_plain h (hrs r List.mem_cons_self)
    have hrest := ih hplain fun r' hr' => hrs r' (List.mem_cons_of_mem _ hr')
    rw [hdirectory] at hrest
    simpa [answerAll] using hrest

/-- The answer to a request of a run is given by the session that the requests before it leave. -/
theorem getElem?_answerAll (s : Session) (rs : List Request) (i : Nat) :
    (s.answerAll rs).value.1[i]? = rs[i]?.map fun r =>
      ((s.answerAll (rs.take i)).value.2.answer r).value.1 := by
  induction rs generalizing s i with
  | nil => simp [answerAll]
  | cons r rs ih =>
    cases i with
    | zero => simp [answerAll]
    | succ i => simpa [answerAll] using ih (s.answer r).value.2 i

/-- **The plan cache is transparent.** In a run of whole requests from an empty cache, the tenant
tables are at any moment those that the requests so far have made, and every plan that is kept is
the plan of its lookup. Every lookup is answered, by the plan that the session builds for it at that
very moment and with that very access. Where its table is a tenant table whose key it does not ask
for, this plan has exactly one tenant condition, which is for the tenant who asks. -/
theorem cache_is_transparent {s : Session} (hempty : s.cache.entries = []) {rs : List Request}
    (hrs : ∀ r ∈ rs, r.isNested = false) (i : Nat) :
    let now := (s.answerAll (rs.take i)).value.2
    now.directory = (rs.take i).foldl Request.changed s.directory ∧
      (∀ e ∈ now.cache.entries, e.2 = e.1.plan) ∧
      ∀ k access, rs[i]? = some (.find k access) → ∃ p,
        (s.answerAll rs).value.1[i]? = some (.found (.ok p)) ∧
        (now.build access k.plan).value = .ok p ∧
        ∀ part t, now.partitioning.of? k.table = some part → part.column ∉ k.columns →
          access = ⟨some t, false⟩ → p.tenantKeys = [part.keyCondition k.relation t] := by
  intro now
  obtain ⟨hdirectory, hplain⟩ := answerAll_of_plain (PlanCache.plain_of_entries_eq_nil hempty)
    fun r hr => hrs r (List.mem_of_mem_take hr)
  refine ⟨hdirectory, hplain, fun k access hi => ?_⟩
  have hbuild := value_build_plan now access k
  have hfind : (now.find k access).value.1 = (now.build access k.plan).value :=
    (find_of_plain hplain k access).1
  refine ⟨_, ?_, hbuild, ?_⟩
  · rw [getElem?_answerAll, hi, Option.map_some, ← hbuild, ← hfind]
    rfl
  · intro part t hpart hcolumn haccess
    have hopen := Lookup.openPartition?_eq_some_iff.2 ⟨hpart, hcolumn⟩
    have hkey : k.keyFor? now.partitioning access = some (part.keyCondition k.relation t) :=
      Lookup.keyFor?_eq_some_iff.2
        ⟨by rw [haccess], part, t, hopen, by rw [haccess], rfl⟩
    rw [hkey, Lookup.tenantKeys_withKeys]
    rfl

/-- A session in which no table is a tenant table yet. -/
def emptySession : Session :=
  { Plan.shopSession with directory := .catalog ⟨[], List.nodup_nil⟩ }

/-- The orders are a tenant table from the first lookup for them on that follows their entry, even
though their plan has been kept before. -/
theorem orders_are_restricted_at_once :
    let t : Tenant := ⟨"t2"⟩
    let orders : Partition := ⟨"orders", "tenant_id", .text⟩
    let byId : Lookup := .byId "orders"
    ∃ p, (emptySession.answerAll [.find byId (.ofTenant ⟨"t1"⟩), .register orders,
        .find byId (.ofTenant t)]).value.1[2]? = some (.found (.ok p)) ∧
      p.tenantKeys = [orders.keyCondition byId.relation t] := by
  intro t orders byId
  have hrs : ∀ r ∈ [Request.find byId (.ofTenant ⟨"t1"⟩), .register orders,
      .find byId (.ofTenant t)], r.isNested = false := by simp [Request.isNested]
  obtain ⟨hdirectory, -, hfound⟩ := cache_is_transparent (s := emptySession) rfl hrs 2
  obtain ⟨p, hp, -, hkeys⟩ := hfound byId (.ofTenant t) rfl
  refine ⟨p, hp, hkeys orders t ?_ (by decide) rfl⟩
  rw [partitioning, hdirectory]
  rfl

end Session

end Tenancy
