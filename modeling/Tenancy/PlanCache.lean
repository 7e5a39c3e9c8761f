import Tenancy.Lookup

namespace Tenancy

/-!
# The plan cache — plans of lookups, built once

* `PlanCache` — the plans kept so far, each under its lookup, and counters;
* `PlanCache.store` — keeps a plan, unless there is one for the lookup already;
* `PlanCache.Counts` — what the counters show.

A lookup says nothing of a tenant. So only plans that are the same for every tenant may be kept;
who fetches a plan sees to that.
-/

/-- What the counters of a cache show. -/
structure PlanCache.Counts where
  /-- Lookups answered from the cache. -/
  hits : UInt64
  /-- Lookups for which a plan was built to be kept. -/
  misses : UInt64
  /-- Lookups that did not use the cache. -/
  bypassed : UInt64
  /-- The plans that are kept. -/
  entries : UInt64
  deriving Repr, DecidableEq

/-- Plans of lookups, at most one for each. -/
structure PlanCache where
  /-- The plans that are kept. -/
  entries : List (Lookup × Plan) := []
  /-- How many lookups were answered from the cache. -/
  hits : Nat := 0
  /-- For how many lookups a plan was built to be kept. -/
  misses : Nat := 0
  /-- How many lookups did not use the cache. -/
  bypassed : Nat := 0
  /-- No lookup has two plans. -/
  nodup : (entries.map Prod.fst).Nodup := by simp

namespace PlanCache

/-- The plan that is kept for a lookup. -/
def find? (c : PlanCache) (k : Lookup) : Option Plan := c.entries.lookup k

/-- Counts a lookup that does not use the cache. -/
def countBypass (c : PlanCache) : PlanCache := { c with bypassed := c.bypassed + 1 }

/-- Counts a lookup that is answered from the cache. -/
def countHit (c : PlanCache) : PlanCache := { c with hits := c.hits + 1 }

/-- Counts a lookup for which a plan was built. -/
def countMiss (c : PlanCache) : PlanCache := { c with misses := c.misses + 1 }

theorem find?_eq_none_iff (c : PlanCache) (k : Lookup) :
    c.find? k = none ↔ k ∉ c.entries.map Prod.fst := by
  rw [find?, List.lookup_eq_none_iff]
  constructor
  · intro h hk
    obtain ⟨e, he, rfl⟩ := List.mem_map.1 hk
    simpa using h e he
  · intro h e he
    simpa using fun hk : k = e.1 => h (hk ▸ List.mem_map_of_mem he)

/-- Keeps a plan for a lookup that has none. -/
def insertNew (c : PlanCache) (k : Lookup) (p : Plan) (h : c.find? k = none) : PlanCache where
  entries := (k, p) :: c.entries
  hits := c.hits
  misses := c.misses
  bypassed := c.bypassed
  nodup := by
    rw [List.map_cons, List.nodup_cons]
    exact ⟨(c.find?_eq_none_iff k).1 h, c.nodup⟩

/-- Keeps a plan that was built for a lookup, unless another one has been kept meanwhile. The plan
that is kept is the answer. -/
def store (c : PlanCache) (k : Lookup) (p : Plan) : Plan × PlanCache :=
  match h : c.find? k with
  | some kept => (kept, c.countMiss)
  | none => (p, (c.insertNew k p h).countMiss)

/-- The first plan that is built for a lookup is the one that is kept. -/
theorem store_fst (c : PlanCache) (k : Lookup) (p : Plan) :
    (c.store k p).1 = (c.find? k).getD p := by
  unfold store
  split
  · next h => simp [h]
  · next h => simp [h]

theorem find?_store (c : PlanCache) (k l : Lookup) (p : Plan) :
    (c.store k p).2.find? l = if l = k then some ((c.find? k).getD p) else c.find? l := by
  unfold store
  split
  · next kept h =>
    have hl : c.countMiss.find? l = c.find? l := rfl
    by_cases hk : l = k <;> simp_all
  · next h =>
    have hl : (c.insertNew k p h).countMiss.find? l = ((k, p) :: c.entries).lookup l := rfl
    rw [hl, h, List.lookup_cons]
    by_cases hk : l = k
    · simp [hk]
    · have hb : (l == k) = false := beq_false_of_ne hk
      simp [hk, hb, find?]

/-- The cache without the plans for a table. -/
def invalidate (c : PlanCache) (table : String) : PlanCache :=
  { c with
    entries := c.entries.filter (·.1.table != table)
    nodup := c.nodup.sublist (List.filter_sublist.map _) }

/-- The cache without any plan. The counters go on. -/
def clear (c : PlanCache) : PlanCache := { c with entries := [], nodup := List.nodup_nil }

/-- The number of plans that are kept. -/
def size (c : PlanCache) : Nat := c.entries.length

/-- What the counters show. They are words of 64 bits. -/
def counts (c : PlanCache) : Counts :=
  ⟨.ofNat c.hits, .ofNat c.misses, .ofNat c.bypassed, .ofNat c.size⟩

/-- The cache in diagnostics. -/
def inspect (c : PlanCache) : String :=
  let n := c.counts
  "StatementCache \x7b stats: CacheStats \x7b hits: " ++ toString n.hits.toNat
    ++ ", misses: " ++ toString n.misses.toNat ++ ", bypassed: " ++ toString n.bypassed.toNat
    ++ ", entries: " ++ toString n.entries.toNat ++ " \x7d, .. \x7d"

end PlanCache

end Tenancy
