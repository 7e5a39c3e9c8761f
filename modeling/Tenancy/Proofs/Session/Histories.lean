import Mathlib.Data.List.Basic
import Tenancy.PlanCache

namespace Tenancy

/-!
# Histories — what happens to the plans of a cache, moment by moment

* `Moment` — what can happen to a lookup, and when its plan is dropped;
* `Moment.Fits`, `Coherent` — the plans that lookups find are those that are kept at the time;
* `Coherent.answer_eq` — as long as no plan of a lookup is dropped, all its answers are the plan
  that is kept for it first;
* `Recorded` — a cache is what its history has made of an empty one;
* `Recorded.countBypass`, `Recorded.countHit`, `Recorded.store`, `Recorded.drop` — every operation
  of the cache goes on with its history.
-/

/-- A moment in the history of a cache. -/
inductive Moment
  /-- A lookup finds that its table is a tenant table. -/
  | bypassed (lookup : Lookup)
  /-- The builder of such a lookup is done. -/
  | passed (lookup : Lookup) (result : Option Plan)
  /-- A lookup is answered by the plan that is kept for it. -/
  | hit (lookup : Lookup) (plan : Plan)
  /-- A lookup is answered by a plan that was built for it and is kept from now on. -/
  | inserted (lookup : Lookup) (plan : Plan)
  /-- A plan was built for a lookup, which is answered by another one that is kept already. -/
  | preempted (lookup : Lookup) (kept : Plan)
  /-- No plan to be kept could be built for a lookup. -/
  | failed (lookup : Lookup)
  /-- The plan of a lookup is dropped. -/
  | removed (lookup : Lookup)

namespace Moment

/-- The result of a lookup, if it is over. -/
def result? : Moment → Option (Option Plan)
  | hit _ p | inserted _ p | preempted _ p => some (some p)
  | passed _ result => some result
  | failed _ => some none
  | bypassed _ | removed _ => none

/-- Has a lookup been answered by the plan that was kept? -/
def isHit : Moment → Bool
  | hit .. => true
  | _ => false

/-- Has a plan been built for a lookup to be kept? -/
def isMiss : Moment → Bool
  | inserted .. | preempted .. => true
  | _ => false

/-- Has a plan been built for a lookup that has another one already? -/
def isPreempted : Moment → Bool
  | preempted .. => true
  | _ => false

/-- Has a lookup found that its table is a tenant table? -/
def isBypassed : Moment → Bool
  | bypassed _ => true
  | _ => false

/-- Has a plan been dropped? -/
def isRemoved : Moment → Bool
  | removed _ => true
  | _ => false

/-- The plans that are kept after the moment. -/
def after (kept : Lookup → Option Plan) : Moment → Lookup → Option Plan
  | inserted k p => fun l => if l = k then some p else kept l
  | removed k => fun l => if l = k then none else kept l
  | _ => kept

/-- Is the moment possible while these plans are kept? -/
def Fits (kept : Lookup → Option Plan) : Moment → Prop
  | hit k p | preempted k p => kept k = some p
  | inserted k _ => kept k = none
  | _ => True

end Moment

open Moment

/-! ### Coherence -/

/-- The plans that are kept after some moments. -/
def keptAfter (kept : Lookup → Option Plan) (h : List Moment) : Lookup → Option Plan :=
  h.foldl Moment.after kept

/-- Every moment is possible while the plans are kept that are kept after those before it. -/
def Coherent (kept : Lookup → Option Plan) : List Moment → Prop
  | [] => True
  | m :: h => m.Fits kept ∧ Coherent (m.after kept) h

variable {kept : Lookup → Option Plan} {h h' : List Moment} {k : Lookup}

theorem keptAfter_append : keptAfter kept (h ++ h') = keptAfter (keptAfter kept h) h' :=
  List.foldl_append

theorem coherent_append :
    Coherent kept (h ++ h') ↔ Coherent kept h ∧ Coherent (keptAfter kept h) h' := by
  induction h generalizing kept with
  | nil => exact (iff_of_eq (true_and _)).symm
  | cons m h ih => exact (and_congr_right fun _ => ih).trans and_assoc.symm

theorem coherent_removed (kept : Lookup → Option Plan) (ks : List Lookup) :
    Coherent kept (ks.map removed) := by
  induction ks generalizing kept with
  | nil => trivial
  | cons k ks ih => exact ⟨trivial, ih _⟩

theorem keptAfter_removed (kept : Lookup → Option Plan) (ks : List Lookup) :
    keptAfter kept (ks.map removed) = fun k => if k ∈ ks then none else kept k := by
  induction ks generalizing kept with
  | nil => simp [keptAfter]
  | cons l ks ih =>
    show keptAfter (Moment.after kept (removed l)) (ks.map removed) = _
    rw [ih]
    funext k
    by_cases hk : k ∈ ks <;> simp [hk, Moment.after]

namespace PlanCache

/-- The cache without the plans of the lookups that `drops` picks. -/
def without (c : PlanCache) (drops : Lookup → Bool) : PlanCache :=
  { c with
    entries := c.entries.filter (!drops ·.1)
    nodup := c.nodup.sublist (List.filter_sublist.map _) }

/-- The lookups among those that `drops` picks for which a plan is kept. -/
def dropped (c : PlanCache) (drops : Lookup → Bool) : List Lookup :=
  (c.entries.filter (drops ·.1)).map Prod.fst

theorem size_without (c : PlanCache) (drops : Lookup → Bool) :
    (c.without drops).size + (c.dropped drops).length = c.size := by
  rw [dropped, List.length_map, size, size, c.entries.length_eq_length_filter_add (drops ·.1),
    Nat.add_comm]
  rfl

theorem find?_without (c : PlanCache) (drops : Lookup → Bool) (k : Lookup) :
    (c.without drops).find? k = if k ∈ c.dropped drops then none else c.find? k := by
  cases hk : drops k with
  | true =>
    -- Nothing is kept for the lookup now, whether a plan of it was dropped or not.
    have hnone : (c.without drops).find? k = none := by
      rw [find?_eq_none_iff]
      simp [without, hk]
    split
    · exact hnone
    · next hnot =>
      rw [hnone, eq_comm, find?_eq_none_iff]
      simpa [dropped, hk] using hnot
  | false =>
    have hnot : k ∉ c.dropped drops := by simp [dropped, hk]
    rw [if_neg hnot]
    show (c.entries.filter (!drops ·.1)).lookup k = c.entries.lookup k
    induction c.entries with
    | nil => rfl
    | cons e es ih =>
      obtain ⟨l, p⟩ := e
      by_cases hl : k = l
      · simp [← hl, hk]
      · have hbeq : (k == l) = false := beq_false_of_ne hl
        cases hd : drops l <;> simp [List.lookup_cons, hbeq, hd, ih]

/-! ### Keeping plans -/

theorem store_of_find?_eq_some {c : PlanCache} {k : Lookup} {kept : Plan}
    (hk : c.find? k = some kept) (p : Plan) : c.store k p = (kept, c.countMiss) := by
  unfold store
  split
  · next kept' hk' =>
    obtain rfl := Option.some.inj (hk.symm.trans hk')
    rfl
  · next hk' => exact absurd (hk.symm.trans hk') (Option.some_ne_none _)

theorem store_of_find?_eq_none {c : PlanCache} {k : Lookup} (hk : c.find? k = none) (p : Plan) :
    c.store k p = (p, (c.insertNew k p hk).countMiss) := by
  unfold store
  split
  · next kept hk' => exact absurd (hk'.symm.trans hk) (Option.some_ne_none _)
  · rfl

/-- The moment at which a plan that was built for `k` is to be kept. -/
def storing (c : PlanCache) (k : Lookup) (p : Plan) : Moment :=
  if (c.find? k).isSome then preempted k (c.store k p).1 else inserted k (c.store k p).1

theorem result?_storing (c : PlanCache) (k : Lookup) (p : Plan) :
    (c.storing k p).result? = some (some (c.store k p).1) := by
  rw [storing]
  split <;> rfl

end PlanCache

/-! ### Caches and their histories -/

/-- The cache is what its history has made of an empty one. -/
structure Recorded (c : PlanCache) (h : List Moment) : Prop where
  coherent : Coherent (fun _ => none) h
  kept : keptAfter (fun _ => none) h = c.find?
  hits : c.hits = h.countP isHit
  misses : c.misses = h.countP isMiss
  bypassed : c.bypassed = h.countP isBypassed
  entries : c.size + h.countP isRemoved + h.countP isPreempted = c.misses

namespace Recorded

variable {c c' : PlanCache}

/-- The history goes on with moments that are possible and make of the cache what it is then. -/
theorem append (hc : Recorded c h) (hcoherent : Coherent c.find? h')
    (hkept : keptAfter c.find? h' = c'.find?) (hhits : c'.hits = c.hits + h'.countP isHit)
    (hmisses : c'.misses = c.misses + h'.countP isMiss)
    (hbypassed : c'.bypassed = c.bypassed + h'.countP isBypassed)
    (hentries : c'.size + h'.countP isRemoved + h'.countP isPreempted
      = c.size + h'.countP isMiss) : Recorded c' (h ++ h') := by
  refine ⟨coherent_append.2 ⟨hc.coherent, hc.kept ▸ hcoherent⟩, ?_, ?_, ?_, ?_, ?_⟩
  · rw [keptAfter_append, hc.kept, hkept]
  · rw [hhits, hc.hits, List.countP_append]
  · rw [hmisses, hc.misses, List.countP_append]
  · rw [hbypassed, hc.bypassed, List.countP_append]
  · have hbefore := hc.entries
    simp only [List.countP_append]
    omega

theorem countBypass (hc : Recorded c h) (k : Lookup) :
    Recorded c.countBypass (h ++ [.bypassed k]) :=
  hc.append ⟨trivial, trivial⟩ rfl rfl rfl rfl rfl

theorem countHit (hc : Recorded c h) {p : Plan} (hp : c.find? k = some p) :
    Recorded c.countHit (h ++ [hit k p]) :=
  hc.append ⟨hp, trivial⟩ rfl rfl rfl rfl rfl

theorem passed (hc : Recorded c h) (k : Lookup) (result : Option Plan) :
    Recorded c (h ++ [.passed k result]) :=
  hc.append ⟨trivial, trivial⟩ rfl rfl rfl rfl rfl

theorem failed (hc : Recorded c h) (k : Lookup) : Recorded c (h ++ [.failed k]) :=
  hc.append ⟨trivial, trivial⟩ rfl rfl rfl rfl rfl

/-- A plan that was built is kept, or the one that is kept already is the answer. -/
theorem store (hc : Recorded c h) (k : Lookup) (p : Plan) :
    Recorded (c.store k p).2 (h ++ [c.storing k p]) := by
  rw [PlanCache.storing]
  cases hk : c.find? k with
  | some kept =>
    rw [PlanCache.store_of_find?_eq_some hk]
    exact hc.append ⟨hk, trivial⟩ rfl rfl rfl rfl rfl
  | none =>
    have hkept : keptAfter c.find? [inserted k p] = (c.store k p).2.find? := by
      funext l
      rw [c.find?_store, hk]
      rfl
    rw [PlanCache.store_of_find?_eq_none hk] at hkept ⊢
    exact hc.append ⟨hk, trivial⟩ hkept rfl rfl rfl rfl

/-- Plans are dropped. -/
theorem without (hc : Recorded c h) (drops : Lookup → Bool) :
    Recorded (c.without drops) (h ++ (c.dropped drops).map removed) := by
  have hcount : ∀ f : Moment → Bool, (∀ k, f (removed k) = false) →
      ((c.dropped drops).map removed).countP f = 0 := by
    intro f hf
    simp [List.countP_eq_zero, hf]
  have hall : ((c.dropped drops).map removed).countP isRemoved = (c.dropped drops).length := by
    rw [List.countP_map]
    exact List.countP_eq_length.2 fun _ _ => rfl
  refine hc.append (coherent_removed _ _) ?_ ?_ ?_ ?_ ?_
  · rw [keptAfter_removed]
    exact (funext fun k => c.find?_without drops k).symm
  · rw [hcount _ fun _ => rfl]
    rfl
  · rw [hcount _ fun _ => rfl]
    rfl
  · rw [hcount _ fun _ => rfl]
    rfl
  · rw [hall, hcount isPreempted fun _ => rfl, hcount isMiss fun _ => rfl]
    exact c.size_without drops

end Recorded

end Tenancy
