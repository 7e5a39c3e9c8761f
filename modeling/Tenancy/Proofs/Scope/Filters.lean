import Tenancy.Plan.Decide
import Tenancy.Proofs.Plan.Marks
import Tenancy.Proofs.Scope.Numbering

namespace Tenancy

/-!
# Filters — which relations a survey takes for tied, and which really are

* `Plan.BoundIn`, `Plan.Bound` — the nodes where an equality is taken to hold of every row of a
  scope;
* `mem_pinned_iff`, `exempt_iff` — a relation is exempted from enforcement exactly if an equality
  with its partition key stands at such a place;
* `Plan.rowFilter`, `Plan.asserted` — what really filters the rows of a scope, and its conjuncts;
* `Plan.Entails`, `entails_of_mem_asserted`, `entails_iff` — an equality follows from a filter if it
  is one of the conjuncts, and only then if these are free of `OR` and `NOT`;
* `exempt_only_if_restricted` — each exempted relation is restricted by a row filter exactly where
  bound equalities are entailed, which they are where they are conjuncts.

A bound place need not be a conjunct: an argument of a function, an operand, an item of a list and
a `GROUP BY` term are bound as well.
-/

namespace Plan

variable {g : Partitioning}

/-! ### Bound places -/

/-- The node `q` stands inside `p`, in the same scope, at a place where an equality is taken to hold
of every row; `p` itself is read as `reading`. -/
inductive BoundIn (q : Plan) : Reading → Plan → Prop
  /-- The node itself. -/
  | here {reading : Reading} : reading.binds = true → BoundIn q reading q
  /-- A node inside a part. -/
  | part {reading : Reading} {p : Plan} {c : Role × Plan} : p.owner? = none → c ∈ p.parts →
    BoundIn q (c.1.reading reading) c.2 → BoundIn q reading p

/-- The node `q` stands in the scope of `p` at a place where an equality is taken to hold of every
row. -/
def Bound (p q : Plan) : Prop := ∃ c ∈ p.parts, BoundIn q (c.1.reading .condition) c.2

theorem mem_pinned_mention_iff {reading : Reading} {p : Plan} (hp : p.isSynthetic = false)
    (r : Relation) :
    r ∈ (p.mention g reading).pinned ↔ reading.binds = true ∧ p.isKeyEquality g r = true := by
  constructor
  · intro hr
    rcases mention_cases g reading p with hm | ⟨_, _, _, hm⟩ | ⟨s, hs, hm⟩
    · simp [hm] at hr
    · simp [hm] at hr
    · obtain rfl : r = s := by simpa [hm] using hr
      exact hs.resolve_left (by simp [hp])
  · rintro ⟨hbinds, hkey⟩
    unfold isKeyEquality at hkey
    split at hkey
    · next c _ =>
      rw [Bool.and_eq_true, decide_eq_true_eq] at hkey
      simp [mention, Findings.equality, hbinds, hkey.1, hkey.2]
    · simp at hkey

/-- What the parts of a node tie to a tenant, given what each of them does. -/
theorem mem_pinned_surveyParts_iff {reading : Reading} {cs : List (Role × Plan)} {r : Relation}
    (h : ∀ c ∈ cs, r ∈ (c.2.survey g (c.1.reading reading)).pinned ↔
      ∃ q, BoundIn q (c.1.reading reading) c.2 ∧ q.isKeyEquality g r = true) :
    r ∈ (surveyParts g reading cs).pinned ↔
      ∃ q, (∃ c ∈ cs, BoundIn q (c.1.reading reading) c.2) ∧ q.isKeyEquality g r = true := by
  rw [pinned_surveyParts, List.mem_flatMap]
  constructor
  · rintro ⟨c, hc, hr⟩
    obtain ⟨q, hq, hkey⟩ := (h c hc).1 hr
    exact ⟨q, ⟨c, hc, hq⟩, hkey⟩
  · rintro ⟨q, ⟨c, hc, hq⟩, hkey⟩
    exact ⟨c, hc, (h c hc).2 ⟨q, hq, hkey⟩⟩

theorem owner?_of_isKeyEquality {p : Plan} {r : Relation} (h : p.isKeyEquality g r = true) :
    p.owner? = none := by
  unfold isKeyEquality at h
  split at h
  · rfl
  · simp at h

/-- A survey takes a relation for tied exactly if an equality with its partition key is bound. -/
theorem mem_pinned_iff {reading : Reading} {p : Plan}
    (hp : ∀ q ∈ p.nodes, q.isSynthetic = false) (r : Relation) :
    r ∈ (p.survey g reading).pinned ↔
      ∃ q, BoundIn q reading p ∧ q.isKeyEquality g r = true := by
  induction p using inductionOnParts generalizing reading with
  | step p ih =>
    have hparts : ∀ c ∈ p.parts, ∀ q ∈ c.2.nodes, q.isSynthetic = false :=
      fun c hc q hq => hp q (nodes_subset_of_mem_parts hc hq)
    have hself := hp p p.self_mem_nodes
    rw [survey_eq]
    cases ho : p.owner? with
    | some o =>
      -- A scope keeps its findings to itself.
      refine iff_of_false (by simp [Findings.close, Findings.scope]) ?_
      rintro ⟨q, hq, hkey⟩
      cases hq with
      | here _ => simp [owner?_of_isKeyEquality hkey] at ho
      | part hnone => simp [ho] at hnone
    | none =>
      rw [Findings.close, Option.elim_none, Findings.pinned_append, List.mem_append,
        mem_pinned_mention_iff hself,
        mem_pinned_surveyParts_iff fun c hc => ih c hc (hparts c hc)]
      constructor
      · rintro (⟨hbinds, hkey⟩ | ⟨q, ⟨c, hc, hq⟩, hkey⟩)
        · exact ⟨p, .here hbinds, hkey⟩
        · exact ⟨q, .part ho hc hq, hkey⟩
      · rintro ⟨q, hq, hkey⟩
        cases hq with
        | here hbinds => exact .inl ⟨hbinds, hkey⟩
        | part _ hc hq => exact .inr ⟨q, ⟨_, hc, hq⟩, hkey⟩

theorem mem_pinned_interior_iff {p : Plan} (hp : ∀ q ∈ p.nodes, q.isSynthetic = false)
    (r : Relation) :
    r ∈ (p.interior g).pinned ↔ ∃ q, p.Bound q ∧ q.isKeyEquality g r = true :=
  mem_pinned_surveyParts_iff fun _ hc =>
    mem_pinned_iff (fun q hq => hp q (nodes_subset_of_mem_parts hc hq)) r

/-- A relation that is read in a scope is exempted from enforcement there exactly if an equality
with its partition key is bound in a scope that reaches it. -/
theorem exempt_iff {p : Plan} (hp : ∀ q ∈ p.nodes, q.isSynthetic = false) {n : Nat} {s : Scope}
    (hs : (p.scopes g)[n]? = some s) {r : Relation} (hr : r ∈ s.seen) :
    r ∉ Scope.outstandingAt (p.scopes g) n ↔
      ∃ m q c, Scope.Reaches (p.scopes g) m n ∧ p.scopeNodes[m]? = some q ∧ q.Bound c ∧
        c.isKeyEquality g r = true := by
  have hnodes : ∀ {m : Nat} {q : Plan}, p.scopeNodes[m]? = some q →
      ∀ q' ∈ q.nodes, q'.isSynthetic = false := fun hq q' hq' =>
    hp q' (nodes_subset_of_mem_nodes (List.mem_of_mem_filter (List.mem_of_getElem? hq)) hq')
  rw [mem_outstandingAt hs, and_iff_right hr, not_not]
  constructor
  · rintro ⟨m, s', hm, hs', hpinned⟩
    obtain ⟨q, hq, hrecords⟩ := exists_records hs'
    rw [hrecords.pinned, List.mem_eraseDups] at hpinned
    obtain ⟨c, hc, hkey⟩ := (mem_pinned_interior_iff (hnodes hq) r).1 hpinned
    exact ⟨m, q, c, hm, hq, hc, hkey⟩
  · rintro ⟨m, q, c, hm, hq, hc, hkey⟩
    obtain ⟨s', hs', hrecords⟩ := exists_getElem?_of_forall₂ (records_scopes g p).flip hq
    refine ⟨m, s', hm, hs', ?_⟩
    rw [hrecords.pinned, List.mem_eraseDups]
    exact (mem_pinned_interior_iff (hnodes hq) r).2 ⟨c, hc, hkey⟩

/-! ### Row filters -/

/-- The `ON` conditions of the inner joins of a source, up to the outer joins and queries in it. -/
def innerOns : Plan → List Plan
  | join kind l r on => if kind.isOuter then [] else l.innerOns ++ r.innerOns ++ on.toList
  | group p | aliased p _ => p.innerOns
  | _ => []

/-- The conditions that every row of a scope satisfies: for a `SELECT` its `WHERE` and `HAVING` and
the `ON` conditions of its inner joins, for an outer join its own `ON` and those of the inner joins
on its sides. -/
def rowFilter : Plan → List Plan
  | select q => q.source.toList.flatMap innerOns ++ q.wheres ++ q.having.toList
  | join _ l r on => l.innerOns ++ r.innerOns ++ on.toList
  | _ => []

/-- The truth of a condition. `AND`, `OR`, `NOT` and parentheses have their meaning, and every other
node is true or false by itself. -/
def truth (atom : Plan → Bool) : Plan → Bool
  | and ps => truthAll atom ps
  | or l r => l.truth atom || r.truth atom
  | not p => !p.truth atom
  | group p => p.truth atom
  | p => atom p
where
  /-- Are all conditions of a list true? -/
  truthAll (atom : Plan → Bool) : List Plan → Bool
    | [] => true
    | p :: ps => p.truth atom && truthAll atom ps

/-- The condition `c` is true whenever all the conditions `fs` are. -/
def Entails (fs : List Plan) (c : Plan) : Prop :=
  ∀ atom : Plan → Bool, (∀ f ∈ fs, f.truth atom = true) → c.truth atom = true

/-- The conditions that a node is the conjunction of, read through conjunctions and parentheses. -/
def asserted : Plan → List Plan
  | and ps => assertedAll ps
  | group p => p.asserted
  | p => [p]
where
  /-- The conditions of a list, in order. -/
  assertedAll : List Plan → List Plan
    | [] => []
    | p :: ps => p.asserted ++ assertedAll ps

private theorem truthAll_iff {atom : Plan → Bool} (ps : List Plan) :
    truth.truthAll atom ps = true ↔ ∀ p ∈ ps, p.truth atom = true := by
  induction ps with
  | nil => simp [truth.truthAll]
  | cons p ps ih => simp [truth.truthAll, ih]

private theorem assertedAll_eq (ps : List Plan) :
    asserted.assertedAll ps = ps.flatMap asserted := by
  induction ps with
  | nil => rfl
  | cons p ps ih => rw [asserted.assertedAll, ih, List.flatMap_cons]

/-- A condition is true exactly if all its conjuncts are. -/
theorem truth_iff {atom : Plan → Bool} (p : Plan) :
    p.truth atom = true ↔ ∀ c ∈ p.asserted, c.truth atom = true := by
  induction p using inductionOnParts with
  | step p ih =>
    cases p with
    | and ps =>
      rw [truth, truthAll_iff, asserted, assertedAll_eq, List.forall_mem_flatMap]
      exact forall₂_congr fun q hq => ih (.inherit, q) (List.mem_map_of_mem hq)
    | group p => exact ih (.inherit, p) (List.mem_singleton_self _)
    | _ => simp [asserted]

/-- A conjunct follows from a filter. -/
theorem entails_of_mem_asserted {fs : List Plan} {c : Plan} (h : c ∈ fs.flatMap asserted) :
    Entails fs c := by
  intro atom hfs
  obtain ⟨f, hf, hc⟩ := List.mem_flatMap.1 h
  exact (truth_iff f).1 (hfs f hf) c hc

/-- Is the node one that is true or false by itself? -/
def isAtom : Plan → Bool
  | and _ | or .. | not _ | group _ => false
  | _ => true

theorem truth_of_isAtom {atom : Plan → Bool} {p : Plan} (h : p.isAtom = true) :
    p.truth atom = atom p := by
  cases p <;> first | rfl | simp [isAtom] at h

/-- From a filter whose conjuncts are free of `OR` and `NOT` nothing but these follows. -/
theorem entails_iff {fs : List Plan} (hfs : ∀ f ∈ fs.flatMap asserted, f.isAtom = true) {c : Plan}
    (hc : c.isAtom = true) : Entails fs c ↔ c ∈ fs.flatMap asserted := by
  refine ⟨fun h => ?_, entails_of_mem_asserted⟩
  -- Make the conjuncts true and everything else false.
  have htrue := h (fun p => decide (p ∈ fs.flatMap asserted)) fun f hf =>
    (truth_iff f).2 fun d hd => by
      have hmem : d ∈ fs.flatMap asserted := List.mem_flatMap.2 ⟨f, hf, hd⟩
      rw [truth_of_isAtom (hfs d hmem)]
      exact decide_eq_true hmem
  rw [truth_of_isAtom hc] at htrue
  exact of_decide_eq_true htrue

/-! ### Exemptions -/

/-- A relation that is read in a scope and exempted from enforcement there is restricted: some scope
that reaches it takes it for tied, and an equality with its partition key follows from the row
filter of that scope. -/
def ExemptOnlyIfRestricted (g : Partitioning) (p : Plan) : Prop :=
  ∀ (n : Nat) (s : Scope) (r : Relation), (p.scopes g)[n]? = some s → r ∈ s.seen →
    r ∉ Scope.outstandingAt (p.scopes g) n →
    ∃ m q, Scope.Reaches (p.scopes g) m n ∧ p.scopeNodes[m]? = some q ∧
      (∃ c, q.Bound c ∧ c.isKeyEquality g r = true) ∧
      ∃ c, c.isKeyEquality g r = true ∧ Entails q.rowFilter c

/-- Where an equality with the partition key of a relation is bound in a scope that reaches the
relation, the row filter of such a scope has such an equality, in the sense of `has`. -/
def BoundAre (has : List Plan → Plan → Prop) (g : Partitioning) (p : Plan) : Prop :=
  ∀ (n : Nat) (s : Scope) (r : Relation), (p.scopes g)[n]? = some s → r ∈ s.seen →
    (∃ m q c, Scope.Reaches (p.scopes g) m n ∧ p.scopeNodes[m]? = some q ∧ q.Bound c ∧
      c.isKeyEquality g r = true) →
    ∃ m q, Scope.Reaches (p.scopes g) m n ∧ p.scopeNodes[m]? = some q ∧
      (∃ c, q.Bound c ∧ c.isKeyEquality g r = true) ∧
      ∃ c, c.isKeyEquality g r = true ∧ has q.rowFilter c

/-- Bound equalities follow from row filters. -/
def BoundAreEntailed (g : Partitioning) (p : Plan) : Prop := p.BoundAre Entails g

/-- Bound equalities are conjuncts of row filters. -/
def BoundAreConjuncts (g : Partitioning) (p : Plan) : Prop :=
  p.BoundAre (fun fs c => c ∈ fs.flatMap asserted) g

theorem isAtom_of_isKeyEquality {p : Plan} {r : Relation} (h : p.isKeyEquality g r = true) :
    p.isAtom = true := by
  unfold isKeyEquality at h
  split at h
  · rfl
  · simp at h

theorem BoundAre.imp {has has' : List Plan → Plan → Prop} {p : Plan} (h : p.BoundAre has g)
    (himp : ∀ q ∈ p.scopeNodes, ∀ r c, c.isKeyEquality g r = true → has q.rowFilter c →
      has' q.rowFilter c) : p.BoundAre has' g := by
  intro n s r hs hr hbound
  obtain ⟨m, q, hm, hq, hbound, c, hkey, hc⟩ := h n s r hs hr hbound
  exact ⟨m, q, hm, hq, hbound, c, hkey, himp q (List.mem_of_getElem? hq) r c hkey hc⟩

/-- **When exemptions are justified.** In a plan without conditions of enforcement, every relation
exempted from enforcement is restricted exactly if bound equalities follow from row filters. They do
where they are conjuncts, and where no row filter uses `OR` or `NOT`, only there. -/
theorem exempt_only_if_restricted {p : Plan} (hp : ∀ q ∈ p.nodes, q.isSynthetic = false) :
    (p.ExemptOnlyIfRestricted g ↔ p.BoundAreEntailed g) ∧
    (p.BoundAreConjuncts g → p.BoundAreEntailed g) ∧
    ((∀ q ∈ p.scopeNodes, ∀ f ∈ q.rowFilter.flatMap asserted, f.isAtom = true) →
      p.BoundAreEntailed g → p.BoundAreConjuncts g) := by
  refine ⟨⟨fun h n s r hs hr hbound => ?_, fun h n s r hs hr hexempt => ?_⟩, fun h => ?_,
    fun hatoms h => ?_⟩
  · exact h n s r hs hr ((exempt_iff hp hs hr).2 hbound)
  · exact h n s r hs hr ((exempt_iff hp hs hr).1 hexempt)
  · exact h.imp fun _ _ _ _ _ hc => entails_of_mem_asserted hc
  · exact h.imp fun q hq _ _ hkey hc =>
      (entails_iff (hatoms q hq) (isAtom_of_isKeyEquality hkey)).1 hc

/-- The equality that ties orders to the tenant `t1`. -/
def ordersOfT1 : Plan := equal (column ⟨⟨"orders", none⟩, "tenant_id"⟩) (literal (.text "t1"))

/-- The orders of the tenant `t1` that have a note. -/
def ordersFiltered : Plan := select {
  source := some (table "orders")
  wheres := [and [group ordersOfT1, raw "note IS NOT NULL"]] }

/-- Orders under a condition that is true of all of them. -/
def ordersUnfiltered : Plan := select {
  source := some (table "orders")
  wheres := [call "COALESCE" [ordersOfT1, literal (.bool true)]] }

theorem scopes_ordersFiltered : ordersFiltered.scopes shop =
    [{ id := 0, owner := .select, seen := [⟨"orders", none⟩], pinned := [⟨"orders", none⟩] }] := by
  decide

theorem scopes_ordersUnfiltered : ordersUnfiltered.scopes shop = ordersFiltered.scopes shop := by
  decide

theorem bound_ordersFiltered : ordersFiltered.Bound ordersOfT1 := by
  refine ⟨(.condition, and [group ordersOfT1, raw "note IS NOT NULL"]),
    by simp [ordersFiltered, parts],
    .part (c := (.inherit, group ordersOfT1)) rfl (by simp [parts]) ?_⟩
  exact .part (c := (.inherit, ordersOfT1)) rfl (by simp [parts]) (.here rfl)

theorem boundAreConjuncts_ordersFiltered : ordersFiltered.BoundAreConjuncts shop := by
  intro n s r hs hr _
  rw [scopes_ordersFiltered, List.getElem?_singleton] at hs
  split at hs
  · next hn =>
    obtain rfl := Option.some.inj hs
    obtain rfl : r = ⟨"orders", none⟩ := by simpa using hr
    refine ⟨0, ordersFiltered, hn ▸ .refl, rfl, ⟨ordersOfT1, bound_ordersFiltered, by decide⟩,
      ordersOfT1, by decide, ?_⟩
    simp [ordersFiltered, rowFilter, innerOns, asserted, asserted.assertedAll, ordersOfT1]
  · simp at hs

/-- The law at a query whose bound equality is a conjunct. -/
theorem exempt_only_if_restricted_orders : ordersFiltered.ExemptOnlyIfRestricted shop := by
  obtain ⟨hexact, hconjuncts, -⟩ :=
    exempt_only_if_restricted (g := shop) (p := ordersFiltered) (by decide)
  exact hexact.2 (hconjuncts boundAreConjuncts_ordersFiltered)

/-- The orders are exempted from enforcement, but the condition is no filter on their tenant. -/
theorem exempt_without_restriction :
    (∀ q ∈ ordersUnfiltered.nodes, q.isSynthetic = false) ∧
      ¬ ordersUnfiltered.ExemptOnlyIfRestricted shop := by
  refine ⟨by decide, fun h => ?_⟩
  obtain ⟨m, q, hm, hq, -, c, hkey, hentails⟩ := h 0 _ ⟨"orders", none⟩
    (by rw [scopes_ordersUnfiltered, scopes_ordersFiltered]; rfl) (by simp) (by decide)
  -- The query has one scope only.
  obtain rfl : m = 0 := by
    cases hm with
    | refl => rfl
    | outerJoin hs ho =>
      rw [scopes_ordersUnfiltered, scopes_ordersFiltered] at hs
      obtain rfl := Option.some.inj hs
      simp at ho
  obtain rfl : ordersUnfiltered = q := Option.some.inj hq
  rw [entails_iff (by decide) (isAtom_of_isKeyEquality hkey)] at hentails
  obtain rfl : c = call "COALESCE" [ordersOfT1, literal (.bool true)] := by
    simpa [rowFilter, ordersUnfiltered, innerOns, asserted] using hentails
  simp [isKeyEquality] at hkey

end Plan

end Tenancy
