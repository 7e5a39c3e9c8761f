import Tenancy.Proofs.Restrict.Mutations

namespace Tenancy

/-!
# Spelling — synthetic conditions written out as equalities

* `Plan.MarksHold` — the synthetic conditions of a plan are about partition keys, and they stand
  where a condition holds of every row;
* `MarksHold.enforce`, `MarksHold.settle`, `MarksHold.guardTarget` — restriction adds no others;
* `Plan.spellOut` — a plan with an equality for each synthetic condition;
* `survey_spellOut`, `openTarget?_spellOut` — where they hold, the equalities are recognised just as
  the conditions are;
* `build_spellOut` — so what has been built for a tenant stays as it is once they are written out.
-/

namespace Plan

open Findings (isKey)

/-! ### Synthetic conditions that hold -/

/-- The partition key that a synthetic condition is about. -/
def syntheticKey? : Plan → Option Column
  | tenantKey k _ | keyLink k _ => some k
  | _ => none

/-- In a plan that counts for `reading`, each synthetic condition is about a partition key and holds
of every row of the scope around it. -/
inductive MarksHold (g : Partitioning) : Reading → Plan → Prop
  /-- A node whose parts are such plans. -/
  | node {reading : Reading} {p : Plan} :
    (∀ k, p.syntheticKey? = some k → reading = .condition ∧ isKey g k = true) →
    (∀ c ∈ p.parts, MarksHold g (c.1.reading reading) c.2) → MarksHold g reading p

variable {g : Partitioning} {reading : Reading}

theorem marksHold_iff {p : Plan} : p.MarksHold g reading ↔
    (∀ k, p.syntheticKey? = some k → reading = .condition ∧ isKey g k = true) ∧
      ∀ c ∈ p.parts, c.2.MarksHold g (c.1.reading reading) := by
  constructor
  · rintro ⟨hkey, hparts⟩
    exact ⟨hkey, hparts⟩
  · rintro ⟨hkey, hparts⟩
    exact .node hkey hparts

/-- Without synthetic conditions there is nothing to say. -/
theorem marksHold_of_plain {p : Plan} (h : ∀ q ∈ p.nodes, q.isSynthetic = false)
    (reading : Reading) : p.MarksHold g reading := by
  induction p using inductionOnParts generalizing reading with
  | step p ih =>
    refine .node (fun k hk => ?_) fun c hc =>
      ih c hc (fun q hq => h q (nodes_subset_of_mem_parts hc hq)) _
    have hplain := h p p.self_mem_nodes
    cases p <;> simp [syntheticKey?, isSynthetic] at hk hplain

theorem marksHold_and (ps : List Plan) :
    (and ps).MarksHold g reading ↔ ∀ p ∈ ps, p.MarksHold g reading := by
  rw [marksHold_iff]
  simp [syntheticKey?, parts, Role.reading]

theorem marksHold_join (kind : JoinKind) (l r : Plan) (on : Option Plan) :
    (join kind l r on).MarksHold g reading ↔
      l.MarksHold g (if kind.isOuter then .source else reading) ∧
        r.MarksHold g (if kind.isOuter then .source else reading) ∧
          ∀ c ∈ on.toList, c.MarksHold g .condition := by
  rw [marksHold_iff]
  cases h : kind.isOuter <;> simp [syntheticKey?, parts, Role.reading, h]

theorem isKey_column {r : Relation} {part : Partition} (h : g.of? r.table = some part) :
    isKey g (r.column part.column) = true := by
  simp [isKey, Relation.column, h]

theorem marksHold_keyCondition {r : Relation} {part : Partition} (h : g.of? r.table = some part)
    (t : Tenant) : (part.keyCondition r t).MarksHold g .condition := by
  refine .node (fun k hk => ⟨rfl, ?_⟩) (by simp [Partition.keyCondition, parts])
  obtain rfl : r.column part.column = k := Option.some.inj hk
  exact isKey_column h

theorem marksHold_keyLink {key : Column} (h : isKey g key = true) (other : Column) :
    (keyLink key other).MarksHold g .condition := by
  refine .node (fun k hk => ⟨rfl, ?_⟩) (by simp [parts])
  obtain rfl : key = k := Option.some.inj hk
  exact h

/-! ### What restriction adds -/

theorem MarksHold.link {key : Column} (hkey : isKey g key = true) {p : Plan}
    (h : p.MarksHold g reading) : (p.link g key).value.MarksHold g reading := by
  induction p using link.induct generalizing reading with
  | case1 kind l r on ihl ihr =>
    rw [marksHold_join] at h
    obtain ⟨hl, hr, hon⟩ := h
    rw [value_link_join, marksHold_join]
    refine ⟨ihl hl, ihr hr, ((adds_linkedOn g key _ _ on).forall_iff marksHold_and).2 ⟨hon, ?_⟩⟩
    intro c hc
    obtain ⟨other, -, rfl⟩ := List.mem_map.1 hc
    exact marksHold_keyLink hkey other
  | case2 p hp => rwa [link_of_not_join g key hp]

theorem MarksHold.linkAll {keys : List Column} (hkeys : ∀ k ∈ keys, isKey g k = true) {p : Plan}
    (h : p.MarksHold g reading) : (linkAll g keys p).value.MarksHold g reading :=
  linkAll_induction h fun k hk _ hq => hq.link (hkeys k hk)

theorem isKey_of_mem_linkKeys (e : Restriction) (n : Nat) :
    ∀ k ∈ e.linkKeys n, isKey e.partitioning k = true := by
  intro k hk
  obtain ⟨r, -, hr⟩ := List.mem_filterMap.1 hk
  obtain ⟨part, hpart, rfl⟩ := Option.map_eq_some_iff.1 hr
  exact isKey_column hpart

theorem marksHold_of_mem_keyConditions (e : Restriction) (n : Nat) :
    ∀ c ∈ e.keyConditions n, c.MarksHold e.partitioning .condition := by
  intro c hc
  obtain ⟨r, -, part, t, hpart, rfl⟩ := exists_outstanding_of_mem_keyConditions hc
  exact marksHold_keyCondition hpart t

/-- What is enforced at a scope node holds of every row of the scope. -/
theorem MarksHold.enforce {e : Restriction} {p : Plan} (h : p.MarksHold e.partitioning reading)
    (n : Nat) : (p.enforce e n).MarksHold e.partitioning reading := by
  have hkeys := isKey_of_mem_linkKeys e n
  have hconditions := marksHold_of_mem_keyConditions e n
  cases p with
  | select q =>
    rw [marksHold_iff] at h ⊢
    refine ⟨h.1, ?_⟩
    simp only [Plan.enforce, parts, List.forall_mem_append, List.forall_mem_map] at h ⊢
    obtain ⟨-, ⟨⟨⟨⟨⟨hsource, hps⟩, hws⟩, hgs⟩, hvs⟩, hhaving⟩, hos⟩ := h
    refine ⟨⟨⟨⟨⟨⟨fun s hs => ?_, hps⟩, ?_⟩, hgs⟩, hvs⟩, hhaving⟩, hos⟩
    · obtain ⟨t, ht, rfl⟩ := Option.map_eq_some_iff.1 (Option.mem_toList.1 hs)
      exact (hsource t (Option.mem_toList.2 ht)).linkAll hkeys
    · exact ((adds_addWheres _ q.wheres).forall_iff marksHold_and).2 ⟨hws, hconditions⟩
  | join kind l r on =>
    rw [Plan.enforce]
    split
    · rw [marksHold_join] at h ⊢
      obtain ⟨hl, hr, hon⟩ := h
      exact ⟨hl.linkAll hkeys, hr.linkAll hkeys,
        ((adds_addOn _ on).forall_iff marksHold_and).2 ⟨hon, hconditions⟩⟩
    · exact h
  | _ => exact h

@[simp] theorem syntheticKey?_mapParts (f : Plan → Plan) (p : Plan) :
    (p.mapParts f).syntheticKey? = p.syntheticKey? := by
  cases p <;> rfl

theorem MarksHold.settle (access : Access) {p : Plan} (h : p.MarksHold g reading)
    (inherited : List Relation) : (p.settle g g access inherited).MarksHold g reading := by
  induction p using inductionOnParts generalizing reading inherited with
  | step p ih =>
    obtain ⟨hkey, hparts⟩ := marksHold_iff.1 h
    -- Below the node this is so by induction; then its conditions and links are enforced.
    have hbelow : (p.mapParts (Plan.settle g g access (p.tiedInside g inherited))).MarksHold g
        reading := by
      rw [marksHold_iff, syntheticKey?_mapParts, (keepsNames_settle ..).parts_mapParts]
      refine ⟨hkey, fun c hc => ?_⟩
      obtain ⟨d, hd, rfl⟩ := List.mem_map.1 hc
      exact ih d hd (hparts d hd) _
    rw [settle_eq]
    exact MarksHold.enforce (e := ⟨g, access, fun _ => p.leftOpen g inherited⟩) hbelow 0

theorem MarksHold.guardTarget (access : Access) {p : Plan} (h : p.MarksHold g reading) :
    (p.guardTarget g access).MarksHold g reading := by
  have hkeys : ∀ c ∈ (p.missingKey? g access).toList, c.MarksHold g .condition := by
    intro c hc
    obtain ⟨r, part, t, hpart, -, rfl⟩ :=
      exists_keyCondition_of_missingKey? (Option.mem_toList.1 hc)
    exact marksHold_keyCondition hpart t
  rw [guardTarget_eq]
  cases p with
  | update target assignments ws =>
    rw [marksHold_iff] at h ⊢
    simp only [withWheres, mutationWheres, parts, List.forall_mem_cons, List.forall_mem_append,
      List.forall_mem_map, List.cons_append] at h ⊢
    exact ⟨h.1, h.2.1, h.2.2.1, h.2.2.2, hkeys⟩
  | delete target ws =>
    rw [marksHold_iff] at h ⊢
    simp only [withWheres, mutationWheres, parts, List.forall_mem_cons, List.forall_mem_append,
      List.forall_mem_map] at h ⊢
    exact ⟨h.1, h.2.1, h.2.2, hkeys⟩
  | _ => exact h

/-! ### Spelling out -/

/-- The equality that a synthetic condition is. -/
def spellNode : Plan → Plan
  | tenantKey k v => equal (column k) (literal v)
  | keyLink k o => equal (column k) (column o)
  | p => p

/-- The plan with its synthetic conditions written out as equalities. -/
def spellOut : Plan → Plan := rewriteUp spellNode

theorem spellOut_eq {p : Plan} (h : p.isSynthetic = false) :
    p.spellOut = p.mapParts spellOut := by
  rw [spellOut, rewriteUp_eq]
  cases p <;> first | rfl | simp [isSynthetic] at h

theorem keepsNames_spellOut : KeepsNames spellOut where
  eq_self p hp := by cases p <;> first | rfl | simp [isName] at hp
  isName p := by cases p <;> rfl

theorem keepsAnd_spellOut : KeepsAnd spellOut :=
  keepsAnd_rewriteUp (fun _ => rfl) fun p => by cases p <;> rfl

theorem isSynthetic_spellOut (p : Plan) : ∀ m ∈ p.spellOut.nodes, m.isSynthetic = false := by
  induction p using inductionOnParts with
  | step p ih =>
    cases h : p.isSynthetic with
    | true =>
      cases p with
      | tenantKey k v =>
        show ∀ m ∈ (equal (column k) (literal v)).nodes, m.isSynthetic = false
        simp [nodes, subnodes, isSynthetic]
      | keyLink k o =>
        show ∀ m ∈ (equal (column k) (column o)).nodes, m.isSynthetic = false
        simp [nodes, subnodes, isSynthetic]
      | _ => simp [isSynthetic] at h
    | false =>
      intro m hm
      rw [spellOut_eq h, nodes_eq, flatMap_parts_mapParts spellOut nodes] at hm
      rcases List.mem_cons.1 hm with rfl | hm
      · cases p <;> first | rfl | simp [isSynthetic] at h
      · obtain ⟨c, hc, hm⟩ := List.mem_flatMap.1 hm
        exact ih c hc m hm

/-- Where synthetic conditions hold, a survey does not tell them from equalities. -/
theorem survey_spellOut {p : Plan} (h : p.MarksHold g reading) :
    p.spellOut.survey g reading = p.survey g reading := by
  induction p using inductionOnParts generalizing reading with
  | step p ih =>
    obtain ⟨hkey, hparts⟩ := marksHold_iff.1 h
    cases hs : p.isSynthetic with
    | true =>
      -- An equality counts only as a condition and only on a partition key, and it is both.
      cases p with
      | tenantKey k v =>
        obtain ⟨rfl, hk⟩ := hkey k rfl
        show (equal (column k) (literal v)).survey g .condition = { pinned := [k.relation] }
        simp [survey, Findings.equality, Findings.reference, Reading.condition, hk]
      | keyLink k o =>
        obtain ⟨rfl, hk⟩ := hkey k rfl
        show (equal (column k) (column o)).survey g .condition = { pinned := [k.relation] }
        simp [survey, Findings.equality, Findings.reference, Reading.condition, hk]
      | _ => simp [isSynthetic] at hs
    | false =>
      have hsame : surveyParts g reading (p.mapParts spellOut).parts
          = surveyParts g reading p.parts := by
        rw [surveyParts, surveyParts, keepsNames_spellOut.parts_mapParts, List.map_map]
        exact congrArg _ (List.map_congr_left fun c hc => ih c hc (hparts c hc))
      rw [spellOut_eq hs, survey_eq, survey_eq g reading p, owner?_mapParts,
        keepsNames_spellOut.mention_mapParts, hsame]

theorem scopes_spellOut {p : Plan} (h : p.MarksHold g .condition) :
    p.spellOut.scopes g = p.scopes g := by
  rw [scopes, survey_spellOut h, ← scopes]

/-! ### Targets -/

theorem relation?_spellOut (p : Plan) : p.spellOut.relation? = p.relation? := by
  cases h : p.isSynthetic with
  | false => rw [spellOut_eq h, keepsNames_spellOut.relation?_mapParts]
  | true => cases p <;> first | rfl | simp [isSynthetic] at h

theorem target?_spellOut (p : Plan) : p.spellOut.target? = p.target?.map spellOut := by
  cases p <;> rfl

theorem mutationWheres_spellOut (p : Plan) :
    p.spellOut.mutationWheres = p.mutationWheres.map spellOut := by
  cases h : p.isSynthetic with
  | false => rw [spellOut_eq h, mutationWheres_mapParts]
  | true => cases p <;> first | rfl | simp [isSynthetic] at h

/-- A condition that holds of every row ties what it tied once it is written out. -/
theorem holdsKey_spellOut {r : Relation} {part : Partition} (hpart : g.of? r.table = some part)
    {p : Plan} (h : p.MarksHold g .condition) (hholds : holdsKey r part p = true) :
    holdsKey r part p.spellOut = true := by
  rw [holdsKey_eq, List.any_eq_true] at hholds ⊢
  obtain ⟨c, hc, hties⟩ := hholds
  refine ⟨c.spellOut, ?_, ?_⟩
  · rw [keepsAnd_spellOut.conjuncts]
    exact List.mem_map_of_mem hc
  · have hmarks : c.MarksHold g .condition := (forall_conjuncts_iff marksHold_and p).2 h c hc
    cases hs : c.isSynthetic with
    | false => rwa [spellOut_eq hs, keepsNames_spellOut.tiesKey_mapParts]
    | true =>
      cases c with
      | tenantKey k v =>
        -- The key is the partition key of its relation, which is `r`.
        have hkey := ((marksHold_iff.1 hmarks).1 k rfl).2
        obtain rfl : k.relation = r := of_decide_eq_true hties
        have hname : part.column = k.name := by simpa [isKey, hpart] using hkey
        exact decide_eq_true (by rw [Relation.column, hname])
      | keyLink k o => simp [tiesKey] at hties
      | _ => simp [isSynthetic] at hs

theorem mem_parts_of_mem_mutationWheres {p w : Plan} (h : w ∈ p.mutationWheres) :
    (.condition, w) ∈ p.parts := by
  cases p with
  | update => exact List.mem_append_right _ (List.mem_map_of_mem h)
  | delete => exact List.mem_cons_of_mem _ (List.mem_map_of_mem h)
  | _ => simp [mutationWheres] at h

/-- A target that is tied stays tied. -/
theorem openTarget?_spellOut {p : Plan} (h : p.MarksHold g .condition)
    (hopen : p.openTarget? g = none) : p.spellOut.openTarget? g = none := by
  have hguarded : p.spellOut.guarded? g = p.guarded? g :=
    guarded?_congr relation?_spellOut (target?_spellOut p) g
  rw [openTarget?_eq_none_iff] at hopen ⊢
  intro x hx
  rw [hguarded] at hx
  obtain ⟨w, hw, hholds⟩ := List.any_eq_true.1 (hopen x hx)
  have hmarks : w.MarksHold g .condition :=
    (marksHold_iff.1 h).2 _ (mem_parts_of_mem_mutationWheres hw)
  rw [mutationWheres_spellOut, List.any_eq_true]
  exact ⟨w.spellOut, List.mem_map_of_mem hw,
    holdsKey_spellOut (of?_of_guarded? hx) hmarks hholds⟩

/-! ### Building -/

/-- **Synthetic conditions survive being written out.** A plan without synthetic conditions is built
for a tenant, and the synthetic conditions of the result are written out as the equalities that they
are. No synthetic condition is left then, and building the plan once more changes nothing, whatever
the second access is: each equality is recognised as the condition was. -/
theorem build_spellOut (s : Session) {access : Access} {t : Tenant}
    (ht : access.tenant = some t) (hw : access.writeOnly = false) {p : Plan}
    (hp : ∀ m ∈ p.nodes, m.isSynthetic = false) :
    ∃ q, (s.build access p).value = .ok q ∧
      (∀ m ∈ q.spellOut.nodes, m.isSynthetic = false) ∧
      ∀ access', (s.build access' q.spellOut).value = .ok q.spellOut := by
  set g := s.partitioning with hg
  have hmarks : ((p.guardTarget g access).settle g g access []).MarksHold g .condition :=
    ((marksHold_of_plain hp _).guardTarget access).settle access []
  refine ⟨_, value_secure_eq_settle hw p, isSynthetic_spellOut _, fun access' => ?_⟩
  refine secure_of_nothing_open ?_ (fun n => ?_) access'
  · exact openTarget?_spellOut hmarks (openTarget?_settle_guardTarget ht hw p)
  · rw [← hg, scopes_spellOut hmarks, outstandingAt_settle ht hw]

/-- A deletion of orders is built for one tenant, written out and built for another one. -/
theorem build_spellOut_deleteCancelled :
    ∃ q, (shopSession.build (.ofTenant ⟨"t1"⟩) deleteCancelled).value = .ok q ∧
      (∀ m ∈ q.spellOut.nodes, m.isSynthetic = false) ∧
      (shopSession.build (.ofTenant ⟨"t2"⟩) q.spellOut).value = .ok q.spellOut := by
  have htenant : (Access.ofTenant ⟨"t1"⟩).tenant = some ⟨"t1"⟩ := rfl
  have hplain : ∀ m ∈ deleteCancelled.nodes, m.isSynthetic = false := by decide
  obtain ⟨q, hq, hspelt, hagain⟩ := build_spellOut shopSession htenant rfl hplain
  exact ⟨q, hq, hspelt, hagain (.ofTenant ⟨"t2"⟩)⟩

end Plan

end Tenancy
