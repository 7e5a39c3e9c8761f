import Mathlib.Data.List.Basic
import Tenancy.Proofs.Plan.Parts
import Tenancy.Scope.Restrict

namespace Tenancy

/-!
# Conjunctions — what is added to `WHERE` and `ON`

Conditions are added to a `WHERE` list in front of its first condition and to an `ON` at its end,
and both extend a conjunction that is there. Anything that is read through conjunctions, such as
the conjuncts of a condition or its survey, sees what was there and what was added, in that order.

* `Plan.ThroughAnd` — a conjunction has what its parts have, one after another;
* `flatMap_addWheres`, `flatMap_addOn`, `flatMap_addCondition` — what additions do to that;
* `Plan.Adds` — what the three of them have in common; `Adds.forall_iff` — what holds of all
  conditions holds of those that were there and of those that were added;
* `throughAnd_conjuncts`, `throughAnd_owners`, `throughAnd_scopeNodes`, `throughAnd_seen`,
  `throughAnd_pinned`, `throughAnd_inner` — what is read in this way;
* `Plan.KeepsAnd` — a map of plans that keeps conjunctions, with which all of the above commutes;
* `owners_of_isSynthetic`, `seen_of_isSynthetic` — the conditions that enforcement adds read
  nothing and own no scope.
-/

namespace Plan

/-- A conjunction has what its parts have, one after another. -/
def ThroughAnd {β : Type} (f : Plan → List β) : Prop := ∀ ps, f (and ps) = ps.flatMap f

section

variable {β : Type} {f : Plan → List β}

theorem ThroughAnd.apply_and (hf : ThroughAnd f) (ps : List Plan) : f (and ps) = ps.flatMap f :=
  hf ps

theorem ThroughAnd.conjoin (hf : ThroughAnd f) (p q : Plan) : f (p.conjoin q) = f p ++ f q := by
  cases p <;> simp [Plan.conjoin, hf.apply_and]

theorem ThroughAnd.flatMap_conjunction (hf : ThroughAnd f) (ps : List Plan) :
    (conjunction ps).toList.flatMap f = ps.flatMap f := by
  match ps with
  | [] => rfl
  | [p] => rfl
  | p :: q :: ps => simp [conjunction, hf.apply_and]

theorem ThroughAnd.foldl_conjoin (hf : ThroughAnd f) (cs : List Plan) (p : Plan) :
    f (cs.foldl Plan.conjoin p) = f p ++ cs.flatMap f := by
  induction cs generalizing p with
  | nil => simp
  | cons c cs ih => rw [List.foldl_cons, ih, hf.conjoin, List.flatMap_cons, List.append_assoc]

theorem ThroughAnd.flatMap_addCondition (hf : ThroughAnd f) (on : Option Plan) (q : Plan) :
    (addCondition on q).toList.flatMap f = on.toList.flatMap f ++ f q := by
  cases on <;> simp [addCondition, hf.conjoin]

theorem ThroughAnd.flatMap_addOn (hf : ThroughAnd f) (cs : List Plan) (on : Option Plan) :
    (addOn cs on).toList.flatMap f = on.toList.flatMap f ++ cs.flatMap f := by
  cases on with
  | none => exact hf.flatMap_conjunction cs
  | some p => simp [addOn, hf.foldl_conjoin]

theorem ThroughAnd.flatMap_addWheres (hf : ThroughAnd f) (cs ws : List Plan) :
    (addWheres cs ws).flatMap f = cs.flatMap f ++ ws.flatMap f := by
  unfold addWheres
  -- Nothing is added, or the list is empty, or it begins with a conjunction or with another node.
  split
  · rfl
  · rw [hf.flatMap_conjunction, List.flatMap_nil, List.append_nil]
  · simp [hf.apply_and]
  · simp [hf.apply_and]

end

@[simp] theorem addWheres_nil (ws : List Plan) : addWheres [] ws = ws := by
  rw [addWheres]

@[simp] theorem addOn_nil (on : Option Plan) : addOn [] on = on := by
  cases on <;> rfl

/-- The conditions `ps'` are the conditions `ps` with `cs` added in front or behind, as far as what
is read through conjunctions can tell. -/
structure Adds (cs ps ps' : List Plan) : Prop where
  flatMap : ∀ {β : Type} {f : Plan → List β}, ThroughAnd f →
    ps'.flatMap f = ps.flatMap f ++ cs.flatMap f ∨ ps'.flatMap f = cs.flatMap f ++ ps.flatMap f

theorem adds_nil (ps : List Plan) : Adds [] ps ps := ⟨fun _ => .inl (List.append_nil _).symm⟩

theorem adds_append (cs ps : List Plan) : Adds cs ps (ps ++ cs) :=
  ⟨fun _ => .inl List.flatMap_append⟩

theorem adds_addCondition (on : Option Plan) (c : Plan) :
    Adds [c] on.toList (addCondition on c).toList := by
  refine ⟨fun hf => .inl ?_⟩
  rw [hf.flatMap_addCondition, List.flatMap_singleton]

theorem adds_addOn (cs : List Plan) (on : Option Plan) : Adds cs on.toList (addOn cs on).toList :=
  ⟨fun hf => .inl (hf.flatMap_addOn cs on)⟩

theorem adds_addWheres (cs ws : List Plan) : Adds cs ws (addWheres cs ws) :=
  ⟨fun hf => .inr (hf.flatMap_addWheres cs ws)⟩

theorem Adds.mem_flatMap {cs ps ps' : List Plan} (h : Adds cs ps ps') {β : Type}
    {f : Plan → List β} (hf : ThroughAnd f) (x : β) :
    x ∈ ps'.flatMap f ↔ x ∈ ps.flatMap f ∨ x ∈ cs.flatMap f := by
  rcases h.flatMap hf with h | h <;> rw [h, List.mem_append]
  exact Or.comm

/-- What the added conditions do not have at all is what it was. -/
theorem Adds.flatMap_eq {cs ps ps' : List Plan} (h : Adds cs ps ps') {β : Type}
    {f : Plan → List β} (hf : ThroughAnd f) (hcs : ∀ c ∈ cs, f c = []) :
    ps'.flatMap f = ps.flatMap f := by
  have hnil : cs.flatMap f = [] := List.flatMap_eq_nil_iff.2 hcs
  rcases h.flatMap hf with h | h <;> simp [h, hnil]

/-! ### What is read through conjunctions -/

private theorem conjunctsAll_eq (ps : List Plan) :
    conjuncts.conjunctsAll ps = ps.flatMap conjuncts := by
  induction ps with
  | nil => rfl
  | cons p ps ih => rw [conjuncts.conjunctsAll, ih, List.flatMap_cons]

theorem throughAnd_conjuncts : ThroughAnd conjuncts := conjunctsAll_eq

theorem mem_nodes_of_mem_conjuncts {p c : Plan} (h : c ∈ p.conjuncts) : c ∈ p.nodes := by
  induction p using inductionOnParts with
  | step p ih =>
    cases p with
    | and ps =>
      rw [throughAnd_conjuncts.apply_and, List.mem_flatMap] at h
      obtain ⟨q, hq, hc⟩ := h
      have hpart : (Role.inherit, q) ∈ (and ps).parts := by simpa [parts] using hq
      exact nodes_subset_of_mem_parts hpart (ih _ hpart hc)
    | _ =>
      obtain rfl := List.mem_singleton.1 h
      exact self_mem_nodes _

/-- What holds of a conjunction exactly if it holds of its parts holds of a condition exactly if it
holds of its conjuncts. -/
theorem forall_conjuncts_iff {P : Plan → Prop} (hP : ∀ ps, P (and ps) ↔ ∀ p ∈ ps, P p) (p : Plan) :
    (∀ c ∈ p.conjuncts, P c) ↔ P p := by
  induction p using inductionOnParts with
  | step p ih =>
    cases p with
    | and ps =>
      have hps : ∀ q ∈ ps, (∀ c ∈ q.conjuncts, P c) ↔ P q := fun q hq =>
        ih (.inherit, q) (by simpa [parts] using hq)
      rw [throughAnd_conjuncts.apply_and, hP, List.forall_mem_flatMap]
      exact forall₂_congr hps
    | _ => exact List.forall_mem_singleton

theorem Adds.forall_iff {cs ps ps' : List Plan} (h : Adds cs ps ps') {P : Plan → Prop}
    (hP : ∀ ps, P (and ps) ↔ ∀ p ∈ ps, P p) :
    (∀ p ∈ ps', P p) ↔ (∀ p ∈ ps, P p) ∧ ∀ c ∈ cs, P c := by
  have hall : ∀ qs : List Plan, (∀ p ∈ qs, P p) ↔ ∀ c ∈ qs.flatMap conjuncts, P c := by
    intro qs
    rw [List.forall_mem_flatMap]
    exact forall₂_congr fun q _ => (forall_conjuncts_iff hP q).symm
  rw [hall, hall ps, hall cs]
  simp only [h.mem_flatMap throughAnd_conjuncts, or_imp, forall_and]

theorem throughAnd_owners : ThroughAnd owners := fun ps => by
  rw [owners_eq]
  simp [owner?, parts, List.flatMap_map]

theorem throughAnd_scopeNodes : ThroughAnd scopeNodes := fun ps => by
  rw [scopeNodes_eq]
  simp [owner?, parts, List.flatMap_map]

private theorem survey_and (g : Partitioning) (reading : Reading) (ps : List Plan) :
    (and ps).survey g reading = Findings.concat (ps.map (survey g reading)) := by
  rw [survey_eq]
  simp [owner?, parts, mention, Findings.close, surveyParts, Role.reading, Function.comp_def]

theorem throughAnd_seen (g : Partitioning) (reading : Reading) :
    ThroughAnd fun p => (p.survey g reading).seen := fun ps => by
  simp only [survey_and, Findings.seen_concat, List.flatMap_map]

theorem throughAnd_pinned (g : Partitioning) (reading : Reading) :
    ThroughAnd fun p => (p.survey g reading).pinned := fun ps => by
  simp only [survey_and, Findings.pinned_concat, List.flatMap_map]

theorem throughAnd_inner (g : Partitioning) (reading : Reading) :
    ThroughAnd fun p => (p.survey g reading).inner := fun ps => by
  simp only [survey_and, Findings.inner_concat, List.flatMap_map]

/-! ### Conjunctions under a map -/

/-- Is the node a conjunction? -/
def isAnd : Plan → Bool
  | and _ => true
  | _ => false

/-- The conditions that a node is the conjunction of at its top. -/
def topConjuncts : Plan → List Plan
  | and ps => ps
  | p => [p]

theorem exists_eq_and_of_isAnd {p : Plan} (h : p.isAnd = true) : ∃ ps, p = and ps := by
  cases p <;> first | exact ⟨_, rfl⟩ | simp [isAnd] at h

theorem topConjuncts_of_isAnd_eq_false {p : Plan} (h : p.isAnd = false) : p.topConjuncts = [p] := by
  cases p <;> first | rfl | simp [isAnd] at h

theorem conjuncts_of_isAnd_eq_false {p : Plan} (h : p.isAnd = false) : p.conjuncts = [p] := by
  cases p <;> first | rfl | simp [isAnd] at h

theorem conjoin_eq (p q : Plan) : p.conjoin q = and (p.topConjuncts ++ [q]) := by
  cases p <;> rfl

theorem addWheres_cons_cons (c : Plan) (cs : List Plan) (w : Plan) (ws : List Plan) :
    addWheres (c :: cs) (w :: ws) = and (c :: cs ++ w.topConjuncts) :: ws := by
  cases w <;> rfl

/-- A map of plans that takes a conjunction to the conjunction of its mapped parts, and nothing else
to a conjunction. -/
structure KeepsAnd (h : Plan → Plan) : Prop where
  and : ∀ ps, h (and ps) = and (ps.map h)
  isAnd : ∀ p, (h p).isAnd = p.isAnd

section

variable {h : Plan → Plan} (hh : KeepsAnd h)
include hh

theorem KeepsAnd.topConjuncts (p : Plan) : (h p).topConjuncts = p.topConjuncts.map h := by
  cases hp : p.isAnd with
  | true =>
    obtain ⟨ps, rfl⟩ := exists_eq_and_of_isAnd hp
    rw [hh.and, Plan.topConjuncts, Plan.topConjuncts]
  | false =>
    rw [topConjuncts_of_isAnd_eq_false hp, List.map_singleton,
      topConjuncts_of_isAnd_eq_false ((hh.isAnd p).trans hp)]

theorem KeepsAnd.conjuncts (p : Plan) : (h p).conjuncts = p.conjuncts.map h := by
  induction p using inductionOnParts with
  | step p ih =>
    cases hp : p.isAnd with
    | true =>
      obtain ⟨ps, rfl⟩ := exists_eq_and_of_isAnd hp
      have hps : ∀ q ∈ ps, (h q).conjuncts = q.conjuncts.map h := by
        intro q hq
        exact ih (.inherit, q) (by simpa [parts] using hq)
      rw [hh.and, throughAnd_conjuncts.apply_and, throughAnd_conjuncts.apply_and,
        List.map_flatMap, List.flatMap_map]
      exact List.flatMap_congr hps
    | false =>
      rw [conjuncts_of_isAnd_eq_false hp, List.map_singleton,
        conjuncts_of_isAnd_eq_false ((hh.isAnd p).trans hp)]

theorem KeepsAnd.conjoin (p q : Plan) : h (p.conjoin q) = (h p).conjoin (h q) := by
  rw [conjoin_eq, conjoin_eq, hh.and, List.map_append, hh.topConjuncts, List.map_singleton]

theorem KeepsAnd.conjunction (ps : List Plan) :
    (conjunction ps).map h = conjunction (ps.map h) := by
  match ps with
  | [] => rfl
  | [p] => rfl
  | p :: q :: ps => exact congrArg some (hh.and _)

theorem KeepsAnd.addCondition (on : Option Plan) (p : Plan) :
    (addCondition on p).map h = addCondition (on.map h) (h p) := by
  cases on with
  | none => rfl
  | some q => exact congrArg some (hh.conjoin q p)

theorem KeepsAnd.addOn (cs : List Plan) (on : Option Plan) :
    (addOn cs on).map h = addOn (cs.map h) (on.map h) := by
  cases on with
  | none => exact hh.conjunction cs
  | some p =>
    refine congrArg some ?_
    induction cs generalizing p with
    | nil => rfl
    | cons c cs ih => rw [List.foldl_cons, ih, hh.conjoin, List.map_cons, List.foldl_cons]

theorem KeepsAnd.addWheres (cs ws : List Plan) :
    (addWheres cs ws).map h = addWheres (cs.map h) (ws.map h) := by
  match cs, ws with
  | [], ws => rw [addWheres_nil, List.map_nil, addWheres_nil]
  | c :: cs, [] =>
    have hall := congrArg Option.toList (hh.conjunction (c :: cs))
    rw [Option.toList_map] at hall
    exact hall
  | c :: cs, w :: ws =>
    rw [addWheres_cons_cons, List.map_cons, hh.and, List.map_append, ← hh.topConjuncts,
      List.map_cons, List.map_cons, addWheres_cons_cons]

end

/-! ### The conditions that enforcement adds -/

section

variable {c : Plan} (h : c.isSynthetic = true)
include h

theorem owners_of_isSynthetic : c.owners = [] := by
  cases c <;> simp_all [isSynthetic, owners]

theorem scopeNodes_of_isSynthetic : c.scopeNodes = [] :=
  scopeNodes_eq_nil (owners_of_isSynthetic h)

theorem seen_of_isSynthetic (g : Partitioning) (reading : Reading) :
    (c.survey g reading).seen = [] := by
  cases c <;> simp_all [isSynthetic, survey]

theorem inner_of_isSynthetic (g : Partitioning) (reading : Reading) :
    (c.survey g reading).inner = [] := by
  cases c <;> simp_all [isSynthetic, survey]

end

end Plan

end Tenancy
