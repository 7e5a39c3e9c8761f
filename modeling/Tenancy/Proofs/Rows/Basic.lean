import Tenancy.Proofs.Plan.Marks
import Tenancy.Proofs.Restrict.Stability

namespace Tenancy

/-!
# Rows — trees of joins and the conditions on their rows

* `Plan.JoinTree` — a tree of joins over tables, with simple `ON` conditions;
* `Plan.direct` — the relations of a tree that no outer join encloses;
* `JoinTree.seen_eq` — these are what a survey reads in the tree;
* `Row`, `Row.value` — a row of a tree: at most one record for each relation;
* `Plan.holds` — a condition on a row, in which only the conditions of enforcement and `AND` have a
  meaning of their own;
* `holds_iff`, `Adds.holds_iff` — a condition holds if all its conjuncts hold, so added conditions
  hold in addition to what was there.
-/

namespace Plan

/-! ### Trees of joins -/

/-- A tree of joins of the given kinds over tables and tables under an alias, with parentheses
anywhere. -/
inductive JoinTree (kinds : JoinKind → Prop) : Plan → Prop
  /-- A table. -/
  | table (name : String) : JoinTree kinds (table name)
  /-- A table under an alias. -/
  | aliased (name label : String) : JoinTree kinds (aliased (table name) label)
  /-- A tree in parentheses. -/
  | group {p : Plan} : JoinTree kinds p → JoinTree kinds (group p)
  /-- Two trees joined. -/
  | join {kind : JoinKind} {l r : Plan} {on : Option Plan} : kinds kind → JoinTree kinds l →
    JoinTree kinds r → (∀ c ∈ on.toList, c.Simple) → JoinTree kinds (join kind l r on)

/-- The relations of a tree that no outer join encloses. -/
def direct : Plan → List Relation
  | join kind l r _ => if kind.isOuter then [] else l.direct ++ r.direct
  | group p => p.direct
  | p => p.relation?.toList

variable {kinds : JoinKind → Prop}

/-- Parts that do not count as read are not read. -/
theorem seen_surveyParts_eq_nil (g : Partitioning) (reading : Reading) (ρ : Role)
    (hρ : (ρ.reading reading).reads = false) (ps : List Plan) :
    (surveyParts g reading (ps.map (ρ, ·))).seen = [] := by
  rw [seen_surveyParts, List.flatMap_map]
  exact List.flatMap_eq_nil_iff.2 fun c _ => seen_eq_nil hρ c

/-- What a survey reads in a tree: its direct relations, as far as they are tenant relations. -/
theorem JoinTree.seen_eq {g : Partitioning} {p : Plan} (h : JoinTree kinds p) :
    (p.survey g .source).seen = p.direct.filter (g.covers ·.table) := by
  have href : ∀ r, (Findings.reference g .source r).seen = [r].filter (g.covers ·.table) := by
    intro r
    cases hr : g.covers r.table <;> simp [Findings.reference, Reading.source, hr]
  induction h with
  | table name => exact href _
  | aliased name label => exact href _
  | group _ ih => exact ih
  | @join kind l r on _ _ _ _ ihl ihr =>
    rw [survey_eq]
    cases hkind : kind.isOuter with
    | true =>
      -- An outer join reads its sides in a scope of its own.
      simp [owner?, hkind, Findings.close, Findings.scope, direct]
    | false =>
      simp only [owner?, hkind, Findings.close, mention, parts, surveyParts_cons, Role.reading,
        Bool.false_eq_true, if_false, Option.elim_none, Findings.empty_append,
        Findings.seen_append, direct, List.filter_append, ihl, ihr,
        seen_surveyParts_eq_nil g .source .condition rfl, List.append_nil]

/-- Without outer joins all relations of a tree are direct. -/
theorem JoinTree.direct_eq_relations {p : Plan}
    (h : JoinTree (fun kind => kind.isOuter = false) p) : p.direct = p.relations := by
  induction h with
  | table | aliased => rfl
  | group _ ih => exact ih
  | join hkind _ _ _ ihl ihr =>
    rw [direct, relations, hkind, ihl, ihr, if_neg Bool.false_ne_true]

theorem owners_eq_nil_of_simple {ps : List Plan} (h : ∀ c ∈ ps, c.Simple) :
    ps.flatMap owners = [] :=
  List.flatMap_eq_nil_iff.2 fun c hc => (h c hc).owners_eq_nil

/-- Without outer joins a tree owns no scope. -/
theorem JoinTree.owners_eq_nil {p : Plan}
    (h : JoinTree (fun kind => kind.isOuter = false) p) : p.owners = [] := by
  induction h with
  | table | aliased => rfl
  | group _ ih => exact ih
  | @join kind l r on hkind _ _ hon ihl ihr =>
    rw [owners_eq]
    simp [owner?, parts, hkind, List.flatMap_map, ihl, ihr, owners_eq_nil_of_simple hon]

/-! ### What is outstanding -/

/-- In an unmarked plan all that a scope reads is outstanding. -/
theorem Unmarked.mem_outstandingAt {g : Partitioning} {p q : Plan} (h : p.Unmarked g) {n : Nat}
    (hq : p.scopeNodes[n]? = some q) (r : Relation) :
    r ∈ Scope.outstandingAt (p.scopes g) n ↔ r ∈ (q.interior g).seen := by
  obtain ⟨s, hs, hrecords⟩ := exists_getElem?_of_forall₂ (records_scopes g p).flip hq
  rw [Plan.mem_outstandingAt hs, hrecords.seen, List.mem_eraseDups, and_iff_left_iff_imp]
  -- No scope that reaches this one ties anything, since none of them does.
  rintro _ ⟨m, s', _, hs', hpinned⟩
  obtain ⟨q', hq', hrecords'⟩ := exists_records hs'
  have hnodes : q' ∈ p.nodes := List.mem_of_mem_filter (List.mem_of_getElem? hq')
  have hnone : (q'.interior g).pinned = [] := by
    rw [interior, pinned_surveyParts]
    exact List.flatMap_eq_nil_iff.2 fun c hc => pinned_eq_nil ((h.node hnodes).part hc)
  rw [hrecords'.pinned, hnone] at hpinned
  simp at hpinned

/-- A `SELECT` reads its source. -/
theorem seen_interior_select (g : Partitioning) (q : Query Plan) :
    ((select q).interior g).seen = q.source.toList.flatMap fun s => (s.survey g .source).seen := by
  have hvalue := seen_surveyParts_eq_nil g .condition .value rfl
  have hcondition := seen_surveyParts_eq_nil g .condition .condition rfl
  simp only [interior, parts, surveyParts_append, Findings.seen_append]
  rw [seen_surveyParts, List.flatMap_map]
  simp only [hvalue, hcondition, List.append_nil]
  rfl

/-! ### What is imposed on a `SELECT` -/

/-- A `SELECT` whose conditions own no scope gets its conditions in front of its `WHERE`, and its
source is linked after its own scopes are done. -/
theorem value_impose_select (e : Restriction) (n : Nat) {q : Query Plan}
    (hwheres : ∀ c ∈ q.wheres, c.Simple) : ∃ q' : Query Plan,
      ((select q).impose e n).value = select q' ∧
      q'.source = (imposeOption e (n + 1) q.source).value.map
        (fun s => (linkAll e.partitioning (e.linkKeys n) s).value) ∧
      q'.wheres = addWheres (e.keyConditions n) q.wheres := by
  rw [value_impose]
  obtain ⟨ps, source, ws, gs, vs, having, os, limit, offset⟩ := q
  refine ⟨_, rfl, rfl, ?_⟩
  simp only
  rw [imposeAll_of_owners_eq_nil e _ fun c hc => (hwheres c hc).owners_eq_nil]

end Plan

/-! ### Rows -/

/-- The columns of one row of a table. -/
abbrev Record := String → Literal

/-- A row of a tree of joins: the record of each relation, which is missing where the relation has
been extended by nulls or is not in the tree. -/
abbrev Row := Relation → Option Record

/-- The value of a column. -/
def Row.value (row : Row) (c : Column) : Option Literal := (row c.relation).map (· c.name)

namespace Plan

/-- Does a condition hold of a row? `AND` and the conditions that enforcement adds have their
meaning, and `atom` decides about every other node. -/
def holds (atom : Plan → Row → Bool) (row : Row) : Plan → Bool
  | and ps => holdsAll atom row ps
  | tenantKey key v => row.value key == some v
  | keyLink key other => (row.value key).any (row.value other == some ·)
  | p => atom p row
where
  /-- Do all conditions of a list hold? -/
  holdsAll (atom : Plan → Row → Bool) (row : Row) : List Plan → Bool
    | [] => true
    | p :: ps => p.holds atom row && holdsAll atom row ps

variable {atom : Plan → Row → Bool} {row : Row}

theorem holds_and (ps : List Plan) :
    (and ps).holds atom row = true ↔ ∀ p ∈ ps, p.holds atom row = true := by
  rw [holds]
  induction ps with
  | nil => simp [holds.holdsAll]
  | cons p ps ih => simp [holds.holdsAll, ih]

/-- A condition holds exactly if all its conjuncts hold. -/
theorem holds_iff (p : Plan) :
    p.holds atom row = true ↔ ∀ c ∈ p.conjuncts, c.holds atom row = true := by
  induction p using inductionOnParts with
  | step p ih =>
    cases p with
    | and ps =>
      rw [holds_and, throughAnd_conjuncts.apply_and, List.forall_mem_flatMap]
      exact forall₂_congr fun q hq => ih (.inherit, q) (List.mem_map_of_mem hq)
    | _ => simp [conjuncts]

theorem forall_holds_iff (ps : List Plan) : (∀ p ∈ ps, p.holds atom row = true) ↔
    ∀ c ∈ ps.flatMap conjuncts, c.holds atom row = true := by
  rw [List.forall_mem_flatMap]
  exact forall₂_congr fun p _ => holds_iff p

/-- Added conditions hold in addition to what was there. -/
theorem Adds.holds_iff {cs ps ps' : List Plan} (h : Adds cs ps ps') :
    (∀ p ∈ ps', p.holds atom row = true) ↔
      (∀ p ∈ ps, p.holds atom row = true) ∧ ∀ c ∈ cs, c.holds atom row = true := by
  rw [forall_holds_iff, forall_holds_iff ps, forall_holds_iff cs]
  simp only [h.mem_flatMap throughAnd_conjuncts, or_imp, forall_and]

end Plan

end Tenancy
