import Mathlib.Data.List.Flatten
import Tenancy.Plan.Decide
import Tenancy.Proofs.Plan.Contexts
import Tenancy.Proofs.Plan.Marks
import Tenancy.Proofs.Scope.Numbering

namespace Tenancy

/-!
# Regions — which references a scope reads

* `Plan.reached`, `Plan.region` — the nodes that are reached from the sources of a scope node;
* `Plan.tenantReference?` — the tenant relation that a node refers to, as a table or by a column;
* `seen_survey` — what counts as read is read at the nodes that are reached, and nowhere else;
* `seen_survey_put` — so what is not reached may be anything;
* `scopes_read_their_regions` — a scope reads the references in the region of its node, each once.
-/

/-- Does a node read what it reads in such a part? A source is read by the scope that it is the
source of, and what is a condition or a value is not read. -/
def Role.isRead : Role → Bool
  | .inherit | .loose => true
  | _ => false

theorem Role.reads_reading {ρ : Role} (h : ρ.isRead = true) (reading : Reading) :
    (ρ.reading reading).reads = reading.reads := by
  cases ρ <;> first | rfl | simp [isRead] at h

namespace Plan

open Findings (reference close)

/-! ### Regions -/

mutual

/-- The nodes that are reached below a node, as they are read. Nothing is reached inside a node that
owns a scope, in the `ON` of a join or inside a mutation. An alias of a table stands for the
table. -/
def reached : Plan → List Plan
  | aliased p _ =>
    match p with
    | table _ => []
    | _ => p :: p.reached
  | not p | group p | existence p => p :: p.reached
  | call _ ps | tuple ps | and ps => reachedAll ps
  | equal l r | compare _ l r | or l r | union _ l r => l :: l.reached ++ r :: r.reached
  | join kind l r _ => if kind.isOuter then [] else l :: l.reached ++ r :: r.reached
  | _ => []

/-- The nodes that are reached from a list, one plan after another. -/
def reachedAll : List Plan → List Plan
  | [] => []
  | p :: ps => p :: p.reached ++ reachedAll ps

end

/-- The nodes that are reached from the sources of a scope node. -/
def region (m : Plan) : List Plan := m.trees.flatMap fun t => t :: t.reached

/-- The relation that the node refers to, as a table or by a column. -/
def reference? : Plan → Option Relation
  | column c => some c.relation
  | p => p.relation?

/-- The tenant relation that the node refers to. -/
def tenantReference? (g : Partitioning) (p : Plan) : Option Relation :=
  p.reference?.filter (g.covers ·.table)

private theorem reachedAll_eq (ps : List Plan) :
    reachedAll ps = ps.flatMap fun p => p :: p.reached := by
  induction ps with
  | nil => rfl
  | cons p ps ih => rw [reachedAll, ih, List.flatMap_cons]

/-- What is reached below a node is reached from those of its parts that the node reads. -/
theorem reached_eq (p : Plan) :
    p.reached = p.parts.flatMap fun c => if c.1.isRead then c.2 :: c.2.reached else [] := by
  cases p with
  | aliased p a => cases p <;> simp [reached, parts, aliasRole, Role.isRead]
  | join kind l r on =>
    by_cases h : kind.isOuter <;>
      simp [reached, parts, Role.isRead, List.flatMap_map, h]
  | _ => simp [reached, parts, Role.isRead, reachedAll_eq, List.flatMap_map]

theorem reached_of_owner {p : Plan} (h : p.owner?.isSome) : p.reached = [] := by
  cases p with
  | select q => rfl
  | join kind l r on =>
    rw [isSome_owner?_join] at h
    rw [reached, if_pos h]
  | _ => simp [owner?] at h

/-- What is reached is read in the order in which the plan is read. -/
theorem reached_sublist (p : Plan) : (p :: p.reached).Sublist p.nodes := by
  induction p using inductionOnParts with
  | step p ih =>
    rw [nodes_eq, reached_eq]
    refine .cons_cons p (.flatMap_right _ fun c hc => ?_)
    split
    · exact ih c hc
    · exact List.nil_sublist _

/-- The region of a scope node is read in the order in which its plan is read. -/
theorem region_sublist (m : Plan) : m.region.Sublist m.nodes := by
  have htrees : m.trees.Sublist (m.parts.map (·.2)) := by
    cases m with
    | select q => simp [trees, parts, Function.comp_def]
    | join kind l r on => simp [trees, parts]
    | _ => exact List.nil_sublist _
  have hparts := List.Sublist.flatMap htrees nodes
  rw [List.flatMap_map] at hparts
  rw [nodes_eq]
  exact ((List.Sublist.flatMap_right _ fun t _ => reached_sublist t).trans hparts).cons m

/-! ### Surveys of regions -/

variable {g : Partitioning}

theorem reference?_of_owner {p : Plan} (h : p.owner?.isSome) : p.reference? = none := by
  cases p <;> first | rfl | simp [owner?] at h

/-- By itself a node that counts as read reads what it refers to. -/
theorem seen_mention {reading : Reading} (hreads : reading.reads = true) (p : Plan) :
    (p.mention g reading).seen = (p.tenantReference? g).toList := by
  have href : ∀ r, (reference g reading r).seen = ((some r).filter (g.covers ·.table)).toList := by
    intro r
    cases h : g.covers r.table <;> simp [reference, hreads, h, Option.filter]
  cases p with
  | table t => exact href _
  | column c => exact href _
  | aliased p a =>
    cases p with
    | table t => exact href _
    | _ => rfl
  | equal l r =>
    have hequality : (Findings.equality g reading l).seen = [] := by
      cases l <;> simp only [Findings.equality]
      split <;> rfl
    exact hequality
  | _ => rfl

/-- The findings of a part that is not read do not count as read. -/
theorem seen_part_eq_nil {p : Plan} (ho : p.owner? = none) {c : Role × Plan} (hc : c ∈ p.parts)
    (hrole : c.1.isRead = false) (reading : Reading) :
    (c.2.survey g (c.1.reading reading)).seen = [] := by
  refine seen_eq_nil ?_ c.2
  have hsource := role_ne_source ho hc
  cases h : c.1 <;> simp_all [Role.isRead, Role.reading, Reading.condition, Reading.value]

/-- What counts as read is read at the nodes that are reached. -/
theorem seen_survey {reading : Reading} (hreads : reading.reads = true) (p : Plan) :
    (p.survey g reading).seen = (p :: p.reached).filterMap (tenantReference? g) := by
  induction p using inductionOnParts generalizing reading with
  | step p ih =>
    have hcons : (p :: p.reached).filterMap (tenantReference? g)
        = (p.tenantReference? g).toList ++ p.reached.filterMap (tenantReference? g) := by
      rw [List.filterMap_cons]
      cases p.tenantReference? g <;> rfl
    rw [hcons, survey_eq]
    cases ho : p.owner? with
    | some o =>
      -- What is found inside goes to the scope that the node owns, and nothing goes further up.
      have hsome : p.owner?.isSome := by rw [ho, Option.isSome_some]
      rw [reached_of_owner hsome, tenantReference?, reference?_of_owner hsome]
      rfl
    | none =>
      have hparts : (surveyParts g reading p.parts).seen
          = p.reached.filterMap (tenantReference? g) := by
        rw [seen_surveyParts, reached_eq, List.filterMap_flatMap]
        refine List.flatMap_congr fun c hc => ?_
        -- A part that is read is read as the node is; in the others nothing is.
        cases hrole : c.1.isRead with
        | true => exact ih c hc ((Role.reads_reading hrole reading).trans hreads)
        | false => exact seen_part_eq_nil ho hc hrole reading
      rw [close, Option.elim_none, Findings.seen_append, seen_mention hreads, hparts]

/-- What is found read inside a scope node is read in its trees. -/
theorem seen_interior {m : Plan} (ho : m.owner?.isSome) :
    (m.interior g).seen = m.trees.flatMap fun t => (t.survey g .source).seen := by
  have hnone : ∀ (ρ : Role) (ps : List Plan), (ρ.reading .condition).reads = false →
      (ps.flatMap fun p => (p.survey g (ρ.reading .condition)).seen) = [] := fun ρ ps hρ =>
    List.flatMap_eq_nil_iff.2 fun p _ => seen_eq_nil hρ p
  rw [interior, seen_surveyParts]
  cases m with
  | select q =>
    simp only [parts, trees, List.flatMap_append, List.flatMap_map, hnone .value _ rfl,
      hnone .condition _ rfl, List.append_nil]
    rfl
  | join kind l r on =>
    rw [isSome_owner?_join] at ho
    simp only [parts, trees, ho, if_true, List.flatMap_cons, List.flatMap_map,
      hnone .condition _ rfl]
    rfl
  | _ => simp [owner?] at ho

/-! ### What is not reached -/

variable {k : Nat} (c : Plan)

/-- A source that is not the parameter is a table if it was one. -/
theorem aliased_put {q : Plan} {a : String}
    (h : ∀ m ∈ (aliased q a).reached, m.isParam k = false) :
    (put k c q).aliasRole = q.aliasRole ∧
      (aliased (put k c q) a).reference? = (aliased q a).reference? := by
  have hq : q.isParam k = false := by
    cases q with
    | param i => exact h _ (by simp [reached])
    | _ => rfl
  rw [put_eq hq]
  cases q <;> exact ⟨rfl, rfl⟩

/-- Where the parameter is not reached, what takes its place is not read. -/
theorem seen_survey_put {reading : Reading} (hreads : reading.reads = true) {p : Plan}
    (h : ∀ q ∈ p :: p.reached, q.isParam k = false) :
    ((put k c p).survey g reading).seen = (p.survey g reading).seen := by
  induction p using inductionOnParts generalizing reading with
  | step p ih =>
    rw [put_eq (h p List.mem_cons_self), survey_eq, survey_eq, owner?_mapParts]
    cases ho : p.owner? with
    | some o => rfl
    | none =>
      have hbelow : ∀ q ∈ p.reached, q.isParam k = false := fun q hq =>
        h q (List.mem_cons_of_mem _ hq)
      have hreference : (p.mapParts (put k c)).reference? = p.reference? := by
        cases p with
        | aliased q a => exact (aliased_put c hbelow).2
        | _ => rfl
      have hparts : (p.mapParts (put k c)).parts = p.parts.map fun d => (d.1, put k c d.2) :=
        parts_mapParts fun q a hp => by subst hp; exact (aliased_put c hbelow).1
      have hseen : (surveyParts g reading (p.mapParts (put k c)).parts).seen
          = (surveyParts g reading p.parts).seen := by
        rw [seen_surveyParts, seen_surveyParts, hparts, List.flatMap_map]
        refine List.flatMap_congr fun d hd => ?_
        -- Only in parts that are read the parameter must not be reached. The others may have it.
        cases hrole : d.1.isRead with
        | true =>
          refine ih d hd ((Role.reads_reading hrole reading).trans hreads) fun q hq => hbelow q ?_
          rw [reached_eq]
          exact List.mem_flatMap.2 ⟨d, hd, by rwa [if_pos hrole]⟩
        | false =>
          have hd' : (d.1, put k c d.2) ∈ (p.mapParts (put k c)).parts := by
            rw [hparts]
            exact List.mem_map.2 ⟨d, hd, rfl⟩
          rw [seen_part_eq_nil ho hd hrole]
          exact seen_part_eq_nil ((owner?_mapParts _ p).trans ho) hd' hrole reading
      rw [close, close, Option.elim_none, Option.elim_none, Findings.seen_append,
        Findings.seen_append, seen_mention hreads, seen_mention hreads, hseen, tenantReference?,
        tenantReference?, hreference]

theorem trees_mapParts (f : Plan → Plan) (m : Plan) : (m.mapParts f).trees = m.trees.map f := by
  cases m with
  | select q => simp [mapParts, trees, Query.map, Option.toList_map]
  | _ => rfl

/-- The scope nodes of a plan with something else in a hole are its scope nodes with that in the
hole, if it owns no scope. -/
theorem scopeNodes_put (hc : c.owners = []) (p : Plan) :
    (put k c p).scopeNodes = p.scopeNodes.map (put k c) := by
  induction p using inductionOnParts with
  | step p ih =>
    cases hparam : p.isParam k with
    | true =>
      rw [put_of_isParam hparam, scopeNodes_eq_nil hc, eq_param_of_isParam hparam]
      rfl
    | false =>
      have hparts : (p.mapParts (put k c)).parts.flatMap (·.2.scopeNodes)
          = p.parts.flatMap fun d => d.2.scopeNodes.map (put k c) := by
        rw [flatMap_parts_mapParts (put k c) scopeNodes]
        exact List.flatMap_congr ih
      rw [put_eq hparam, scopeNodes_eq, scopeNodes_eq p, owner?_mapParts, hparts, List.map_append,
        List.map_flatMap]
      split
      · rw [List.map_singleton, put_eq hparam]
      · rfl

/-- What each scope reads, by scope nodes. -/
theorem map_seen_scopes (g : Partitioning) (p : Plan) :
    (p.scopes g).map (·.seen) = p.scopeNodes.map fun m => (m.interior g).seen.eraseDups := by
  refine List.forall₂_eq_eq_eq ▸ List.forall₂_map_left_iff.2 (List.forall₂_map_right_iff.2 ?_)
  exact (records_scopes g p).imp fun _ _ h => h.seen

/-- Where no scope reaches the parameter, no scope reads what takes its place. -/
theorem map_seen_scopes_put (hc : c.owners = []) {p : Plan}
    (h : ∀ m ∈ p.scopeNodes, param k ∉ m.region) :
    ((put k c p).scopes g).map (·.seen) = (p.scopes g).map (·.seen) := by
  rw [map_seen_scopes, map_seen_scopes, scopeNodes_put c hc, List.map_map]
  refine List.map_congr_left fun m hm => congrArg List.eraseDups ?_
  have ho : m.owner?.isSome := (List.mem_filter.1 hm).2
  have hparam : m.isParam k = false := by
    cases m <;> first | rfl | simp [owner?] at ho
  have howner : (m.mapParts (put k c)).owner?.isSome := by rwa [owner?_mapParts]
  rw [put_eq hparam, seen_interior howner, seen_interior ho, trees_mapParts, List.flatMap_map]
  refine List.flatMap_congr fun t ht => seen_survey_put c rfl fun q hq => ?_
  cases hq' : q.isParam k with
  | false => rfl
  | true =>
    -- The trees of the node would reach the parameter.
    rw [eq_param_of_isParam hq'] at hq
    exact absurd (List.mem_flatMap.2 ⟨t, ht, hq⟩) (h m hm)

/-! ### Scopes and regions -/

/-- **A scope reads the references in its region and no others.** The scopes of a plan are those of
its scope nodes, one of each. What a scope has seen are the tenant relations that the nodes in the
region of its scope node refer to, in the order in which the plan is read and each once. Any node of
the plan stands in the hole of a context. If no region reaches the hole, every scope sees the same
whatever else stands there, as long as neither owns a scope. -/
theorem scopes_read_their_regions (g : Partitioning) (p : Plan) :
    List.Forall₂ (fun s m => m.owner? = some s.owner ∧ m.region.Sublist m.nodes ∧
        s.seen = (m.region.filterMap (tenantReference? g)).eraseDups) (p.scopes g) p.scopeNodes ∧
      (∀ path c, p.nodeAt? path = some c → ∃ C : Context,
        C.plan.nodeAt? path = some (param C.hole) ∧ put C.hole c C.plan = p) ∧
      ∀ (C : Context) (c c' : Plan), put C.hole c C.plan = p → c.owners = [] → c'.owners = [] →
        (∀ m ∈ C.plan.scopeNodes, param C.hole ∉ m.region) →
        ((put C.hole c' C.plan).scopes g).map (·.seen) = (p.scopes g).map (·.seen) := by
  refine ⟨?_, fun path c => exists_context_put, fun C c c' hp hc hc' hregion => ?_⟩
  · refine (records_scopes g p).imp fun s m hrecords => ⟨hrecords.owner, region_sublist m, ?_⟩
    have ho : m.owner?.isSome := by rw [hrecords.owner, Option.isSome_some]
    have hseen : (m.interior g).seen = m.region.filterMap (tenantReference? g) := by
      rw [seen_interior ho, region, List.filterMap_flatMap]
      exact List.flatMap_congr fun t _ => seen_survey rfl t
    rw [hrecords.seen, hseen]
  · rw [← hp, map_seen_scopes_put c hc hregion, map_seen_scopes_put c' hc' hregion]

/-- The orders for which a condition holds that the parameter stands for. -/
def ordersWhere : Context where
  plan := select { source := some (table "orders"), wheres := [param 0] }
  hole := 0
  once := by decide

/-- A condition that asks for a column of items has orders read, and no more. -/
theorem scopes_read_orders_alone :
    ((put 0 (column ⟨⟨"items", none⟩, "id"⟩) ordersWhere.plan).scopes shop).map (·.seen)
      = (ordersWhere.plan.scopes shop).map (·.seen) :=
  (scopes_read_their_regions shop ordersWhere.plan).2.2 ordersWhere (param 0) (column _) rfl rfl rfl
    (by decide +kernel)

end Plan

end Tenancy
