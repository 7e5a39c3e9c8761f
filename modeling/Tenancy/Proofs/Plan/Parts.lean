import Mathlib.Data.List.Basic
import Tenancy.Scope.Owners
import Tenancy.Scope.Survey

namespace Tenancy

/-!
# Parts — plans as trees of nodes

* `Plan.nodes` — every node of a plan, in the order in which a plan is read;
* `Plan.owner?`, `Plan.scopeNodes` — the nodes that own a scope, and `Plan.trees`, what they read;
* `Plan.parts` — the parts of one node, each with the `Role` that says what it counts for;
* `Plan.inductionOnParts` — what each node inherits from its parts holds of every plan;
* `Plan.nodes_eq`, `Plan.owners_eq`, `Plan.survey_eq` — a traversal is what it does at one node,
  followed by the traversals of the parts.

With these a law about a traversal needs no case for each kind of node.
-/

/-- What a part of a node counts for. -/
inductive Role
  /-- For what the node counts for. -/
  | inherit
  /-- For that, but it holds of no row for sure. -/
  | loose
  /-- As a source. -/
  | source
  /-- As a condition. -/
  | condition
  /-- As a value. -/
  | value
  deriving Repr, DecidableEq

/-- The reading of a part of a node that is read as `reading`. -/
def Role.reading (reading : Reading) : Role → Reading
  | .inherit => reading
  | .loose => reading.loose
  | .source => .source
  | .condition => .condition
  | .value => .value

namespace Findings

@[simp] theorem empty_append (f : Findings) : ({} : Findings) ++ f = f := rfl

@[simp] theorem append_empty (f : Findings) : f ++ ({} : Findings) = f := by
  show Findings.append f {} = f
  simp [Findings.append]

@[simp] theorem append_assoc (f f' f'' : Findings) : f ++ f' ++ f'' = f ++ (f' ++ f'') := by
  show Findings.append (Findings.append f f') f'' = Findings.append f (Findings.append f' f'')
  simp [Findings.append]

/-- The findings of several parts, one after another. -/
def concat (fs : List Findings) : Findings := fs.foldr (· ++ ·) {}

@[simp] theorem concat_nil : concat [] = {} := rfl

@[simp] theorem concat_cons (f : Findings) (fs : List Findings) :
    concat (f :: fs) = f ++ concat fs := rfl

@[simp] theorem concat_append (fs fs' : List Findings) :
    concat (fs ++ fs') = concat fs ++ concat fs' := by
  induction fs with
  | nil => rfl
  | cons f fs ih => rw [List.cons_append, concat_cons, ih, concat_cons, append_assoc]

@[simp] theorem seen_concat (fs : List Findings) : (concat fs).seen = fs.flatMap (·.seen) := by
  induction fs with
  | nil => rfl
  | cons f fs ih => rw [concat_cons, seen_append, ih, List.flatMap_cons]

@[simp] theorem pinned_concat (fs : List Findings) :
    (concat fs).pinned = fs.flatMap (·.pinned) := by
  induction fs with
  | nil => rfl
  | cons f fs ih => rw [concat_cons, pinned_append, ih, List.flatMap_cons]

@[simp] theorem inner_concat (fs : List Findings) : (concat fs).inner = fs.flatMap (·.inner) := by
  induction fs with
  | nil => rfl
  | cons f fs ih => rw [concat_cons, inner_append, ih, List.flatMap_cons]

/-- Findings of a node: as they are, or as a scope of their own if the node owns one. -/
def close (owner? : Option Scope.Owner) (f : Findings) : Findings :=
  owner?.elim f (Findings.scope · f)

end Findings

namespace Plan

open Scope (Owner)

/-! ### Nodes -/

mutual

/-- The nodes below a plan, in the order in which they are read. -/
def subnodes : Plan → List Plan
  | aliased p _ | not p | group p | existence p => p :: p.subnodes
  | call _ ps | tuple ps | and ps => subnodesAll ps
  | equal l r | compare _ l r | or l r | union _ l r => l :: l.subnodes ++ r :: r.subnodes
  | select ⟨ps, source, ws, gs, vs, having, os, _, _⟩ =>
    subnodesOption source ++ subnodesAll ps ++ subnodesAll ws ++ subnodesAll gs ++ subnodesAll vs
      ++ subnodesOption having ++ subnodesAll os
  | join _ l r on => l :: l.subnodes ++ r :: r.subnodes ++ subnodesOption on
  | update target assignments ws =>
    target :: target.subnodes ++ subnodesAssignments assignments ++ subnodesAll ws
  | delete target ws => target :: target.subnodes ++ subnodesAll ws
  | _ => []

/-- The nodes of a list of plans, one plan after another. -/
def subnodesAll : List Plan → List Plan
  | [] => []
  | p :: ps => p :: p.subnodes ++ subnodesAll ps

/-- The nodes of an optional part. -/
def subnodesOption : Option Plan → List Plan
  | none => []
  | some p => p :: p.subnodes

/-- The nodes of the values of assignments. -/
def subnodesAssignments : List (String × Plan) → List Plan
  | [] => []
  | (_, p) :: rest => p :: p.subnodes ++ subnodesAssignments rest

end

/-- The nodes of a plan, itself first, in the order in which they are read. -/
def nodes (p : Plan) : List Plan := p :: p.subnodes

/-- The kind of scope that the node owns, if it owns one. -/
def owner? : Plan → Option Owner
  | select _ => some .select
  | join kind .. => if kind.isOuter then some .outerJoin else none
  | _ => none

/-- A join owns a scope exactly if it is an outer one. -/
theorem isSome_owner?_join (kind : JoinKind) (l r : Plan) (on : Option Plan) :
    (join kind l r on).owner?.isSome = kind.isOuter := by
  rw [owner?]
  cases kind.isOuter <;> rfl

/-- The nodes that own a scope, an outer one before those inside it. -/
def scopeNodes (p : Plan) : List Plan := p.nodes.filter (·.owner?.isSome)

/-- The trees of joins that a scope node reads. -/
def trees : Plan → List Plan
  | select q => q.source.toList
  | join _ l r _ => [l, r]
  | _ => []

/-! ### Parts -/

/-- What the source of an alias counts for: a table under an alias is no relation of its own. -/
def aliasRole : Plan → Role
  | table _ => .value
  | _ => .inherit

/-- The parts of a node in the order in which they are read. -/
def parts : Plan → List (Role × Plan)
  | aliased p _ => [(p.aliasRole, p)]
  | group p | existence p => [(.inherit, p)]
  | not p => [(.loose, p)]
  | call _ ps | tuple ps | and ps => ps.map (.inherit, ·)
  | equal l r | compare _ l r | union _ l r => [(.inherit, l), (.inherit, r)]
  | or l r => [(.loose, l), (.loose, r)]
  | select q =>
    q.source.toList.map (.source, ·) ++ q.projections.map (.value, ·)
      ++ q.wheres.map (.condition, ·) ++ q.groups.map (.condition, ·)
      ++ q.windows.map (.condition, ·) ++ q.having.toList.map (.condition, ·)
      ++ q.orders.map (.value, ·)
  | join kind l r on =>
    let side : Role := if kind.isOuter then .source else .inherit
    (side, l) :: (side, r) :: on.toList.map (.condition, ·)
  | update target assignments ws =>
    (.condition, target) :: assignments.map (fun a => (.value, a.2)) ++ ws.map (.condition, ·)
  | delete target ws => (.condition, target) :: ws.map (.condition, ·)
  | _ => []

private theorem sizeOf_lt_of_mem_map {ρ : Role} {c : Role × Plan} {ps : List Plan}
    (h : c ∈ ps.map (ρ, ·)) : sizeOf c.2 < sizeOf ps := by
  obtain ⟨p, hp, rfl⟩ := List.mem_map.1 h
  exact List.sizeOf_lt_of_mem hp

private theorem sizeOf_lt_of_mem_toList {ρ : Role} {c : Role × Plan} {p : Option Plan}
    (h : c ∈ p.toList.map (ρ, ·)) : sizeOf c.2 < sizeOf p := by
  cases p with
  | none => simp at h
  | some p => simp_all

/-- A part is smaller than the node it belongs to. -/
theorem sizeOf_lt_of_mem_parts {p : Plan} {c : Role × Plan} (h : c ∈ p.parts) :
    sizeOf c.2 < sizeOf p := by
  cases p with
  | aliased p a =>
    simp only [parts, List.mem_singleton] at h
    subst h
    simp only [aliased.sizeOf_spec]
    omega
  | not p | group p | existence p =>
    simp only [parts, List.mem_singleton] at h
    subst h
    simp
  | equal l r | or l r | compare _ l r | union _ l r =>
    simp only [parts, List.mem_cons, List.not_mem_nil, or_false] at h
    simp only [equal.sizeOf_spec, or.sizeOf_spec, compare.sizeOf_spec, union.sizeOf_spec]
    rcases h with rfl | rfl
    · simp only; omega
    · simp only; omega
  | call _ ps | tuple ps | and ps =>
    have := sizeOf_lt_of_mem_map h
    simp
    omega
  | select q =>
    -- Each clause is a field of the query and smaller than it.
    obtain ⟨⟩ := q
    simp only [parts, List.mem_append] at h
    simp only [select.sizeOf_spec, Query.mk.sizeOf_spec]
    rcases h with (((((h | h) | h) | h) | h) | h) | h
    all_goals first
      | have := sizeOf_lt_of_mem_map h; omega
      | have := sizeOf_lt_of_mem_toList h; omega
  | join kind l r on =>
    simp only [parts, List.mem_cons] at h
    simp only [join.sizeOf_spec]
    rcases h with rfl | rfl | h
    · simp only; omega
    · simp only; omega
    · have := sizeOf_lt_of_mem_toList h
      omega
  | update target assignments ws =>
    simp only [parts, List.cons_append, List.mem_cons, List.mem_append] at h
    simp only [update.sizeOf_spec]
    rcases h with rfl | h | h
    · simp only; omega
    · obtain ⟨⟨column, p⟩, ha, rfl⟩ := List.mem_map.1 h
      have := List.sizeOf_lt_of_mem ha
      simp only [Prod.mk.sizeOf_spec] at this ⊢
      omega
    · have := sizeOf_lt_of_mem_map h
      omega
  | delete target ws =>
    simp only [parts, List.mem_cons] at h
    simp only [delete.sizeOf_spec]
    rcases h with rfl | h
    · simp only; omega
    · have := sizeOf_lt_of_mem_map h
      omega
  | _ => simp [parts] at h

/-- What each node inherits from its parts holds of every plan. -/
theorem inductionOnParts {motive : Plan → Prop}
    (step : ∀ p : Plan, (∀ c ∈ p.parts, motive c.2) → motive p) (p : Plan) : motive p :=
  step p fun c _ => inductionOnParts step c.2
termination_by sizeOf p
decreasing_by
  rename_i hc
  exact sizeOf_lt_of_mem_parts hc

/-! ### Traversals by parts -/

private theorem subnodesAll_eq (ps : List Plan) :
    subnodesAll ps = ps.flatMap fun p => p :: p.subnodes := by
  induction ps with
  | nil => rfl
  | cons p ps ih => rw [subnodesAll, ih, List.flatMap_cons]

private theorem subnodesOption_eq (p : Option Plan) :
    subnodesOption p = p.toList.flatMap fun p => p :: p.subnodes := by
  cases p <;> simp [subnodesOption]

private theorem subnodesAssignments_eq (ps : List (String × Plan)) :
    subnodesAssignments ps = ps.flatMap fun a => a.2 :: a.2.subnodes := by
  induction ps with
  | nil => rfl
  | cons p ps ih => rw [subnodesAssignments, ih, List.flatMap_cons]

/-- The nodes of a plan are itself and the nodes of its parts. -/
theorem nodes_eq (p : Plan) : p.nodes = p :: p.parts.flatMap (·.2.nodes) := by
  rw [nodes, List.cons.injEq]
  refine ⟨rfl, ?_⟩
  cases p <;>
    simp [subnodes, parts, nodes, subnodesAll_eq, subnodesOption_eq, subnodesAssignments_eq,
      List.flatMap_map]

theorem subnodes_eq (p : Plan) : p.subnodes = p.parts.flatMap (·.2.nodes) :=
  (List.cons.inj (nodes_eq p)).2

/-- A node has the nodes of its parts. -/
theorem nodes_subset_of_mem_parts {p : Plan} {c : Role × Plan} (hc : c ∈ p.parts) :
    c.2.nodes ⊆ p.nodes := by
  intro q hq
  rw [nodes_eq p]
  exact List.mem_cons_of_mem _ (List.mem_flatMap.2 ⟨c, hc, hq⟩)

theorem self_mem_nodes (p : Plan) : p ∈ p.nodes := List.mem_cons_self

/-- What holds of all nodes holds of the plan and of the nodes of its parts. -/
theorem forall_mem_nodes {P : Plan → Prop} {p : Plan} :
    (∀ q ∈ p.nodes, P q) ↔ P p ∧ ∀ c ∈ p.parts, ∀ q ∈ c.2.nodes, P q := by
  rw [nodes_eq, List.forall_mem_cons, List.forall_mem_flatMap]

/-- Nodes below a node of a plan are nodes of the plan. -/
theorem nodes_subset_of_mem_nodes {p q : Plan} (hq : q ∈ p.nodes) : q.nodes ⊆ p.nodes := by
  induction p using inductionOnParts with
  | step p ih =>
    rw [nodes_eq p, List.mem_cons, List.mem_flatMap] at hq
    rcases hq with rfl | ⟨c, hc, hq⟩
    · exact List.Subset.refl _
    · exact List.Subset.trans (ih c hc hq) (nodes_subset_of_mem_parts hc)

theorem ownersAll_eq (ps : List Plan) : ownersAll ps = ps.flatMap owners := by
  induction ps with
  | nil => rfl
  | cons p ps ih => rw [ownersAll, ih, List.flatMap_cons]

theorem ownersOption_eq (p : Option Plan) :
    ownersOption p = p.toList.flatMap owners := by
  cases p <;> simp [ownersOption]

theorem ownersAssignments_eq (ps : List (String × Plan)) :
    ownersAssignments ps = ps.flatMap (·.2.owners) := by
  induction ps with
  | nil => rfl
  | cons p ps ih => rw [ownersAssignments, ih, List.flatMap_cons]

/-- The owners in a plan are what the plan itself owns and the owners in its parts. -/
theorem owners_eq (p : Plan) : p.owners = p.owner?.toList ++ p.parts.flatMap (·.2.owners) := by
  cases p with
  | join kind l r on =>
    by_cases h : kind.isOuter <;> simp [owners, owner?, parts, ownersOption_eq, List.flatMap_map, h]
  | _ =>
    simp [owners, owner?, parts, ownersAll_eq, ownersOption_eq, ownersAssignments_eq,
      List.flatMap_map]

/-- The owners of scopes in a plan are the kinds of its scope nodes. -/
theorem owners_eq_filterMap (p : Plan) : p.owners = p.nodes.filterMap owner? := by
  induction p using inductionOnParts with
  | step p ih =>
    -- Both sides say what they do at the node, and then what they do at its parts.
    have hparts : p.parts.flatMap (fun c => c.2.owners)
        = p.parts.flatMap fun c => c.2.nodes.filterMap owner? :=
      List.flatMap_congr fun c hc => ih c hc
    rw [owners_eq, nodes_eq, hparts, List.filterMap_cons, List.filterMap_flatMap]
    cases p.owner? <;> rfl

/-- The scope nodes of a plan are the plan itself, if it owns a scope, and those of its parts. -/
theorem scopeNodes_eq (p : Plan) :
    p.scopeNodes = (if p.owner?.isSome then [p] else []) ++ p.parts.flatMap (·.2.scopeNodes) := by
  rw [scopeNodes, nodes_eq, List.filter_cons, List.filter_flatMap]
  split <;> rfl

/-- The scope nodes own what the plan owns. -/
theorem map_owner?_scopeNodes (p : Plan) : p.scopeNodes.map owner? = p.owners.map some := by
  rw [owners_eq_filterMap, scopeNodes]
  induction p.nodes with
  | nil => rfl
  | cons q qs ih =>
    rw [List.filter_cons, List.filterMap_cons]
    cases h : q.owner? <;> simp [h, ih]

/-- There is one scope node for each owner. -/
theorem length_scopeNodes (p : Plan) : p.scopeNodes.length = p.owners.length := by
  rw [← List.length_map owner?, map_owner?_scopeNodes, List.length_map]

theorem scopeNodes_eq_nil {p : Plan} (h : p.owners = []) : p.scopeNodes = [] := by
  rw [← List.length_eq_zero_iff, length_scopeNodes, h, List.length_nil]

/-! ### Surveys by parts -/

open Findings (reference equality isKey concat close)

/-- What a node contributes to a survey by itself, without its parts. -/
def mention (g : Partitioning) (reading : Reading) : Plan → Findings
  | table t => reference g reading ⟨t, none⟩
  | aliased (table t) a => reference g reading ⟨t, some a⟩
  | column c => reference g reading c.relation
  | equal l _ => equality g reading l
  | tenantKey k _ | keyLink k _ => { pinned := [k.relation] }
  | _ => {}

/-- Is the node one that no user writes? -/
def isSynthetic : Plan → Bool
  | tenantKey .. | keyLink .. => true
  | _ => false

/-- Is the node an equality with the partition key of `r` on its left? -/
def isKeyEquality (g : Partitioning) (r : Relation) : Plan → Bool
  | equal (column c) _ => isKey g c && decide (c.relation = r)
  | _ => false

private theorem reference_cases (g : Partitioning) (reading : Reading) (r : Relation) :
    reference g reading r = {} ∨
      reading.reads = true ∧ g.covers r.table = true ∧ reference g reading r = { seen := [r] } := by
  rw [reference]
  cases hreads : reading.reads <;> cases hcovers : g.covers r.table <;> simp

/-- By itself a node says nothing, or it reads one tenant relation, or it ties one relation to a
tenant: by an equality that holds of every row, or by a condition that enforcement has added. -/
theorem mention_cases (g : Partitioning) (reading : Reading) (p : Plan) :
    p.mention g reading = {} ∨
      (∃ r, reading.reads = true ∧ g.covers r.table = true ∧
        p.mention g reading = { seen := [r] }) ∨
      ∃ r, (p.isSynthetic = true ∨ reading.binds = true ∧ p.isKeyEquality g r = true) ∧
        p.mention g reading = { pinned := [r] } := by
  have href : ∀ r, p.mention g reading = reference g reading r → p.mention g reading = {} ∨
      ∃ r, reading.reads = true ∧ g.covers r.table = true ∧
        p.mention g reading = { seen := [r] } := fun r h => by
    rw [h]
    exact (reference_cases g reading r).imp_right fun h => ⟨r, h⟩
  cases p with
  -- Tables and columns refer to a relation.
  | table t => exact or_assoc.1 (.inl (href _ rfl))
  | column c => exact or_assoc.1 (.inl (href _ rfl))
  | aliased p a =>
    cases p with
    | table t => exact or_assoc.1 (.inl (href _ rfl))
    | _ => exact .inl rfl
  | equal l r =>
    cases l with
    | column c =>
      cases hbinds : reading.binds <;> cases hkey : isKey g c <;>
        simp [mention, equality, isKeyEquality, hbinds, hkey]
    | _ => exact .inl rfl
  | tenantKey k v | keyLink k o => exact .inr (.inr ⟨k.relation, .inl rfl, rfl⟩)
  | _ => exact .inl rfl

/-- The findings of the parts of a node that is read as `reading`. -/
def surveyParts (g : Partitioning) (reading : Reading) (parts : List (Role × Plan)) : Findings :=
  concat (parts.map fun c => c.2.survey g (c.1.reading reading))

theorem surveyParts_append (g : Partitioning) (reading : Reading) (cs ds : List (Role × Plan)) :
    surveyParts g reading (cs ++ ds) = surveyParts g reading cs ++ surveyParts g reading ds := by
  rw [surveyParts, List.map_append, Findings.concat_append, surveyParts, surveyParts]

theorem surveyParts_cons (g : Partitioning) (reading : Reading) (c : Role × Plan)
    (cs : List (Role × Plan)) :
    surveyParts g reading (c :: cs)
      = c.2.survey g (c.1.reading reading) ++ surveyParts g reading cs :=
  rfl

section

variable (g : Partitioning) (reading : Reading) (cs : List (Role × Plan))

theorem seen_surveyParts : (surveyParts g reading cs).seen
    = cs.flatMap fun c => (c.2.survey g (c.1.reading reading)).seen := by
  rw [surveyParts, Findings.seen_concat, List.flatMap_map]

theorem pinned_surveyParts : (surveyParts g reading cs).pinned
    = cs.flatMap fun c => (c.2.survey g (c.1.reading reading)).pinned := by
  rw [surveyParts, Findings.pinned_concat, List.flatMap_map]

theorem inner_surveyParts : (surveyParts g reading cs).inner
    = cs.flatMap fun c => (c.2.survey g (c.1.reading reading)).inner := by
  rw [surveyParts, Findings.inner_concat, List.flatMap_map]

end

private theorem surveyAll_eq (g : Partitioning) (reading : Reading) (ps : List Plan) :
    surveyAll g reading ps = concat (ps.map (survey g reading)) := by
  induction ps with
  | nil => rfl
  | cons p ps ih => rw [surveyAll, ih, List.map_cons, Findings.concat_cons]

private theorem surveyOption_eq (g : Partitioning) (reading : Reading) (p : Option Plan) :
    surveyOption g reading p = concat (p.toList.map (survey g reading)) := by
  cases p <;> simp [surveyOption]

private theorem surveyAssignments_eq (g : Partitioning) (ps : List (String × Plan)) :
    surveyAssignments g ps = concat (ps.map fun a => a.2.survey g .value) := by
  induction ps with
  | nil => rfl
  | cons p ps ih => rw [surveyAssignments, ih, List.map_cons, Findings.concat_cons]

/-- The findings of a node are what it mentions and the findings of its parts, in a scope of their
own if the node owns one. -/
theorem survey_eq (g : Partitioning) (reading : Reading) (p : Plan) :
    p.survey g reading = close p.owner? (p.mention g reading ++ surveyParts g reading p.parts) := by
  cases p with
  | aliased p a =>
    cases p with
    -- The alias stands for the table, so the table itself must not count as read once more.
    | table t => simp [survey, mention, surveyParts, parts, aliasRole, owner?, close, Role.reading,
        reference, Reading.value]
    | _ => simp [survey, mention, surveyParts, parts, aliasRole, owner?, close, Role.reading]
  | join kind l r on =>
    by_cases h : kind.isOuter <;>
      simp [survey, mention, surveyParts, parts, owner?, close, Role.reading, surveyOption_eq,
        Function.comp_def, h]
  | _ =>
    simp [survey, mention, surveyParts, parts, owner?, close, Role.reading, surveyAll_eq,
      surveyOption_eq, surveyAssignments_eq, Function.comp_def]

/-! ### What is read -/

/-- Only a `SELECT` and an outer join have sources of their own. -/
theorem role_ne_source {p : Plan} (h : p.owner? = none) {c : Role × Plan} (hc : c ∈ p.parts) :
    c.1 ≠ .source := by
  cases p with
  | aliased p a =>
    obtain rfl : c = (p.aliasRole, p) := by simpa [parts] using hc
    cases p <;> simp [aliasRole]
  | call _ ps | tuple ps | and ps =>
    obtain ⟨_, _, rfl⟩ := List.mem_map.1 hc
    simp
  | equal l r | compare _ l r | or l r | union _ l r =>
    simp only [parts, List.mem_cons, List.not_mem_nil, or_false] at hc
    rcases hc with rfl | rfl <;> simp
  | group p | existence p | not p =>
    simp only [parts, List.mem_singleton] at hc
    simp [hc]
  | select q => simp [owner?] at h
  | join kind l r on =>
    have hkind : kind.isOuter = false := by
      rw [← isSome_owner?_join kind l r on, h, Option.isSome_none]
    simp only [parts, hkind, Bool.false_eq_true, if_false, List.mem_cons, List.mem_map] at hc
    rcases hc with rfl | rfl | ⟨_, _, rfl⟩ <;> simp
  | update t as ws =>
    simp only [parts, List.cons_append, List.mem_cons, List.mem_append, List.mem_map] at hc
    rcases hc with rfl | ⟨_, _, rfl⟩ | ⟨_, _, rfl⟩ <;> simp
  | delete t ws =>
    simp only [parts, List.mem_cons, List.mem_map] at hc
    rcases hc with rfl | ⟨_, _, rfl⟩ <;> simp
  | _ => simp [parts] at hc

/-- What does not count as read is not read. -/
theorem seen_eq_nil {g : Partitioning} {reading : Reading} (hreads : reading.reads = false)
    (p : Plan) : (p.survey g reading).seen = [] := by
  induction p using inductionOnParts generalizing reading with
  | step p ih =>
    rw [survey_eq]
    cases ho : p.owner? with
    | some o => rfl
    | none =>
      -- Only a source counts as read whatever its node counts for, and there is none here.
      have hparts : (surveyParts g reading p.parts).seen = [] := by
        rw [seen_surveyParts]
        refine List.flatMap_eq_nil_iff.2 fun c hc => ih c hc ?_
        have hrole := role_ne_source ho hc
        cases hc : c.1 with
        | source => exact absurd hc hrole
        | inherit | loose => exact hreads
        | condition | value => rfl
      have hmention : (p.mention g reading).seen = [] := by
        rcases mention_cases g reading p with hm | ⟨_, hr, _⟩ | ⟨_, _, hm⟩
        · rw [hm]
        · simp [hreads] at hr
        · rw [hm]
      rw [close, Option.elim_none, Findings.seen_append, hparts, hmention, List.append_nil]

/-- Only tenant relations are recorded as read. -/
theorem covers_of_mem_seen {g : Partitioning} {reading : Reading} {p : Plan} {r : Relation}
    (h : r ∈ (p.survey g reading).seen) : g.covers r.table := by
  induction p using inductionOnParts generalizing reading with
  | step p ih =>
    rw [survey_eq] at h
    cases ho : p.owner? with
    | some o => simp [ho, close, Findings.scope] at h
    | none =>
      rw [ho, close, Option.elim_none, Findings.seen_append, List.mem_append,
        seen_surveyParts] at h
      rcases h with h | h
      · rcases mention_cases g reading p with hm | ⟨s, _, hs, hm⟩ | ⟨s, _, hm⟩
        · simp [hm] at h
        · obtain rfl : r = s := by simpa [hm] using h
          exact hs
        · simp [hm] at h
      · obtain ⟨c, hc, h⟩ := List.mem_flatMap.1 h
        exact ih c hc h

end Plan

end Tenancy
