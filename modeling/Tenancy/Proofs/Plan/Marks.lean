import Tenancy.Proofs.Plan.Conjunctions

namespace Tenancy

/-!
# Marks — plans that tie nothing to a tenant, and conditions that own no scope

* `Plan.isMark` — the nodes by which a plan ties a relation to a tenant;
* `Plan.Unmarked` — a plan without them, in which nothing is tied (`pinned_eq_nil`);
* `Plan.Simple` — a condition without queries, joins and mutations, which owns no scope
  (`Simple.owners_eq_nil`).
-/

namespace Plan

open Findings (isKey)

/-! ### Marks -/

/-- Does the node tie a relation to a tenant, where it holds of every row? -/
def isMark (g : Partitioning) : Plan → Bool
  | tenantKey .. | keyLink .. => true
  | equal (column c) _ => isKey g c
  | _ => false

theorem isMark_of_isSynthetic {g : Partitioning} {p : Plan} (h : p.isSynthetic = true) :
    p.isMark g = true := by
  cases p <;> first | rfl | simp [isSynthetic] at h

theorem isMark_of_isKeyEquality {g : Partitioning} {p : Plan} {r : Relation}
    (h : p.isKeyEquality g r = true) : p.isMark g = true := by
  unfold isKeyEquality at h
  split at h
  · exact (Bool.and_eq_true_iff.1 h).1
  · simp at h

/-- Nothing in the plan ties a relation to a tenant. -/
def Unmarked (g : Partitioning) (p : Plan) : Prop := ∀ q ∈ p.nodes, q.isMark g = false

instance (g : Partitioning) (p : Plan) : Decidable (p.Unmarked g) := by
  unfold Unmarked
  infer_instance

theorem Unmarked.part {g : Partitioning} {p : Plan} (h : p.Unmarked g) {c : Role × Plan}
    (hc : c ∈ p.parts) : c.2.Unmarked g :=
  fun q hq => h q (nodes_subset_of_mem_parts hc hq)

theorem Unmarked.node {g : Partitioning} {p : Plan} (h : p.Unmarked g) {q : Plan}
    (hq : q ∈ p.nodes) : q.Unmarked g :=
  fun q' hq' => h q' (nodes_subset_of_mem_nodes hq hq')

theorem pinned_mention_eq_nil {g : Partitioning} {reading : Reading} {p : Plan}
    (h : p.isMark g = false) : (p.mention g reading).pinned = [] := by
  rcases mention_cases g reading p with hm | ⟨_, _, _, hm⟩ | ⟨r, hmark, _⟩
  · rw [hm]
  · rw [hm]
  · have hmark : p.isMark g = true := by
      rcases hmark with hs | ⟨_, hk⟩
      · exact isMark_of_isSynthetic hs
      · exact isMark_of_isKeyEquality hk
    simp [hmark] at h

/-- Where nothing ties a relation to a tenant, a survey finds none tied. -/
theorem pinned_eq_nil {g : Partitioning} {reading : Reading} {p : Plan} (h : p.Unmarked g) :
    (p.survey g reading).pinned = [] := by
  induction p using inductionOnParts generalizing reading with
  | step p ih =>
    have hparts : (surveyParts g reading p.parts).pinned = [] := by
      rw [pinned_surveyParts]
      exact List.flatMap_eq_nil_iff.2 fun c hc => ih c hc (h.part hc)
    rw [survey_eq]
    cases p.owner? with
    | some o => rfl
    | none =>
      rw [Findings.close, Option.elim_none, Findings.pinned_append, hparts,
        pinned_mention_eq_nil (h p p.self_mem_nodes), List.append_nil]

/-! ### Simple conditions -/

/-- Is the node neither a query nor a join nor a mutation? -/
def isPlain : Plan → Bool
  | select _ | union .. | join .. | update .. | delete .. => false
  | _ => true

/-- A condition without queries, joins and mutations. -/
def Simple (p : Plan) : Prop := ∀ q ∈ p.nodes, q.isPlain = true

instance (p : Plan) : Decidable p.Simple := by
  unfold Simple
  infer_instance

theorem owner?_of_isPlain {p : Plan} (h : p.isPlain = true) : p.owner? = none := by
  cases p <;> simp_all [isPlain, owner?]

theorem Simple.owners_eq_nil {p : Plan} (h : p.Simple) : p.owners = [] := by
  rw [owners_eq_filterMap, List.filterMap_eq_nil_iff]
  exact fun q hq => owner?_of_isPlain (h q hq)

end Plan

/-- An example: orders and items belong to tenants. -/
def shop : Partitioning :=
  (Catalog.mk [⟨"orders", "tenant_id", .text⟩, ⟨"items", "tenant_id", .text⟩]).partitioning

end Tenancy
