import Tenancy.Proofs.Plan.Contexts
import Tenancy.Proofs.Restrict.Replacing

namespace Tenancy

/-!
# Contexts under restriction — what is around a query and what is inside it

A scope knows of the queries inside it as little as of parameters, and a query knows nothing of what
is around it. So restriction goes through substitution.

* `replacesLeaves_subst` — substitution puts a query in the place of a leaf that restriction does
  not look at;
* `keepsFindings_subst` — a scope reads and ties the same, whatever query is inside it;
* `settle_subst` — settling a plan goes through substitution;
* `restrict_fill` — restricting a filled context is filling the restricted context.
-/

namespace Plan

section

variable (k : Nat) (q : Query Plan)

theorem replacesLeaves_subst :
    ReplacesLeaves fun p => if p.isParam k then select q else p where
  eq_self p hp := by
    cases hparam : p.isParam k with
    | false => rfl
    | true => simp [eq_param_of_isParam hparam, isLeaf] at hp
  leaf p _ := by
    cases hparam : p.isParam k with
    | false => exact .inl rfl
    | true => exact .inr ⟨by rw [eq_param_of_isParam hparam]; rfl, rfl⟩

/-- A query shows nothing of what it reads and ties to a tenant, and a parameter has nothing to
show. -/
theorem keepsFindings_subst (g : Partitioning) :
    KeepsFindings g fun p => if p.isParam k then select q else p := by
  intro p reading _
  cases hparam : p.isParam k with
  | false => simp only [hparam, Bool.false_eq_true, if_false, and_self]
  | true =>
    obtain rfl := eq_param_of_isParam hparam
    simp only [hparam, if_true]
    rw [survey_of_owner (o := .select) rfl]
    exact ⟨rfl, rfl⟩

theorem map_subst_keyConditions (e : Restriction) (n : Nat) :
    (e.keyConditions n).map (subst k q) = e.keyConditions n := by
  have hself : ∀ c ∈ e.keyConditions n, c.subst k q = c := by
    intro c hc
    obtain ⟨_, _, rfl⟩ := eq_tenantKey_of_mem_keyConditions hc
    rfl
  rw [List.map_congr_left hself, List.map_id']

/-! ### Restriction -/

/-- What the scopes around a `SELECT` tie to a tenant is nothing to it. -/
theorem settle_select (g g' : Partitioning) (access : Access) (inherited : List Relation) :
    (select q).settle g g' access inherited = (select q).settle g g' access [] := by
  rw [settle_eq, settle_eq]
  rfl

theorem exists_settle_select (g g' : Partitioning) (access : Access) :
    ∃ q', (select q).settle g g' access [] = select q' := by
  rw [settle_eq]
  exact ⟨_, rfl⟩

/-- Settling a plan goes through substitution: what is substituted then is the settled query. -/
theorem settle_subst (g g' : Partitioning) (access : Access) {q' : Query Plan}
    (hq : (select q).settle g g' access [] = select q') (inherited : List Relation) (p : Plan) :
    (p.subst k q).settle g g' access inherited
      = (p.settle g g' access inherited).subst k q' := by
  refine (replacesLeaves_subst k q).settle_rewriteUp (keepsFindings_subst k q g)
    (replacesLeaves_subst k q') ?_ (fun rs => (map_subst_keyConditions k q' _ 0).symm) inherited p
  intro p inherited hleaf
  cases hparam : p.isParam k with
  | true => exact (settle_select q g g' access inherited).trans hq
  | false => exact settle_of_owners_eq_nil g g' access inherited (owners_of_isLeaf hleaf)

end

/-- Restriction adds no parameters and loses none. -/
theorem countP_isParam_impose (k : Nat) (e : Restriction) (n : Nat) (p : Plan) :
    (p.impose e n).value.nodes.countP (isParam k) = p.nodes.countP (isParam k) := by
  have hpick : PicksLeaves (isParam k) := by
    refine ⟨fun p hp => ?_, fun _ _ => rfl⟩
    rw [eq_param_of_isParam hp]
    rfl
  have hnone : ((List.range' n p.owners.length).flatMap fun n =>
      (e.keyConditions n).filter (isParam k)) = [] := by
    refine List.flatMap_eq_nil_iff.2 fun n _ => List.filter_eq_nil_iff.2 fun c hc => ?_
    obtain ⟨_, _, rfl⟩ := eq_tenantKey_of_mem_keyConditions hc
    exact Bool.false_ne_true
  have hperm := hpick.perm_picked_impose e n p
  rw [hnone, List.nil_append] at hperm
  rw [List.countP_eq_length_filter, List.countP_eq_length_filter]
  exact hperm.length_eq

/-- **Restriction is compositional.** A context is restricted to a context, and whatever query is in
the hole, the restricted plan is the restricted context with the restricted query in its hole. So
what is around a query does not change how it is restricted, and what is inside it does not change
how its surroundings are. -/
theorem restrict_fill (g : Partitioning) (access : Access) (C : Context) :
    ∃ C' : Context, C'.hole = C.hole ∧ (C.plan.restrict g access).value = .ok C'.plan ∧
      ∀ q : Query Plan, ∃ q', ((select q).restrict g access).value = .ok (select q') ∧
        ((C.fill q).restrict g access).value = .ok (C'.fill q') := by
  cases hw : access.writeOnly with
  | true =>
    have hsame := value_restrict_writeOnly g hw
    exact ⟨C, rfl, hsame C.plan, fun q => ⟨q, hsame _, hsame _⟩⟩
  | false =>
    have hsettle := value_restrict_eq_settle g hw
    have honce : (C.plan.settle g g access []).nodes.countP (isParam C.hole) = 1 := by
      have hok := (value_restrict g hw C.plan).symm.trans (hsettle C.plan)
      rw [← Except.ok.inj hok, countP_isParam_impose, C.once]
    refine ⟨⟨C.plan.settle g g access [], C.hole, honce⟩, rfl, hsettle C.plan, fun q => ?_⟩
    obtain ⟨q', hq⟩ := exists_settle_select q g g access
    refine ⟨q', (hsettle _).trans (congrArg _ hq), (hsettle _).trans (congrArg _ ?_)⟩
    exact settle_subst C.hole q g g access hq [] C.plan

end Plan

end Tenancy
