import Tenancy.Proofs.Restrict.Chains
import Tenancy.Proofs.Restrict.Mutations
import Tenancy.Proofs.Restrict.Reports

namespace Tenancy

/-!
# Audit — the log of a build tells what has been added

* `Plan.scopeKeys`, `scopeKeys_impose` — the tenant conditions of a scope, which are those that its
  restriction has;
* `Plan.ReportsKey`, `forall₂_report` — a tenant condition and the event that reports it;
* `Plan.targetReports`, `targetReports_cases`, `entries_secure` — what is reported on the target of
  a mutation, in front of everything else;
* `Plan.ReportsAdditions`, `build_reports_additions` — what is built has those synthetic conditions
  that the log reports, and no others.
-/

open Event (pinsAt isKeyPinned isKeyLinked isTargetPinned PicksAdditions)

namespace Plan

/-! ### Tenant conditions of scopes -/

/-- The tenant conditions among the conditions of scope `n`. -/
def scopeKeys (p : Plan) (n : Nat) : List Plan :=
  (p.scopeNodes[n]?.elim [] ownConditions).filter isTenantKey

theorem InFront.eq_addWheres {cs ws ws' : List Plan} (h : InFront cs ws ws') :
    ws' = addWheres cs ws := by
  cases h with
  | none => exact (addWheres_nil ws).symm
  | bare c => rfl
  | alone c d cs => rfl
  | before c cs w ws => exact (addWheres_cons_cons c cs w ws).symm

theorem isTenantKey_surface (p : Plan) : p.surface.isTenantKey = p.isTenantKey := by
  cases p with
  | join kind l r on => rw [surface_join]; split <;> rfl
  | _ => rw [surface, rewriteUp_eq]; rfl

/-- Conditions that look the same have tenant conditions among their conjuncts or not. -/
theorem filter_isTenantKey_eq_nil {ps ps' : List Plan} (h : ps'.map surface = ps.map surface)
    (hps : ∀ c ∈ ps.flatMap conjuncts, c.isTenantKey = false) :
    (ps'.flatMap conjuncts).filter isTenantKey = [] := by
  have hconjuncts : ∀ qs : List Plan,
      (qs.flatMap conjuncts).map surface = (qs.map surface).flatMap conjuncts := by
    simp [List.map_flatMap, List.flatMap_map, keepsAnd_surface.conjuncts]
  rw [List.filter_eq_nil_iff]
  intro c hc
  have hmem : c.surface ∈ (ps.flatMap conjuncts).map surface := by
    rw [hconjuncts, ← h, ← hconjuncts]
    exact List.mem_map_of_mem hc
  obtain ⟨d, hd, hsame⟩ := List.mem_map.1 hmem
  rw [← isTenantKey_surface, ← hsame, isTenantKey_surface, hps d hd]
  exact Bool.false_ne_true

/-- Where the conditions of a scope are placed in a scope node that has no tenant conditions of its
own, they are the tenant conditions it has. -/
theorem Placed.filter_isTenantKey {e : Restriction} {n : Nat} {m m' : Plan}
    (h : Placed (e.keyConditions n) m m') (hplain : ∀ c ∈ m.ownConditions, c.isTenantKey = false) :
    m'.ownConditions.filter isTenantKey = e.keyConditions n := by
  have hkeys : (e.keyConditions n).filter isTenantKey = e.keyConditions n :=
    List.filter_eq_self.2 (isTenantKey_keyConditions e n)
  cases h with
  | select hsame hwheres =>
    have hrest := filter_isTenantKey_eq_nil (congrArg Query.wheres hsame) hplain
    rw [ownConditions, hwheres.eq_addWheres, throughAnd_conjuncts.flatMap_addWheres,
      flatMap_conjuncts_keyConditions, List.filter_append, hkeys, hrest, List.append_nil]
  | @join kind l l' r r' on₀ on on' links _ _ hon₀ hon =>
    have hsame : on₀.toList.map surface = on.toList.map surface := by
      rw [← Option.toList_map, hon₀, Option.toList_map]
    have hrest := filter_isTenantKey_eq_nil hsame hplain
    have hlinks : (links.map fun k => keyLink k.1 k.2).filter isTenantKey = [] := by
      rw [List.filter_eq_nil_iff, List.forall_mem_map]
      exact fun _ _ => Bool.false_ne_true
    rw [ownConditions, hon, List.filter_append, List.filter_append, hrest, hkeys, hlinks,
      List.nil_append, List.append_nil]

theorem mem_nodes_of_mem_ownConditions {m c : Plan} (h : c ∈ m.ownConditions) : c ∈ m.nodes := by
  cases m with
  | select q =>
    obtain ⟨w, hw, hc⟩ := List.mem_flatMap.1 h
    exact nodes_subset_of_mem_parts (c := (.condition, w)) (by simp [parts, hw])
      (mem_nodes_of_mem_conjuncts hc)
  | join kind l r on =>
    obtain ⟨w, hw, hc⟩ := List.mem_flatMap.1 h
    exact nodes_subset_of_mem_parts (c := (.condition, w))
      (List.mem_cons_of_mem _ (List.mem_cons_of_mem _ (List.mem_map_of_mem hw)))
      (mem_nodes_of_mem_conjuncts hc)
  | _ => exact absurd h List.not_mem_nil

/-- No scope of the plan has a tenant condition. -/
theorem scopeKeys_of_plain {p : Plan} (h : ∀ c ∈ p.nodes, c.isTenantKey = false) (n : Nat) :
    p.scopeKeys n = [] := by
  rw [scopeKeys, List.filter_eq_nil_iff]
  intro c hc
  cases hm : p.scopeNodes[n]? with
  | none => simp [hm] at hc
  | some m =>
    rw [hm, Option.elim_some] at hc
    have hnode : m ∈ p.nodes := List.mem_of_mem_filter (List.mem_of_getElem? hm)
    rw [h c (nodes_subset_of_mem_nodes hnode (mem_nodes_of_mem_ownConditions hc))]
    exact Bool.false_ne_true

/-- Where the scopes of a plan have no tenant conditions, those of the restricted plan have the
conditions of the scopes. -/
theorem scopeKeys_impose (e : Restriction) {p : Plan}
    (hplain : ∀ m ∈ p.scopeNodes, ∀ c ∈ m.ownConditions, c.isTenantKey = false) (n : Nat) :
    (p.impose e 0).value.scopeKeys n = if n < p.owners.length then e.keyConditions n else [] := by
  rw [scopeKeys, ← length_scopeNodes]
  split
  · next hn =>
    have hm := List.getElem?_eq_getElem hn
    obtain ⟨m', hm', -⟩ := exists_comesFrom e hm
    rw [hm', Option.elim_some]
    exact (placed_scopeNodes e hm hm').filter_isTenantKey (hplain _ (List.getElem_mem hn))
  · next hn =>
    have hnone : (p.impose e 0).value.scopeNodes[n]? = none := by
      rw [List.getElem?_eq_none_iff, length_scopeNodes, owners_impose, ← length_scopeNodes]
      exact Nat.le_of_not_lt hn
    rw [hnone]
    rfl

/-! ### Conditions and their reports -/

/-- The event `ev` reports `c`, the condition that ties the relation `r` to the tenant; `report`
makes it of the partition key and the tenant. -/
def ReportsKey (g : Partitioning) (access : Access) (report : Column → Tenant → Event)
    (r : Relation) (ev : Event) (c : Plan) : Prop :=
  ∃ part t, g.of? r.table = some part ∧ access.tenant = some t ∧
    ev = report (r.column part.column) t ∧ c = part.keyCondition r t

theorem isAddition_of_mem_unsuited (part : Partition) (t : Tenant) :
    ∀ ev ∈ part.unsuited t, ev.isAddition = false := by
  rw [Partition.unsuited]
  split <;> simp [Event.isAddition, isKeyPinned, isKeyLinked, isTargetPinned]

/-- The tenant conditions of a scope are reported one by one. -/
theorem forall₂_report (e : Restriction) (n : Nat) :
    List.Forall₂ (fun ev c => ∃ r, ReportsKey e.partitioning e.access (.keyPinned n) r ev c)
      ((e.report n).filter isKeyPinned) (e.keyConditions n) := by
  rw [Restriction.report, List.filter_flatMap, Restriction.keyConditions,
    List.filterMap_eq_flatMap_toList]
  refine forall₂_flatMap fun r _ => ?_
  rw [Restriction.reportOn]
  cases hpart : e.partitioning.of? r.table with
  | none => exact .nil
  | some part =>
    cases ht : e.access.tenant with
    | none => exact .nil
    | some t =>
      have hunsuited := Event.picksAdditions_isKeyPinned.filter_eq_nil
        (isAddition_of_mem_unsuited part t)
      simp only [List.filter_append, hunsuited, List.nil_append]
      exact .cons ⟨r, part, t, hpart, ht, rfl, rfl⟩ .nil

/-! ### Reports on targets -/

/-- What is reported on the target of a mutation. -/
def targetReports (g : Partitioning) (access : Access) (p : Plan) : List Event :=
  match p.target? with
  | none => []
  | some target =>
    match target.relation? with
    | none => [.targetNotTable p.kind]
    | some r => (addTargetKey g access r.table r p.mutationWheres).entries

theorem entries_restrictTarget (g : Partitioning) (access : Access) {p target : Plan} {r : Relation}
    (htarget : p.target? = some target) (hr : target.relation? = some r) :
    (p.restrictTarget g access r.table).entries
      = (addTargetKey g access r.table r p.mutationWheres).entries := by
  have hrelation : targetRelation target r.table = .ok r := by simp [targetRelation, hr]
  cases p with
  | update t as ws =>
    obtain rfl : t = target := Option.some.inj htarget
    simp [restrictTarget, hrelation, mutationWheres]
  | delete t ws =>
    obtain rfl : t = target := Option.some.inj htarget
    simp [restrictTarget, hrelation, mutationWheres]
  | _ => simp [target?] at htarget

/-- The target of a mutation is reported on first. -/
theorem entries_secure (g : Partitioning) (access : Access) (p : Plan) :
    (p.secure g access).entries
      = p.targetReports g access ++ ((p.guardTarget g access).restrict g access).entries := by
  have hunguarded : p.guarded? g = none → p.guardTarget g access = p := fun h =>
    guardTarget_of_openTarget?_eq_none (by rw [openTarget?, h, Option.filter_none]) access
  cases htarget : p.target? with
  | none =>
    rw [hunguarded (by simp [guarded?, htarget])]
    simp [secure, targetReports, htarget]
  | some target =>
    cases hr : target.relation? with
    | none =>
      rw [hunguarded (by simp [guarded?, htarget, hr])]
      simp [secure, targetReports, htarget, hr]
    | some r =>
      simp [secure, targetReports, htarget, hr, value_restrictTarget g access htarget hr,
        entries_restrictTarget g access htarget hr]

/-- A condition is added and reported, with a warning behind the report where there is one, or
neither is done. -/
theorem addTargetKey_cases (g : Partitioning) (access : Access) (r : Relation) (ws : List Plan) :
    (∃ part t, g.of? r.table = some part ∧ access.tenant = some t ∧
        (addTargetKey g access r.table r ws).value = ws ++ [part.keyCondition r t] ∧
        (addTargetKey g access r.table r ws).entries
          = .targetPinned (r.column part.column) t :: part.unsuited t) ∨
      (addTargetKey g access r.table r ws).value = ws ∧
        ∀ ev ∈ (addTargetKey g access r.table r ws).entries, ev.isAddition = false := by
  unfold addTargetKey
  split
  · exact .inr ⟨rfl, by simp [Event.isAddition, isKeyPinned, isKeyLinked, isTargetPinned]⟩
  · cases hpart : g.of? r.table with
    | none => exact .inr ⟨rfl, by simp⟩
    | some part =>
      cases ht : access.tenant with
      | none =>
        exact .inr ⟨rfl, by simp [Event.isAddition, isKeyPinned, isKeyLinked, isTargetPinned]⟩
      | some t =>
        simp only
        split
        · exact .inr ⟨rfl, by simp⟩
        · exact .inl ⟨part, t, rfl, rfl, rfl, by simp⟩

/-- The condition that is missing for the target is reported in front of a warning, and no other
addition is. -/
theorem targetReports_cases (g : Partitioning) (access : Access) (p : Plan) :
    (∃ target r part t, p.target? = some target ∧ target.relation? = some r ∧
        g.of? r.table = some part ∧ access.tenant = some t ∧
        p.missingKey? g access = some (part.keyCondition r t) ∧
        p.targetReports g access = .targetPinned (r.column part.column) t :: part.unsuited t) ∨
      p.missingKey? g access = none ∧
        ∀ ev ∈ p.targetReports g access, ev.isAddition = false := by
  cases htarget : p.target? with
  | none =>
    exact .inr ⟨by simp [missingKey?, openTarget?, guarded?, htarget],
      by simp [targetReports, htarget]⟩
  | some target =>
    cases hr : target.relation? with
    | none =>
      refine .inr ⟨by simp [missingKey?, openTarget?, guarded?, htarget, hr], fun ev hev => ?_⟩
      rw [targetReports, htarget] at hev
      simp only [hr, List.mem_singleton] at hev
      exact hev ▸ rfl
    | some r =>
      have hmissing := value_addTargetKey g access htarget hr
      simp only [targetReports, htarget, hr]
      rcases addTargetKey_cases g access r p.mutationWheres with
        ⟨part, t, hpart, ht, hadd, hentries⟩ | ⟨hadd, hentries⟩
      · rw [hadd, List.append_cancel_left_eq] at hmissing
        refine .inl ⟨target, r, part, t, rfl, hr, hpart, ht, ?_, hentries⟩
        exact Option.mem_toList.1 (hmissing ▸ List.mem_singleton_self _)
      · rw [hadd, List.self_eq_append_right, Option.toList_eq_nil_iff] at hmissing
        exact .inr ⟨hmissing, hentries⟩

/-- The condition that is missing for the target of a mutation is reported. -/
theorem forall₂_targetReports (g : Partitioning) (access : Access) (p : Plan) :
    List.Forall₂ (fun ev c => ∃ target r, p.target? = some target ∧ target.relation? = some r ∧
        ReportsKey g access .targetPinned r ev c)
      ((p.targetReports g access).filter isTargetPinned) (p.missingKey? g access).toList := by
  have hpick := Event.picksAdditions_isTargetPinned
  rcases targetReports_cases g access p with
    ⟨target, r, part, t, htarget, hr, hpart, ht, hmissing, hreports⟩ | ⟨hmissing, hreports⟩
  · rw [hmissing, hreports, List.filter_cons,
      hpick.filter_eq_nil (isAddition_of_mem_unsuited part t)]
    exact .cons ⟨target, r, htarget, hr, part, t, hpart, ht, rfl, rfl⟩ .nil
  · rw [hmissing, hpick.filter_eq_nil hreports]
    exact .nil

/-- No other addition is reported on a target. -/
theorem filter_targetReports (g : Partitioning) (access : Access) (p : Plan)
    {pick : Event → Bool} (hpick : PicksAdditions pick)
    (htarget : ∀ key t, pick (.targetPinned key t) = false) :
    (p.targetReports g access).filter pick = [] := by
  rcases targetReports_cases g access p with
    ⟨target, r, part, t, -, -, -, -, -, hreports⟩ | ⟨-, hreports⟩
  · rw [hreports, List.filter_cons, htarget, if_neg Bool.false_ne_true]
    exact hpick.filter_eq_nil (isAddition_of_mem_unsuited part t)
  · exact hpick.filter_eq_nil hreports

/-! ### Guarded plans -/

section

variable (g : Partitioning) (access : Access)

theorem scopeNodes_guardTarget (p : Plan) :
    (p.guardTarget g access).scopeNodes = p.scopeNodes := by
  have hkeys : (p.missingKey? g access).toList.filter (·.owner?.isSome) = [] := by
    rw [List.filter_eq_nil_iff]
    intro c hc
    obtain ⟨_, _, _, -, -, rfl⟩ := exists_keyCondition_of_missingKey? (Option.mem_toList.1 hc)
    exact Bool.false_ne_true
  cases p with
  | update | delete =>
    rw [scopeNodes, nodes, List.filter_cons, subnodes_guardTarget, List.filter_append, hkeys,
      List.append_nil, guardTarget_eq]
    rfl
  | _ => rfl

theorem mutationWheres_guardTarget (p : Plan) : (p.guardTarget g access).mutationWheres
    = p.mutationWheres ++ (p.missingKey? g access).toList := by
  rw [guardTarget_eq]
  cases htarget : p.target? with
  | none =>
    have hmissing : p.missingKey? g access = none := by
      simp [missingKey?, openTarget?, guarded?, htarget]
    rw [hmissing, Option.toList_none, List.append_nil, withWheres_self]
  | some target =>
    exact mutationWheres_withWheres (by rw [htarget, Option.isSome_some]) _

variable {p : Plan} (hplain : ∀ m ∈ p.nodes, m.isSynthetic = false)
include hplain

theorem linkEvents_of_plain : p.linkEvents = [] := by
  rw [linkEvents, List.filterMap_eq_nil_iff]
  intro m hm
  have hsynthetic := hplain m hm
  cases m <;> first | rfl | simp [isSynthetic] at hsynthetic

theorem isTenantKey_of_plain : ∀ m ∈ p.nodes, m.isTenantKey = false := by
  intro m hm
  have hsynthetic := hplain m hm
  cases m <;> first | rfl | simp [isSynthetic] at hsynthetic

/-- No link is added for a target. -/
theorem linkEvents_guardTarget : (p.guardTarget g access).linkEvents = [] := by
  have hkeys : (p.missingKey? g access).toList.filterMap linkEvent? = [] := by
    rw [List.filterMap_eq_nil_iff]
    intro c hc
    obtain ⟨_, _, _, -, -, rfl⟩ := exists_keyCondition_of_missingKey? (Option.mem_toList.1 hc)
    rfl
  have hroot : (p.guardTarget g access).linkEvent? = p.linkEvent? := by
    rw [guardTarget_eq]
    cases p <;> rfl
  rw [linkEvents, nodes, List.filterMap_cons, hroot, subnodes_guardTarget, List.filterMap_append,
    hkeys, List.append_nil, ← List.filterMap_cons]
  exact linkEvents_of_plain hplain

/-- The one tenant condition that is added for a target is the one that is missing. -/
theorem tenantKeys_guardTarget :
    (p.guardTarget g access).tenantKeys = (p.missingKey? g access).toList := by
  have hkeys : (p.missingKey? g access).toList.filter isTenantKey
      = (p.missingKey? g access).toList := by
    rw [List.filter_eq_self]
    intro c hc
    obtain ⟨_, _, _, -, -, rfl⟩ := exists_keyCondition_of_missingKey? (Option.mem_toList.1 hc)
    rfl
  have hroot : (p.guardTarget g access).isTenantKey = p.isTenantKey := by
    rw [guardTarget_eq]
    cases p <;> rfl
  have hbelow : p.subnodes.filter isTenantKey = [] :=
    List.filter_eq_nil_iff.2 fun m hm => by
      simp [isTenantKey_of_plain hplain m (List.mem_cons_of_mem _ hm)]
  rw [tenantKeys, picked, nodes, List.filter_cons, hroot,
    isTenantKey_of_plain hplain p p.self_mem_nodes, if_neg Bool.false_ne_true,
    subnodes_guardTarget, List.filter_append, hbelow, hkeys, List.nil_append]

end

/-! ### Building -/

/-- What is built of a plan, unless in write-only mode. -/
def built (g : Partitioning) (access : Access) (p : Plan) : Plan :=
  (p.guardTarget g access).settle g g access []

/-- What is imposed on a plan when it is built. -/
def owing (g : Partitioning) (access : Access) (p : Plan) : Restriction :=
  due g access (p.guardTarget g access)

section

variable {g : Partitioning} {access : Access}

/-- What stands behind the `WHERE` list of a mutation is the condition that was missing. -/
theorem drop_mutationWheres_built (p : Plan) :
    (p.built g access).mutationWheres.drop p.mutationWheres.length
      = (p.missingKey? g access).toList := by
  rw [built, mutationWheres_settle, mutationWheres_guardTarget, List.map_append,
    map_settle_missingKey?, List.drop_left' (List.length_map _)]

variable (hw : access.writeOnly = false)
include hw

theorem built_eq_impose (p : Plan) : p.built g access
    = ((p.guardTarget g access).impose (p.owing g access) 0).value :=
  settle_eq_impose hw _

/-- Additions are reported on the target and while conditions are imposed. -/
theorem filter_entries_secure (p : Plan) {pick : Event → Bool} (hpick : PicksAdditions pick) :
    (p.secure g access).entries.filter pick = (p.targetReports g access).filter pick
      ++ ((p.guardTarget g access).reports (p.owing g access) 0).filter pick := by
  have hsurveyed : ∀ scopes, ∀ ev ∈ Scope.surveyed scopes, ev.isAddition = false := by
    simp [Scope.surveyed, Event.isAddition, isKeyPinned, isKeyLinked, isTargetPinned]
  rw [entries_secure, entries_restrict g hw, List.filter_append, List.filter_append,
    hpick.filter_eq_nil (hsurveyed _), List.nil_append]
  rfl

variable {p : Plan} (hplain : ∀ m ∈ p.nodes, m.isSynthetic = false)
include hplain

theorem scopeKeys_built (n : Nat) : (p.built g access).scopeKeys n
    = if n < (p.guardTarget g access).owners.length then (p.owing g access).keyConditions n
      else [] := by
  rw [built_eq_impose hw]
  refine scopeKeys_impose _ (fun m hm c hc => ?_) n
  rw [scopeNodes_guardTarget] at hm
  exact isTenantKey_of_plain hplain c (nodes_subset_of_mem_nodes (List.mem_of_mem_filter hm)
    (mem_nodes_of_mem_ownConditions hc))

theorem perm_linkEvents_built : (p.built g access).linkEvents.Perm
    (((p.guardTarget g access).reports (p.owing g access) 0).filter isKeyLinked) := by
  have hperm := perm_linkEvents_impose (p.owing g access) 0 (p.guardTarget g access)
  rwa [linkEvents_guardTarget g access hplain, List.append_nil, ← built_eq_impose hw] at hperm

theorem perm_tenantKeys_built : (p.built g access).tenantKeys.Perm
    ((List.range (p.built g access).scopeNodes.length).flatMap (p.built g access).scopeKeys
      ++ (p.missingKey? g access).toList) := by
  have hlength : (p.built g access).scopeNodes.length
      = (p.guardTarget g access).owners.length := by
    rw [built_eq_impose hw, length_scopeNodes, owners_impose]
  have hscopes : (List.range (p.built g access).scopeNodes.length).flatMap
        (p.built g access).scopeKeys
      = (List.range' 0 (p.guardTarget g access).owners.length).flatMap
        (p.owing g access).keyConditions := by
    rw [hlength, List.range_eq_range']
    refine List.flatMap_congr fun n hn => ?_
    rw [scopeKeys_built hw hplain, if_pos (by simpa using hn)]
  have hperm := perm_tenantKeys_impose (p.owing g access) 0 (p.guardTarget g access)
  rwa [tenantKeys_guardTarget g access hplain, ← hscopes, ← built_eq_impose hw] at hperm

end

/-- The log reports exactly what has been added to the plan `p` to make `q` of it. -/
structure ReportsAdditions (g : Partitioning) (access : Access) (p q : Plan) (log : List Event) :
    Prop where
  /-- The tenant conditions of a scope are reported one by one, with the number of the scope. -/
  scopes : ∀ n, List.Forall₂ (fun ev c => ∃ r, ReportsKey g access (.keyPinned n) r ev c)
    (log.filter (pinsAt n)) (q.scopeKeys n)
  /-- The links are reported, in some order. -/
  links : (log.filter isKeyLinked).Perm q.linkEvents
  /-- What stands behind the `WHERE` list of a mutation is reported as the condition for its
  target. -/
  target : List.Forall₂ (fun ev c => ∃ target r, p.target? = some target ∧
      target.relation? = some r ∧ ReportsKey g access .targetPinned r ev c)
    (log.filter isTargetPinned) (q.mutationWheres.drop p.mutationWheres.length)
  /-- There are no tenant conditions but these. -/
  tenantKeys : q.tenantKeys.Perm ((List.range q.scopeNodes.length).flatMap q.scopeKeys
    ++ q.mutationWheres.drop p.mutationWheres.length)

section

variable {g : Partitioning} {access : Access} {p : Plan}
  (hplain : ∀ m ∈ p.nodes, m.isSynthetic = false)
include hplain

/-- Where no addition is reported, nothing has been added. -/
theorem reportsAdditions_self {log : List Event} (hlog : ∀ ev ∈ log, ev.isAddition = false) :
    ReportsAdditions g access p p log := by
  have hkeys := isTenantKey_of_plain hplain
  constructor
  · intro n
    rw [(Event.picksAdditions_pinsAt n).filter_eq_nil hlog, scopeKeys_of_plain hkeys]
    exact .nil
  · rw [Event.picksAdditions_isKeyLinked.filter_eq_nil hlog, linkEvents_of_plain hplain]
  · rw [Event.picksAdditions_isTargetPinned.filter_eq_nil hlog, List.drop_length]
    exact .nil
  · have hnone : p.tenantKeys = [] := List.filter_eq_nil_iff.2 fun m hm => by simp [hkeys m hm]
    simp [hnone, scopeKeys_of_plain hkeys]

/-- In write-only mode no addition is reported. -/
theorem reportsAdditions_of_writeOnly (hw : access.writeOnly = true) :
    ReportsAdditions g access p p (p.secure g access).entries := by
  refine reportsAdditions_self hplain fun ev hev => ?_
  rw [entries_secure, List.mem_append] at hev
  rcases hev with hev | hev
  · rcases targetReports_cases g access p with ⟨_, _, _, _, -, -, -, -, hsome, -⟩ | ⟨-, hreports⟩
    · simp [missingKey?, hw] at hsome
    · exact hreports ev hev
  · simp only [restrict, hw, if_true, Logged.entries_bind, Logged.entries_write,
      Logged.entries_pure, List.append_nil, List.mem_singleton] at hev
    exact hev ▸ rfl

theorem reportsAdditions_built (hw : access.writeOnly = false) :
    ReportsAdditions g access p (p.built g access) (p.secure g access).entries := by
  constructor
  · intro n
    have hpick := Event.picksAdditions_pinsAt n
    rw [filter_entries_secure hw p hpick, filter_targetReports g access p hpick fun _ _ => rfl,
      List.nil_append, filter_pinsAt_reports, scopeKeys_built hw hplain]
    simp only [Nat.zero_le, true_and, Nat.zero_add]
    split
    · exact forall₂_report (p.owing g access) n
    · exact .nil
  · have hpick := Event.picksAdditions_isKeyLinked
    rw [filter_entries_secure hw p hpick, filter_targetReports g access p hpick fun _ _ => rfl,
      List.nil_append]
    exact (perm_linkEvents_built hw hplain).symm
  · have hpick := Event.picksAdditions_isTargetPinned
    have hreports : ((p.guardTarget g access).reports (p.owing g access) 0).filter isTargetPinned
        = [] := by
      rw [List.filter_eq_nil_iff]
      intro ev hev
      simp [isTargetPinned_of_mem_reports _ hev]
    rw [filter_entries_secure hw p hpick, hreports, List.append_nil, drop_mutationWheres_built]
    exact forall₂_targetReports g access p
  · rw [drop_mutationWheres_built]
    exact perm_tenantKeys_built hw hplain

end

/-- **The log tells exactly what has been added.** A session builds every plan. If the plan has no
synthetic conditions, the log of the build reports those of the result one to one. The tenant
conditions among the conditions of a scope are reported in their order with the number of the scope,
each with its relation, partition key and tenant. The links are reported with both relations and the
partition key. A condition for the target of a mutation is reported exactly if one stands behind the
conditions that the mutation had. There are no tenant conditions in the result but these. -/
theorem build_reports_additions (s : Session) (access : Access) {p : Plan}
    (hplain : ∀ m ∈ p.nodes, m.isSynthetic = false) :
    ∃ q, (s.build access p).value = .ok q ∧
      ReportsAdditions s.partitioning access p q (s.build access p).entries := by
  cases hw : access.writeOnly with
  | true =>
    have hvalue : (p.secure s.partitioning access).value = .ok p := by
      rw [value_secure, guardTarget_of_writeOnly _ hw, value_restrict_writeOnly _ hw]
    exact ⟨p, hvalue, reportsAdditions_of_writeOnly hplain hw⟩
  | false => exact ⟨_, value_secure_eq_settle hw p, reportsAdditions_built hplain hw⟩

/-- Deletes the orders that have items. -/
def deleteSold : Plan :=
  let column (table name : String) : Plan := column ⟨⟨table, none⟩, name⟩
  delete (table "orders") [compare .isIn (column "orders" "id") <| select
    { projections := [column "orders" "id"]
      source := some <| join .inner (table "orders") (table "items") <| some <|
        equal (column "orders" "id") (column "items" "order_id") }]

/-- The log reports two conditions for the query, a link for its join and a condition for the
target, and these have been added. -/
theorem build_reports_deleteSold :
    ∃ q, (shopSession.build (.ofTenant ⟨"t1"⟩) deleteSold).value = .ok q ∧
      (q.scopeKeys 0).length = 2 ∧
      q.linkEvents = [.keyLinked ⟨⟨"items", none⟩, "tenant_id"⟩ ⟨"orders", none⟩] ∧
      (q.mutationWheres.drop 1).length = 1 := by
  obtain ⟨q, hq, hscopes, hlinks, htarget, -⟩ :=
    build_reports_additions shopSession (.ofTenant ⟨"t1"⟩) (p := deleteSold) (by decide)
  refine ⟨q, hq, ?_, ?_, ?_⟩
  · rw [← (hscopes 0).length_eq]
    decide
  · have hlog : ((shopSession.build (.ofTenant ⟨"t1"⟩) deleteSold).entries.filter isKeyLinked)
        = [.keyLinked ⟨⟨"items", none⟩, "tenant_id"⟩ ⟨"orders", none⟩] := by decide
    rw [hlog] at hlinks
    exact List.perm_singleton.1 hlinks.symm
  · exact htarget.length_eq.symm

end Plan

end Tenancy
