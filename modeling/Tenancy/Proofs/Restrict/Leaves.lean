import Tenancy.Proofs.Restrict.Growth

namespace Tenancy

/-!
# Leaves — what restriction does to the nodes that it does not go through

* `Plan.picked` — some of the nodes of a plan, as they are read;
* `Plan.PicksAside` — nothing is picked that restriction goes through;
* `PicksAside.picked_link`, `PicksAside.picked_linkAll` — linking keeps what is picked;
* `PicksAside.picked_enforce`, `PicksAside.perm_picked_enforce` — enforcing at a scope node keeps it,
  or adds what is picked of its conditions;
* `Plan.PicksLeaves` — only nodes without parts are picked, and no links;
* `PicksLeaves.perm_picked_impose` — what is picked of a restricted plan.
-/

namespace Plan

/-- Is the node of a kind that has no parts? -/
def isLeaf : Plan → Bool
  | table _ | column _ | literal _ | param _ | raw _ | tenantKey .. | keyLink .. => true
  | _ => false

/-- The nodes of a plan that `pick` picks, as they are read. -/
def picked (pick : Plan → Bool) (p : Plan) : List Plan := p.nodes.filter pick

/-- What is picked of a node that is not picked itself is what is picked of its parts. -/
theorem picked_eq {pick : Plan → Bool} {p : Plan} (h : pick p = false) :
    p.picked pick = p.parts.flatMap (·.2.picked pick) := by
  rw [picked, nodes_eq, List.filter_cons, h, if_neg Bool.false_ne_true, List.filter_flatMap]
  rfl

/-! ### Nodes aside -/

/-- No node is picked that restriction goes through, and no link. -/
structure PicksAside (pick : Plan → Bool) : Prop where
  select : ∀ q, pick (select q) = false
  join : ∀ kind l r on, pick (join kind l r on) = false
  and : ∀ ps, pick (and ps) = false
  keyLink : ∀ key other, pick (keyLink key other) = false

/-- A condition that enforcement adds is picked as a whole or not at all. -/
theorem flatMap_picked_keyConditions (pick : Plan → Bool) (e : Restriction) (n : Nat) :
    (e.keyConditions n).flatMap (picked pick) = (e.keyConditions n).filter pick := by
  have hself : ∀ c ∈ e.keyConditions n, c.picked pick = [c].filter pick := by
    intro c hc
    obtain ⟨_, _, rfl⟩ := eq_tenantKey_of_mem_keyConditions hc
    rfl
  rw [List.flatMap_congr hself, ← List.filter_flatMap, List.flatMap_singleton']

section

variable {pick : Plan → Bool} (hpick : PicksAside pick)
include hpick

theorem PicksAside.throughAnd_picked : ThroughAnd (picked pick) := fun ps => by
  rw [picked_eq (hpick.and ps), parts, List.flatMap_map]

theorem PicksAside.picked_join (kind : JoinKind) (l r : Plan) (on : Option Plan) :
    (Plan.join kind l r on).picked pick
      = l.picked pick ++ (r.picked pick ++ on.toList.flatMap (picked pick)) := by
  rw [picked_eq (hpick.join ..), parts, List.flatMap_cons, List.flatMap_cons, List.flatMap_map]

theorem PicksAside.picked_link (g : Partitioning) (key : Column) (p : Plan) :
    (p.link g key).value.picked pick = p.picked pick := by
  induction p using link.induct with
  | case1 kind l r on ihl ihr =>
    have hon := (adds_linkedOn g key (l.link g key).value (r.link g key).value on).flatMap_eq
      hpick.throughAnd_picked fun c hc => by
        obtain ⟨other, _, rfl⟩ := List.mem_map.1 hc
        simp [picked, nodes, subnodes, hpick.keyLink]
    rw [value_link_join, hpick.picked_join, hpick.picked_join, ihl, ihr, hon]
  | case2 p h => rw [link_of_not_join g key h, Logged.value_pure]

theorem PicksAside.picked_linkAll (g : Partitioning) (keys : List Column) (p : Plan) :
    (linkAll g keys p).value.picked pick = p.picked pick :=
  linkAll_induction (motive := fun q => q.picked pick = p.picked pick) rfl fun k _ q hq => by
    rw [hpick.picked_link, hq]

theorem PicksAside.perm_picked_enforce (e : Restriction) (n : Nat) {p : Plan}
    (ho : p.owner?.isSome) :
    ((p.enforce e n).picked pick).Perm ((e.keyConditions n).filter pick ++ p.picked pick) := by
  have hconditions := flatMap_picked_keyConditions pick e n
  cases p with
  | select q =>
    have hwheres := hpick.throughAnd_picked.flatMap_addWheres (e.keyConditions n) q.wheres
    have hsource : (q.source.map fun s =>
        (linkAll e.partitioning (e.linkKeys n) s).value).toList.flatMap (picked pick)
          = q.source.toList.flatMap (picked pick) := by
      cases q.source <;> simp [hpick.picked_linkAll]
    rw [hconditions] at hwheres
    rw [enforce, picked_eq (hpick.select _), picked_eq (hpick.select q)]
    simp only [parts, List.flatMap_append, List.flatMap_map, hsource, hwheres]
    -- The conditions stand between the projections and the `WHERE` list.
    simpa only [List.append_assoc] using List.perm_append_comm_assoc
      (q.source.toList.flatMap (picked pick) ++ q.projections.flatMap (picked pick))
      ((e.keyConditions n).filter pick) _
  | join kind l r on =>
    rw [isSome_owner?_join] at ho
    have hon := hpick.throughAnd_picked.flatMap_addOn (e.keyConditions n) on
    rw [hconditions] at hon
    rw [enforce, if_pos ho, hpick.picked_join, hpick.picked_join, hpick.picked_linkAll,
      hpick.picked_linkAll, hon]
    -- They are the last of the join.
    simpa only [List.append_assoc] using @List.perm_append_comm _
      (l.picked pick ++ r.picked pick ++ on.toList.flatMap (picked pick))
      ((e.keyConditions n).filter pick)
  | _ => simp [owner?] at ho

/-- Where no condition is picked, enforcing keeps what is picked, and its order. -/
theorem PicksAside.picked_enforce (hkeys : ∀ key value, pick (tenantKey key value) = false)
    (e : Restriction) (n : Nat) (p : Plan) : (p.enforce e n).picked pick = p.picked pick := by
  have hcs : ∀ c ∈ e.keyConditions n, c.picked pick = [] := by
    intro c hc
    obtain ⟨key, value, rfl⟩ := eq_tenantKey_of_mem_keyConditions hc
    simp [picked, nodes, subnodes, hkeys]
  cases p with
  | select q =>
    have hws := (adds_addWheres _ q.wheres).flatMap_eq hpick.throughAnd_picked hcs
    rw [enforce, picked_eq (hpick.select _), picked_eq (hpick.select q)]
    cases hs : q.source <;>
      simp [parts, List.flatMap_map, hws, hs, hpick.picked_linkAll]
  | join kind l r on =>
    rw [enforce]
    split
    · have hon := (adds_addOn _ on).flatMap_eq hpick.throughAnd_picked hcs
      rw [hpick.picked_join, hpick.picked_join, hpick.picked_linkAll, hpick.picked_linkAll, hon]
    · rfl
  | _ => rfl

end

/-! ### Leaves -/

/-- Only nodes without parts are picked, and no links. -/
structure PicksLeaves (pick : Plan → Bool) : Prop where
  isLeaf : ∀ p, pick p = true → p.isLeaf = true
  keyLink : ∀ key other, pick (keyLink key other) = false

section

variable {pick : Plan → Bool} (hpick : PicksLeaves pick)
include hpick

theorem PicksLeaves.eq_false {p : Plan} (h : p.isLeaf = false) : pick p = false := by
  cases hp : pick p with
  | false => rfl
  | true => rw [← h, hpick.isLeaf p hp]

theorem PicksLeaves.picksAside : PicksAside pick where
  select _ := hpick.eq_false rfl
  join _ _ _ _ := hpick.eq_false rfl
  and _ := hpick.eq_false rfl
  keyLink := hpick.keyLink

/-- What is picked of a node that has parts is what is picked of its parts. -/
theorem PicksLeaves.picked_eq {p : Plan} (h : p.isLeaf = false) :
    p.picked pick = p.parts.flatMap (·.2.picked pick) :=
  Plan.picked_eq (hpick.eq_false h)

omit hpick in
private theorem perm_regroup {α : Type} {xs ys a b c d : List α} (h : xs.Perm (a ++ b))
    (h' : ys.Perm (c ++ d)) : (xs ++ ys).Perm ((a ++ c) ++ (b ++ d)) := by
  refine (h.append h').trans ?_
  simpa only [List.append_assoc] using
    ((List.perm_append_comm_assoc b c d).append_left a)

omit hpick in
private theorem perm_picked_imposeParts {e : Restriction} (n : Nat) {cs : List (Role × Plan)}
    (h : ∀ c ∈ cs, ∀ n, ((c.2.impose e n).value.picked pick).Perm
      (((List.range' n c.2.owners.length).flatMap fun n => (e.keyConditions n).filter pick)
        ++ c.2.picked pick)) :
    ((imposeParts e n cs).flatMap (·.2.picked pick)).Perm
      (((List.range' n (cs.flatMap (·.2.owners)).length).flatMap
          fun n => (e.keyConditions n).filter pick)
        ++ cs.flatMap (·.2.picked pick)) := by
  induction cs generalizing n with
  | nil => exact .nil
  | cons c cs ih =>
    rw [imposeParts, List.flatMap_cons, List.flatMap_cons, List.flatMap_cons, List.length_append,
      ← List.range'_append_1, List.flatMap_append]
    exact perm_regroup (h c List.mem_cons_self n)
      (ih _ fun c' hc' => h c' (List.mem_cons_of_mem _ hc'))

/-- What is picked of a restricted plan is what is picked of the plan and what is picked of the
conditions of its scopes. -/
theorem PicksLeaves.perm_picked_impose (e : Restriction) (n : Nat) (p : Plan) :
    ((p.impose e n).value.picked pick).Perm
      (((List.range' n p.owners.length).flatMap fun n => (e.keyConditions n).filter pick)
        ++ p.picked pick) := by
  induction p using inductionOnParts generalizing n with
  | step p ih =>
    cases hleaf : p.isLeaf with
    | true => cases p <;> first | exact .refl _ | simp [Plan.isLeaf] at hleaf
    | false =>
      have hbelow : (p.imposeBelow e n).isLeaf = false := by
        cases p <;> first | rfl | exact hleaf
      have hparts := perm_picked_imposeParts (n + p.owner?.toList.length) ih
      rw [← parts_imposeBelow, ← hpick.picked_eq hbelow, ← hpick.picked_eq hleaf] at hparts
      rw [value_impose, owners_eq]
      cases ho : p.owner? with
      | none =>
        rw [enforce_of_not_owner e n ((sameNode_imposeBelow e n p).owner?_eq.trans ho)]
        simpa [ho] using hparts
      | some o =>
        have hsome : (p.imposeBelow e n).owner?.isSome := by
          rw [(sameNode_imposeBelow e n p).owner?_eq, ho, Option.isSome_some]
        -- The node itself has the first of the numbers.
        have hrange : ∀ k, List.range' n ([o].length + k) = n :: List.range' (n + 1) k := by
          intro k
          rw [List.length_singleton, Nat.add_comm, List.range'_succ]
        rw [Option.toList_some, List.length_append, hrange, List.flatMap_cons, List.append_assoc]
        rw [ho, Option.toList_some, List.length_singleton] at hparts
        exact (hpick.picksAside.perm_picked_enforce e n hsome).trans (hparts.append_left _)

end

end Plan

end Tenancy
