import Tenancy.Proofs.Restrict.Additions
import Tenancy.Proofs.Restrict.Leaves
import Tenancy.Proofs.Restrict.Settling
import Tenancy.Proofs.Restrict.Stability
import Tenancy.Proofs.Restrict.Targets

namespace Tenancy

/-!
# Mutations — what restriction does to mutations, at the root of a plan and inside it

* `apply_enforce`, `keepsNames_settle`, `keepsAnd_settle` — what settling leaves in place;
* `settle_guardTarget` — settling neither hides nor adds a condition for a target, so it does not
  matter whether the target is guarded before or after it;
* `restrictTarget_comm_restrict` — the same of the passes over a mutation, and of building it;
* `Plan.mutations`, `Plan.TiesWritten` — the mutations in a plan, and those whose conditions tie what
  they write to a tenant;
* `mutations_settle` — the mutations in a settled plan are those of the plan, each settled;
* `build_ties_root` — building ties the mutation at the root of a plan and no other.
-/

namespace Plan

/-! ### Targets of settled plans -/

/-- What is the same of all `SELECT`s, and of all joins of a kind, does not see what is enforced. -/
theorem apply_enforce {β : Type} {φ : Plan → β} (hselect : ∀ q q', φ (select q) = φ (select q'))
    (hjoin : ∀ kind l r on l' r' on', φ (join kind l r on) = φ (join kind l' r' on'))
    (e : Restriction) (n : Nat) (p : Plan) : φ (p.enforce e n) = φ p := by
  cases p with
  | select q => exact hselect _ _
  | join kind l r on =>
    rw [enforce]
    split
    · exact hjoin ..
    · rfl
  | _ => rfl

section

variable (g g' : Partitioning) (access : Access) (inherited : List Relation)

/-- The same of what is done at a node when the plan is settled. -/
theorem apply_settle {β : Type} {φ : Plan → β} (hselect : ∀ q q', φ (select q) = φ (select q'))
    (hjoin : ∀ kind l r on l' r' on', φ (join kind l r on) = φ (join kind l' r' on')) (p : Plan) :
    φ (p.settle g g' access inherited)
      = φ (p.mapParts (settle g g' access (p.tiedInside g inherited))) := by
  rw [settle_eq]
  exact apply_enforce hselect hjoin _ _ _

theorem settle_of_not_owner {p : Plan} (h : p.owner? = none) :
    p.settle g g' access inherited = p.mapParts (settle g g' access inherited) := by
  rw [settle_eq, tiedInside, h, Option.elim_none, enforce_of_not_owner]
  rw [owner?_mapParts, h]

theorem keepsNames_settle : KeepsNames (settle g g' access inherited) where
  eq_self p hp := by
    refine settle_of_owners_eq_nil g g' access inherited ?_
    cases p <;> first | rfl | simp [isName] at hp
  isName p := by
    rw [apply_settle (φ := isName) _ _ _ _ (fun _ _ => rfl) fun _ _ _ _ _ _ _ => rfl,
      isName_mapParts]

theorem keepsAnd_settle : KeepsAnd (settle g g' access inherited) where
  and ps := settle_of_not_owner g g' access inherited rfl
  isAnd p := by
    rw [apply_settle (φ := isAnd) _ _ _ _ (fun _ _ => rfl) fun _ _ _ _ _ _ _ => rfl]
    cases p <;> rfl

/-- Settling changes nothing about what ties the key of a relation. -/
theorem holdsKey_settle (r : Relation) (part : Partition) (p : Plan) :
    holdsKey r part (p.settle g g' access inherited) = holdsKey r part p := by
  rw [holdsKey_eq, holdsKey_eq, (keepsAnd_settle g g' access inherited).conjuncts, List.any_map]
  -- Settling goes through the conjunctions, and it keeps the column that an equality is about.
  refine congrArg p.conjuncts.any (funext fun c => ?_)
  rw [Function.comp_apply,
    apply_settle (φ := tiesKey r part) _ _ _ _ (fun _ _ => rfl) fun _ _ _ _ _ _ _ => rfl]
  exact (keepsNames_settle g g' access _).tiesKey_mapParts r part c

theorem relation?_settle (p : Plan) :
    (p.settle g g' access inherited).relation? = p.relation? := by
  rw [apply_settle (φ := relation?) _ _ _ _ (fun _ _ => rfl) fun _ _ _ _ _ _ _ => rfl]
  exact (keepsNames_settle g g' access _).relation?_mapParts p

theorem target?_settle (p : Plan) : (p.settle g g' access inherited).target?
    = p.target?.map (settle g g' access inherited) := by
  rw [apply_settle (φ := target?) _ _ _ _ (fun _ _ => rfl) fun _ _ _ _ _ _ _ => rfl]
  cases p <;> rfl

theorem mutationWheres_settle (p : Plan) : (p.settle g g' access inherited).mutationWheres
    = p.mutationWheres.map (settle g g' access inherited) := by
  rw [apply_settle (φ := mutationWheres) _ _ _ _ (fun _ _ => rfl) fun _ _ _ _ _ _ _ => rfl]
  cases p <;> rfl

theorem settle_withWheres (ws : List Plan) (p : Plan) :
    (p.withWheres ws).settle g g' access inherited
      = (p.settle g g' access inherited).withWheres (ws.map (settle g g' access inherited)) := by
  cases htarget : p.target? with
  | none =>
    have hsettled : (p.settle g g' access inherited).target? = none := by
      rw [target?_settle, htarget, Option.map_none]
    rw [withWheres_of_target?_eq_none htarget, withWheres_of_target?_eq_none hsettled]
  | some target =>
    have hsome : p.target?.isSome := by rw [htarget, Option.isSome_some]
    have hsome' : (p.withWheres ws).target?.isSome := by rwa [target?_withWheres]
    rw [settle_of_not_owner g g' access inherited (owner?_of_target? hsome),
      settle_of_not_owner g g' access inherited (owner?_of_target? hsome'), mapParts_withWheres]

/-- Settling changes nothing about what the conditions of a mutation tie to a tenant. -/
theorem any_holdsKey_settle (r : Relation) (part : Partition) (p : Plan) :
    (p.settle g g' access inherited).mutationWheres.any (holdsKey r part)
      = p.mutationWheres.any (holdsKey r part) := by
  rw [mutationWheres_settle, List.any_map]
  exact congrArg p.mutationWheres.any (funext (holdsKey_settle g g' access inherited r part))

theorem openTarget?_settle (known : Partitioning) (p : Plan) :
    (p.settle g g' access inherited).openTarget? known = p.openTarget? known := by
  have hguarded : (p.settle g g' access inherited).guarded? known = p.guarded? known :=
    guarded?_congr (relation?_settle g g' access inherited)
      (target?_settle g g' access inherited p) known
  simp only [openTarget?, hguarded, any_holdsKey_settle]

/-- The condition that is missing for a target is settled as it is. -/
theorem map_settle_missingKey? (known : Partitioning) (access' : Access) (p : Plan) :
    (p.missingKey? known access').toList.map (settle g g' access inherited)
      = (p.missingKey? known access').toList := by
  have hself : ∀ c ∈ (p.missingKey? known access').toList,
      c.settle g g' access inherited = c := fun c hc =>
    settle_of_owners_eq_nil g g' access inherited
      (owners_of_isSynthetic (isSynthetic_missingKey? known access' p c hc))
  rw [List.map_congr_left hself, List.map_id']

/-- The target of a mutation may be guarded before settling the plan, or after it. -/
theorem settle_guardTarget (known : Partitioning) (access' : Access) (p : Plan) :
    (p.guardTarget known access').settle g g' access inherited
      = (p.settle g g' access inherited).guardTarget known access' := by
  have hmissing : (p.settle g g' access inherited).missingKey? known access'
      = p.missingKey? known access' := by
    rw [missingKey?, missingKey?, openTarget?_settle]
  rw [guardTarget_eq, guardTarget_eq, settle_withWheres, List.map_append, map_settle_missingKey?,
    mutationWheres_settle, hmissing]

end

/-! ### Building -/

section

variable {g : Partitioning}

/-- Building a plan settles it, once its target is guarded. -/
theorem value_secure_eq_settle {access : Access} (hw : access.writeOnly = false) (p : Plan) :
    (p.secure g access).value = .ok ((p.guardTarget g access).settle g g access []) :=
  (value_secure g access p).trans (value_restrict_eq_settle g hw _)

theorem settle_eq_impose {access : Access} (hw : access.writeOnly = false) (p : Plan) :
    p.settle g g access [] = (p.impose (due g access p) 0).value :=
  Except.ok.inj ((value_restrict_eq_settle g hw p).symm.trans (value_restrict g hw p))

/-- In a plan settled for a tenant nothing is outstanding. -/
theorem outstandingAt_settle {access : Access} {t : Tenant} (ht : access.tenant = some t)
    (hw : access.writeOnly = false) (p : Plan) (n : Nat) :
    Scope.outstandingAt ((p.settle g g access []).scopes g) n = [] := by
  rw [settle_eq_impose hw]
  exact outstandingAt_impose g access ht p n

/-- Where neither a target is open nor anything outstanding, building changes nothing, whatever the
access is. -/
theorem secure_of_nothing_open {p : Plan} (htarget : p.openTarget? g = none)
    (hscopes : ∀ n, Scope.outstandingAt (p.scopes g) n = []) (access : Access) :
    (p.secure g access).value = .ok p := by
  rw [value_secure, guardTarget_of_openTarget?_eq_none htarget]
  exact restrict_of_outstandingAt_eq_nil hscopes access

/-- What is built for a tenant has no open target. -/
theorem openTarget?_settle_guardTarget {access : Access} {t : Tenant}
    (ht : access.tenant = some t) (hw : access.writeOnly = false) (p : Plan) :
    ((p.guardTarget g access).settle g g access []).openTarget? g = none := by
  rw [openTarget?_settle, openTarget?_guardTarget g ht hw]

end

/-- **Restricting a mutation and restricting its target commute.** For a mutation of a table, which
may have an alias, it does not matter which of the two is done first: the result is the mutation
that is built. If it is built for a tenant, building it again changes nothing, whatever the second
access is. -/
theorem restrictTarget_comm_restrict (s : Session) (access : Access) {p target : Plan}
    {r : Relation} (htarget : p.target? = some target) (hr : target.relation? = some r) :
    let g := s.partitioning
    ∃ q, (s.build access p).value = .ok q ∧
      ((p.restrictTarget g access r.table).value.bind fun p' => (p'.restrict g access).value)
        = .ok q ∧
      ((p.restrict g access).value.bind fun p' => (p'.restrictTarget g access r.table).value)
        = .ok q ∧
      ∀ t, access.tenant = some t → access.writeOnly = false →
        ∀ access', (s.build access' q).value = .ok q := by
  intro g
  have hguard := value_restrictTarget g access htarget hr
  cases hw : access.writeOnly with
  | true =>
    -- None of the passes changes anything.
    have hsame := guardTarget_of_writeOnly g hw p
    have hrestrict := value_restrict_writeOnly g hw p
    rw [hsame] at hguard
    refine ⟨p, ?_, ?_, ?_, fun _ _ h => by simp at h⟩
    · exact (value_secure g access p).trans (by rw [hsame, hrestrict])
    · rw [hguard, Except.bind, hrestrict]
    · rw [hrestrict, Except.bind, hguard]
  | false =>
    have hrestrict := fun p => value_restrict_eq_settle g hw p
    have hsettled : (p.settle g g access []).target? = some (target.settle g g access []) := by
      rw [target?_settle, htarget, Option.map_some]
    have hsettledr : (target.settle g g access []).relation? = some r := by
      rw [relation?_settle, hr]
    refine ⟨_, value_secure_eq_settle hw p, ?_, ?_, fun t ht _ access' => ?_⟩
    · rw [hguard, Except.bind, hrestrict]
    -- The settled mutation has the same relation for its target, so it is guarded in the same way.
    · rw [hrestrict, Except.bind, value_restrictTarget g access hsettled hsettledr,
        settle_guardTarget]
    · exact secure_of_nothing_open (openTarget?_settle_guardTarget ht hw p)
        (outstandingAt_settle ht hw _) access'

/-- Empties the orders, under an alias, that have an item. -/
def emptyOrders : Plan :=
  update (aliased (table "orders") "o") [("total", literal (.int 0))]
    [compare .isIn (column ⟨⟨"orders", some "o"⟩, "id"⟩) <| select
      { projections := [column ⟨⟨"items", none⟩, "order_id"⟩], source := some (table "items") }]

/-- The condition for the orders and the one for the items may come in either order. -/
theorem emptyOrders_comm :
    ∃ q, (shopSession.build (.ofTenant ⟨"t1"⟩) emptyOrders).value = .ok q ∧
      ((emptyOrders.restrictTarget shop (.ofTenant ⟨"t1"⟩) "orders").value.bind fun p =>
        (p.restrict shop (.ofTenant ⟨"t1"⟩)).value) = .ok q ∧
      ((emptyOrders.restrict shop (.ofTenant ⟨"t1"⟩)).value.bind fun p =>
        (p.restrictTarget shop (.ofTenant ⟨"t1"⟩) "orders").value) = .ok q ∧
      (shopSession.build (.ofTenant ⟨"t2"⟩) q).value = .ok q := by
  obtain ⟨q, hbuild, htarget, hqueries, hagain⟩ :=
    restrictTarget_comm_restrict shopSession (.ofTenant ⟨"t1"⟩) (p := emptyOrders) rfl rfl
  exact ⟨q, hbuild, htarget, hqueries, hagain ⟨"t1"⟩ rfl rfl (.ofTenant ⟨"t2"⟩)⟩

/-! ### Mutations inside a plan -/

/-- The relation that a source refers to, read through aliases and parentheses. -/
def namedRelation? : Plan → Option Relation
  | table t => some ⟨t, none⟩
  | aliased p a => p.namedRelation?.map fun r => { r with label := some a }
  | group p => p.namedRelation?
  | _ => none

/-- The relation that a mutation writes to, read in this way. -/
def written? (m : Plan) : Option Relation := m.target?.bind namedRelation?

/-- The conditions of a mutation tie the tenant relation that it writes to, to a tenant. -/
def TiesWritten (g : Partitioning) (m : Plan) : Prop :=
  ∃ r part, m.written? = some r ∧ g.of? r.table = some part ∧
    m.mutationWheres.any (holdsKey r part) = true

/-- The mutations in a plan, as they are read. -/
def mutations : Plan → List Plan := picked (·.target?.isSome)

/-- The mutations below the root of a plan. -/
def innerMutations (p : Plan) : List Plan := p.subnodes.filter (·.target?.isSome)

theorem picksAside_isMutation : PicksAside (·.target?.isSome) where
  select _ := rfl
  join _ _ _ _ := rfl
  and _ := rfl
  keyLink _ _ := rfl

theorem innerMutations_eq (p : Plan) : p.innerMutations = p.parts.flatMap (·.2.mutations) := by
  rw [innerMutations, subnodes_eq, List.filter_flatMap]
  rfl

theorem mutations_eq (p : Plan) :
    p.mutations = (if p.target?.isSome then [p] else []) ++ p.innerMutations := by
  rw [mutations, picked, nodes, List.filter_cons, innerMutations]
  split <;> rfl

section

variable (g g' : Partitioning) (access : Access) (inherited : List Relation)

theorem namedRelation?_settle (p : Plan) :
    (p.settle g g' access inherited).namedRelation? = p.namedRelation? := by
  induction p using inductionOnParts generalizing inherited with
  | step p ih =>
    rw [apply_settle (φ := namedRelation?) _ _ _ _ (fun _ _ => rfl) fun _ _ _ _ _ _ _ => rfl]
    cases p with
    | aliased p a =>
      have hsource := ih (_, p) (List.mem_singleton_self _) inherited
      exact congrArg (Option.map fun r : Relation => { r with label := some a }) hsource
    | group p => exact ih (_, p) (List.mem_singleton_self _) inherited
    | _ => rfl

theorem written?_settle (m : Plan) :
    (m.settle g g' access inherited).written? = m.written? := by
  rw [written?, written?, target?_settle]
  cases m.target? with
  | none => rfl
  | some target => exact namedRelation?_settle g g' access inherited target

theorem tiesWritten_settle (known : Partitioning) (m : Plan) :
    (m.settle g g' access inherited).TiesWritten known ↔ m.TiesWritten known := by
  simp only [TiesWritten, written?_settle, any_holdsKey_settle]

/-- The mutations in a settled plan are those of the plan, each settled. -/
theorem mutations_settle (p : Plan) :
    List.Forall₂ (fun m m' => ∃ inherited, m' = m.settle g g' access inherited) p.mutations
      (p.settle g g' access inherited).mutations := by
  induction p using inductionOnParts generalizing inherited with
  | step p ih =>
    have henforce : (p.settle g g' access inherited).mutations
        = (p.mapParts (settle g g' access (p.tiedInside g inherited))).mutations := by
      rw [settle_eq]
      exact picksAside_isMutation.picked_enforce (fun _ _ => rfl) _ _ _
    have hinner : (p.mapParts (settle g g' access (p.tiedInside g inherited))).innerMutations
        = p.parts.flatMap fun c => (c.2.settle g g' access (p.tiedInside g inherited)).mutations := by
      rw [innerMutations_eq, flatMap_parts_mapParts]
    rw [henforce, mutations_eq, mutations_eq, hinner, innerMutations_eq, target?_mapParts,
      Option.isSome_map]
    refine List.rel_append ?_ (forall₂_flatMap fun c hc => ih c hc _)
    split
    · next htarget =>
      -- A mutation owns no scope, so nothing is enforced at it.
      have howner := owner?_of_target? htarget
      refine .cons ⟨inherited, ?_⟩ .nil
      rw [settle_of_not_owner g g' access inherited howner, tiedInside, howner, Option.elim_none]
    · exact .nil

theorem innerMutations_settle (p : Plan) :
    List.Forall₂ (fun m m' => ∃ inherited, m' = m.settle g g' access inherited) p.innerMutations
      (p.settle g g' access inherited).innerMutations := by
  have hall := mutations_settle g g' access inherited p
  rw [mutations_eq, mutations_eq, target?_settle, Option.isSome_map] at hall
  cases htarget : p.target?.isSome with
  | true =>
    simp only [htarget, if_true, List.singleton_append, List.forall₂_cons] at hall
    exact hall.2
  | false => simpa [htarget] using hall

end

section

variable {g : Partitioning}

theorem innerMutations_guardTarget (access : Access) (p : Plan) :
    (p.guardTarget g access).innerMutations = p.innerMutations := by
  have hkeys : (p.missingKey? g access).toList.filter (·.target?.isSome) = [] := by
    refine List.filter_eq_nil_iff.2 fun c hc => ?_
    have hsynthetic := isSynthetic_missingKey? g access p c hc
    cases c <;> first | exact Bool.false_ne_true | simp [isSynthetic] at hsynthetic
  rw [innerMutations, subnodes_guardTarget, List.filter_append, hkeys, List.append_nil,
    innerMutations]

theorem namedRelation?_of_relation? {p : Plan} {r : Relation} (h : p.relation? = some r) :
    p.namedRelation? = some r := by
  cases p with
  | table t => exact h
  | aliased p a =>
    cases p with
    | table t => exact h
    | _ => simp [relation?] at h
  | _ => simp [relation?] at h

theorem tiesWritten_of_openTarget?_eq_none {m : Plan} (h : (m.guarded? g).isSome)
    (hopen : m.openTarget? g = none) : m.TiesWritten g := by
  obtain ⟨⟨r, part⟩, hguarded⟩ := Option.isSome_iff_exists.1 h
  have hany := openTarget?_eq_none_iff.1 hopen _ hguarded
  simp only [guarded?, Option.bind_eq_bind, Option.bind_eq_some_iff, Option.pure_def,
    Option.some.injEq, Prod.mk.injEq] at hguarded
  obtain ⟨target, htarget, r', hr, part', hpart, rfl, rfl⟩ := hguarded
  refine ⟨r', part', ?_, hpart, hany⟩
  rw [written?, htarget, Option.bind_some, namedRelation?_of_relation? hr]

/-- Guarding for a tenant ties what is guarded, and leaves a mutation as it is otherwise. -/
theorem tiesWritten_guardTarget {access : Access} {t : Tenant} (ht : access.tenant = some t)
    (hw : access.writeOnly = false) (p : Plan) :
    (p.guardTarget g access).TiesWritten g ↔ p.TiesWritten g ∨ (p.guarded? g).isSome := by
  cases hguarded : p.guarded? g with
  | none =>
    have hopen : p.openTarget? g = none := by rw [openTarget?, hguarded, Option.filter_none]
    rw [guardTarget_of_openTarget?_eq_none hopen]
    simp
  | some x =>
    have hsome : ((p.guardTarget g access).guarded? g).isSome := by
      rw [guarded?_guardTarget, hguarded, Option.isSome_some]
    have hties := tiesWritten_of_openTarget?_eq_none hsome (openTarget?_guardTarget g ht hw p)
    simp [hties]

end

/-- **Building ties the mutation at the root.** A plan that is built for a tenant writes what it
wrote. If it is a mutation of a tenant table, which may have an alias, its conditions tie the target
to a tenant. All other mutations, those below the root and those of a table in parentheses, write
what they wrote, and their conditions tie it to a tenant exactly if they did so before. -/
theorem build_ties_root (s : Session) {access : Access} {t : Tenant}
    (ht : access.tenant = some t) (hw : access.writeOnly = false) (p : Plan) :
    let g := s.partitioning
    ∃ q, (s.build access p).value = .ok q ∧ q.written? = p.written? ∧
      (q.TiesWritten g ↔ p.TiesWritten g ∨ (p.guarded? g).isSome) ∧
      List.Forall₂ (fun m m' => m'.written? = m.written? ∧
        (m'.TiesWritten g ↔ m.TiesWritten g)) p.innerMutations q.innerMutations := by
  intro g
  refine ⟨_, value_secure_eq_settle hw p, ?_, ?_, ?_⟩
  · rw [written?_settle, written?, written?, guardTarget_eq, target?_withWheres]
  · rw [tiesWritten_settle, tiesWritten_guardTarget ht hw]
  · have hinner := innerMutations_settle g g access [] (p.guardTarget g access)
    rw [innerMutations_guardTarget] at hinner
    refine hinner.imp fun m m' h => ?_
    obtain ⟨inherited, rfl⟩ := h
    exact ⟨written?_settle .., tiesWritten_settle ..⟩

/-- What is built for a deletion of orders deletes orders of the tenant. -/
theorem build_ties_deleteCancelled :
    ∃ q, (shopSession.build (.ofTenant ⟨"t1"⟩) deleteCancelled).value = .ok q ∧
      q.TiesWritten shop := by
  have htenant : (Access.ofTenant ⟨"t1"⟩).tenant = some ⟨"t1"⟩ := rfl
  obtain ⟨q, hq, -, hties, -⟩ := build_ties_root shopSession htenant rfl deleteCancelled
  exact ⟨q, hq, hties.2 (.inr rfl)⟩

/-- A mutation in the plan writes a tenant relation that its conditions do not tie to a tenant. -/
def LeavesOpen (g : Partitioning) (p : Plan) : Prop :=
  ∃ m ∈ p.mutations, ∃ r, m.written? = some r ∧ g.covers r.table = true ∧ ¬m.TiesWritten g

/-- A deletion below the root is built as it is, and so is one of a table in parentheses. Each
deletes the orders of all tenants. -/
theorem build_leaves_deletions_open :
    let inside := group (delete (table "orders") [])
    let wrapped := delete (group (table "orders")) []
    ((shopSession.build (.ofTenant ⟨"t1"⟩) inside).value = .ok inside ∧ inside.LeavesOpen shop) ∧
      (shopSession.build (.ofTenant ⟨"t1"⟩) wrapped).value = .ok wrapped ∧
      wrapped.LeavesOpen shop := by
  have hopen : ∀ target, ¬(delete target []).TiesWritten shop := by
    rintro target ⟨r, part, -, -, hany⟩
    exact Bool.false_ne_true hany
  intro inside wrapped
  refine ⟨⟨rfl, delete (table "orders") [], ?_, ⟨"orders", none⟩, rfl, by decide, hopen _⟩,
    rfl, wrapped, ?_, ⟨"orders", none⟩, rfl, by decide, hopen _⟩
  · exact List.mem_singleton_self _
  · exact List.mem_singleton_self _

end Plan

end Tenancy
