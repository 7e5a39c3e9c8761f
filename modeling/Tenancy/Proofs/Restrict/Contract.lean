import Tenancy.Proofs.Plan.Marks
import Tenancy.Proofs.Restrict.Targets

namespace Tenancy

/-!
# Contract — what restricting the target of a mutation comes to

* `Plan.Names` — the sources that refer to a table, by its own name or by an alias;
* `Plan.Reached`, `Plan.TiesAlone` — the conditions behind a `WHERE` list that hold of every row,
  and those among them that tie a relation to a tenant;
* `any_holdsKey_iff` — what the search for such a condition finds;
* `Plan.Owed`, `missingKey?_eq_some_iff` — when a condition is added, and which one;
* `restrictTarget_contract` — all that can come of restricting the target of a mutation.
-/

namespace Plan

/-! ### References to a table -/

/-- The source refers to the table as the relation `r`, by the table's name or by an alias that
stands directly on it. -/
inductive Names (name : String) : Plan → Relation → Prop
  | bare : Names name (table name) ⟨name, none⟩
  | alias (a : String) : Names name (aliased (table name) a) ⟨name, some a⟩

theorem names_iff {name : String} {source : Plan} {r : Relation} :
    Names name source r ↔ source.relation? = some r ∧ r.table = name := by
  constructor
  · rintro (_ | a) <;> exact ⟨rfl, rfl⟩
  · rintro ⟨hr, rfl⟩
    cases source with
    | table t =>
      obtain rfl := Option.some.inj hr
      exact .bare
    | aliased source a =>
      cases source with
      | table t =>
        obtain rfl := Option.some.inj hr
        exact .alias a
      | _ => simp [relation?] at hr
    | _ => simp [relation?] at hr

/-- A source that does not refer to the table is refused, with the table that it refers to or the
kind of node that it is. -/
theorem targetRelation_eq_error {source : Plan} {name : String}
    (h : ∀ r, ¬Names name source r) : targetRelation source name
      = .error (.otherTarget name ((source.relation?.map Relation.table).getD source.kind)) := by
  rw [targetRelation]
  cases hsource : source.relation? with
  | none => rfl
  | some r =>
    have hr : r.table ≠ name := fun hr => h r (names_iff.2 ⟨hsource, hr⟩)
    simp [hr]

/-! ### Conditions that tie a relation -/

/-- The conditions that are reached from a list by going into conjunctions, and into nothing
else. -/
inductive Reached (ws : List Plan) : Plan → Prop
  | listed {c : Plan} : c ∈ ws → Reached ws c
  | inside {ps : List Plan} {c : Plan} : Reached ws (and ps) → c ∈ ps → Reached ws c

/-- The condition by itself ties the relation `r` to a tenant: it is any tenant condition on `r`, or
an equality with the partition key of `r` on its left. -/
inductive TiesAlone (r : Relation) (key : Column) : Plan → Prop
  | tenant (column : String) (value : Literal) : TiesAlone r key (tenantKey (r.column column) value)
  | equality (right : Plan) : TiesAlone r key (equal (column key) right)

/-- What is reached are the conjuncts, and the conjunctions on the way to them. -/
theorem Reached.of_mem_conjuncts {ws : List Plan} {p c : Plan} (hp : Reached ws p)
    (hc : c ∈ p.conjuncts) : Reached ws c := by
  induction p using inductionOnParts with
  | step p ih =>
    cases p with
    | and ps =>
      rw [throughAnd_conjuncts.apply_and, List.mem_flatMap] at hc
      obtain ⟨q, hq, hc⟩ := hc
      exact ih (.inherit, q) (by simpa [parts] using hq) (hp.inside hq) hc
    | _ =>
      obtain rfl := List.mem_singleton.1 hc
      exact hp

theorem Reached.conjuncts_subset {ws : List Plan} {p : Plan} (hp : Reached ws p) :
    p.conjuncts ⊆ ws.flatMap conjuncts := by
  induction hp with
  | listed hc => exact fun c h => List.mem_flatMap.2 ⟨_, hc, h⟩
  | @inside ps c _ hc ih =>
    refine List.Subset.trans (fun x hx => ?_) ih
    rw [throughAnd_conjuncts.apply_and]
    exact List.mem_flatMap.2 ⟨c, hc, hx⟩

theorem tiesKey_iff {r : Relation} {part : Partition} {c : Plan} :
    tiesKey r part c = true ↔ TiesAlone r (r.column part.column) c := by
  constructor
  · intro h
    cases c with
    | tenantKey k v =>
      obtain rfl : k.relation = r := of_decide_eq_true h
      exact .tenant k.name v
    | equal left right =>
      cases left with
      | column k =>
        obtain rfl : k = r.column part.column := of_decide_eq_true h
        exact .equality right
      | _ => exact absurd h Bool.false_ne_true
    | _ => exact absurd h Bool.false_ne_true
  · rintro (⟨n, v⟩ | right) <;> simp [tiesKey, Relation.column]

/-- No conjunction ties a relation by itself. -/
theorem TiesAlone.conjuncts_eq {r : Relation} {key : Column} {c : Plan} (h : TiesAlone r key c) :
    c.conjuncts = [c] := by
  cases h <;> rfl

/-- The search finds a condition exactly if one is reached that ties the relation. -/
theorem any_holdsKey_iff {ws : List Plan} {r : Relation} {part : Partition} :
    ws.any (holdsKey r part) = true ↔ ∃ c, Reached ws c ∧ TiesAlone r (r.column part.column) c := by
  simp only [holdsKey_eq, List.any_eq_true, tiesKey_iff]
  constructor
  · rintro ⟨w, hw, c, hc, hties⟩
    exact ⟨c, (Reached.listed hw).of_mem_conjuncts hc, hties⟩
  · rintro ⟨c, hreached, hties⟩
    have hc : c ∈ ws.flatMap conjuncts :=
      hreached.conjuncts_subset (hties.conjuncts_eq ▸ List.mem_singleton_self c)
    obtain ⟨w, hw, hc⟩ := List.mem_flatMap.1 hc
    exact ⟨w, hw, c, hc, hties⟩

/-! ### When a condition is owed -/

/-- A condition is owed for the relation `r` that a mutation with the `WHERE` list `ws` writes to:
it has the partition `part`, the access is that of the tenant `t` and not write-only, and no
condition that is reached ties `r`. -/
structure Owed (g : Partitioning) (access : Access) (r : Relation) (ws : List Plan)
    (part : Partition) (t : Tenant) : Prop where
  restricted : access.writeOnly = false
  partition : g.of? r.table = some part
  tenant : access.tenant = some t
  untied : ∀ c, Reached ws c → ¬TiesAlone r (r.column part.column) c

section

variable {g : Partitioning} {access : Access} {p target : Plan} {r : Relation}

theorem openTarget?_eq_some_iff (htarget : p.target? = some target)
    (hr : target.relation? = some r) {x : Relation × Partition} :
    p.openTarget? g = some x ↔ x.1 = r ∧ g.of? r.table = some x.2 ∧
      ∀ c, Reached p.mutationWheres c → ¬TiesAlone r (r.column x.2.column) c := by
  have hguarded : p.guarded? g = some x ↔ x.1 = r ∧ g.of? r.table = some x.2 := by
    obtain ⟨s, part⟩ := x
    cases hpart : g.of? r.table <;> simp [guarded?, htarget, hr, hpart, eq_comm]
  rw [openTarget?, Option.filter_eq_some_iff, hguarded, Bool.not_eq_true', and_assoc,
    ← Bool.not_eq_true, any_holdsKey_iff]
  constructor
  · rintro ⟨rfl, hpart, hopen⟩
    exact ⟨rfl, hpart, fun c hc hties => hopen ⟨c, hc, hties⟩⟩
  · rintro ⟨rfl, hpart, hopen⟩
    refine ⟨rfl, hpart, ?_⟩
    rintro ⟨c, hc, hties⟩
    exact hopen c hc hties

/-- The condition that is missing is the one that is owed. -/
theorem missingKey?_eq_some_iff (htarget : p.target? = some target)
    (hr : target.relation? = some r) {c : Plan} : p.missingKey? g access = some c ↔
      ∃ part t, Owed g access r p.mutationWheres part t ∧ c = part.keyCondition r t := by
  constructor
  · intro h
    cases hw : access.writeOnly <;> cases hopen : p.openTarget? g <;> cases ht : access.tenant <;>
      simp only [missingKey?, hw, hopen, ht, if_true, if_false, reduceCtorEq, Bool.false_eq_true,
        Option.bind_eq_bind, Option.bind_none, Option.bind_some, Option.pure_def] at h
    next x t =>
    obtain ⟨rfl, hpart, huntied⟩ := (openTarget?_eq_some_iff htarget hr).1 hopen
    exact ⟨x.2, t, ⟨hw, hpart, ht, huntied⟩, (Option.some.inj h).symm⟩
  · rintro ⟨part, t, howed, rfl⟩
    have hopen : p.openTarget? g = some (r, part) :=
      (openTarget?_eq_some_iff htarget hr).2 ⟨rfl, howed.partition, howed.untied⟩
    simp [missingKey?, howed.restricted, hopen, howed.tenant]

end

/-! ### The outcomes -/

section

variable (g : Partitioning) (access : Access) (name : String)

/-- A plan that is no mutation is refused, a mutation of anything but the table is refused, and any
other mutation is guarded. -/
theorem restrictTarget_cases (p : Plan) :
    p.target? = none ∧
        (p.restrictTarget g access name).value = .error (.notMutation p.kind) ∨
      (∃ target, p.target? = some target ∧ (∀ r, ¬Names name target r) ∧
        (p.restrictTarget g access name).value
          = .error (.otherTarget name
              ((target.relation?.map Relation.table).getD target.kind))) ∨
      ∃ target r, p.target? = some target ∧ Names name target r ∧
        (p.restrictTarget g access name).value = .ok (p.guardTarget g access) := by
  cases htarget : p.target? with
  | none =>
    refine .inl ⟨rfl, ?_⟩
    cases p <;> first | rfl | simp [target?] at htarget
  | some target =>
    by_cases hnames : ∃ r, Names name target r
    · obtain ⟨r, hnames⟩ := hnames
      obtain ⟨hr, rfl⟩ := names_iff.1 hnames
      exact .inr (.inr ⟨target, r, rfl, hnames, value_restrictTarget g access htarget hr⟩)
    · have hother : ∀ r, ¬Names name target r := not_exists.1 hnames
      refine .inr (.inl ⟨target, rfl, hother, ?_⟩)
      have hrefused := targetRelation_eq_error hother
      cases p with
      | update | delete =>
        obtain rfl := Option.some.inj htarget
        simp [restrictTarget, hrefused]
      | _ => simp [target?] at htarget

theorem restrictTarget_eq_notMutation_iff {p : Plan} {kind : String} :
    (p.restrictTarget g access name).value = .error (.notMutation kind) ↔
      p.target? = none ∧ kind = p.kind := by
  rcases restrictTarget_cases g access name p with
    ⟨htarget, hrun⟩ | ⟨target, htarget, -, hrun⟩ | ⟨target, r, htarget, -, hrun⟩ <;>
    simp [htarget, hrun, eq_comm]

theorem restrictTarget_eq_otherTarget_iff {p : Plan} {expected found : String} :
    (p.restrictTarget g access name).value = .error (.otherTarget expected found) ↔
      ∃ target, p.target? = some target ∧ (∀ r, ¬Names name target r) ∧ expected = name ∧
        found = (target.relation?.map Relation.table).getD target.kind := by
  rcases restrictTarget_cases g access name p with
    ⟨htarget, hrun⟩ | ⟨target, htarget, hother, hrun⟩ | ⟨target, r, htarget, hnames, hrun⟩ <;>
    simp only [htarget, hrun, Option.some.injEq, exists_eq_left', reduceCtorEq, Except.error.injEq,
      ScopeError.otherTarget.injEq, false_and, exists_false, false_iff]
  · simp [hother, eq_comm]
  · exact fun h => h.1 r hnames

end

/-- A mutation of the table is guarded, with the condition that is owed. -/
theorem restrictTarget_of_names {g : Partitioning} {access : Access} {name : String}
    {p target : Plan} {r : Relation} (htarget : p.target? = some target)
    (hnames : Names name target r) :
    (∀ part t, Owed g access r p.mutationWheres part t →
      (p.restrictTarget g access name).value
        = .ok (p.withWheres (p.mutationWheres ++ [part.keyCondition r t]))) ∧
    ((∀ part t, ¬Owed g access r p.mutationWheres part t) →
      (p.restrictTarget g access name).value = .ok p) := by
  obtain ⟨hr, rfl⟩ := names_iff.1 hnames
  rw [value_restrictTarget g access htarget hr]
  constructor
  · intro part t howed
    have hmissing : p.missingKey? g access = some (part.keyCondition r t) :=
      (missingKey?_eq_some_iff htarget hr).2 ⟨part, t, howed, rfl⟩
    rw [guardTarget_eq, hmissing, Option.toList_some]
  · intro howed
    have hmissing : p.missingKey? g access = none := by
      refine Option.eq_none_iff_forall_ne_some.2 fun c hc => ?_
      obtain ⟨part, t, h, -⟩ := (missingKey?_eq_some_iff htarget hr).1 hc
      exact howed part t h
    rw [guardTarget_of_missingKey?_eq_none hmissing]

/-- What has been restricted to a tenant is left as it is, whatever the access is. -/
theorem restrictTarget_restrictTarget {g : Partitioning} {access : Access} {name : String}
    {p q : Plan} {t : Tenant} (ht : access.tenant = some t) (hw : access.writeOnly = false)
    (hq : (p.restrictTarget g access name).value = .ok q) (access' : Access) :
    (q.restrictTarget g access' name).value = .ok q := by
  rcases restrictTarget_cases g access name p with
    ⟨-, hrun⟩ | ⟨target, -, -, hrun⟩ | ⟨target, r, htarget, hnames, hrun⟩ <;> rw [hrun] at hq
  · simp at hq
  · simp at hq
  · obtain rfl := Except.ok.inj hq
    obtain ⟨hr, rfl⟩ := names_iff.1 hnames
    have htarget' : (p.guardTarget g access).target? = some target := by
      rw [guardTarget_eq, target?_withWheres, htarget]
    rw [value_restrictTarget g access' htarget' hr,
      guardTarget_of_openTarget?_eq_none (openTarget?_guardTarget g ht hw p) access']

/-- **What restricting the target of a mutation comes to.** Whatever the access is, a plan that is
no mutation is refused for its kind, and a mutation exactly if its target does not refer to the
table. Any other mutation keeps its target, its assignments and its conditions. The tenant condition
for its target stands behind them if it is owed, and nothing else is added. What has been restricted
to a tenant is left as it is by every further access. -/
theorem restrictTarget_contract (g : Partitioning) (access : Access) (name : String) (p : Plan) :
    let run := (p.restrictTarget g access name).value
    (∀ kind, run = .error (.notMutation kind) ↔ p.target? = none ∧ kind = p.kind) ∧
    (∀ expected found, run = .error (.otherTarget expected found) ↔
      ∃ target, p.target? = some target ∧ (∀ r, ¬Names name target r) ∧ expected = name ∧
        found = (target.relation?.map Relation.table).getD target.kind) ∧
    (∀ target r, p.target? = some target → Names name target r →
      (∀ part t, Owed g access r p.mutationWheres part t →
        run = .ok (p.withWheres (p.mutationWheres ++ [part.keyCondition r t]))) ∧
      ((∀ part t, ¬Owed g access r p.mutationWheres part t) → run = .ok p)) ∧
    ∀ t q, access.tenant = some t → access.writeOnly = false → run = .ok q →
      ∀ access', (q.restrictTarget g access' name).value = .ok q := by
  intro run
  refine ⟨fun _ => ?_, fun _ _ => ?_, fun _ _ => ?_, fun _ _ => ?_⟩
  · exact restrictTarget_eq_notMutation_iff g access name
  · exact restrictTarget_eq_otherTarget_iff g access name
  · exact restrictTarget_of_names
  · exact restrictTarget_restrictTarget

/-- An update of orders under the alias `o`, whose conditions only seem to tie them to a tenant: one
under a negation, one as an alternative, one for orders without the alias, and one with the
partition key on its right. -/
def closeOrders : Plan :=
  let key : Column := ⟨⟨"orders", some "o"⟩, "tenant_id"⟩
  let t2 := literal (.text "t2")
  update (aliased (table "orders") "o") [("state", literal (.text "closed"))] [
    not (equal (column key) t2),
    and [and [or (equal (column key) t2) (equal (column key) t2)],
      tenantKey ⟨⟨"orders", none⟩, "tenant_id"⟩ (.text "t2")],
    equal t2 (column key)]

/-- The condition is owed, and one update with it is left alone by every access. -/
theorem restrictTarget_contract_closeOrders :
    let part : Partition := ⟨"orders", "tenant_id", .text⟩
    let q := closeOrders.withWheres (closeOrders.mutationWheres
      ++ [part.keyCondition ⟨"orders", some "o"⟩ ⟨"t1"⟩])
    (closeOrders.restrictTarget shop (.ofTenant ⟨"t1"⟩) "orders").value = .ok q ∧
      ∀ access, (q.restrictTarget shop access "orders").value = .ok q := by
  intro part q
  have howed : Owed shop (.ofTenant ⟨"t1"⟩) ⟨"orders", some "o"⟩ closeOrders.mutationWheres part
      ⟨"t1"⟩ := by
    refine ⟨rfl, rfl, rfl, fun c hc hties => ?_⟩
    have hany := any_holdsKey_iff.2 ⟨c, hc, hties⟩
    exact absurd hany (by decide)
  obtain ⟨-, -, hmutation, hagain⟩ :=
    restrictTarget_contract shop (.ofTenant ⟨"t1"⟩) "orders" closeOrders
  have hq := (hmutation _ _ rfl (.alias "o")).1 part ⟨"t1"⟩ howed
  exact ⟨hq, hagain ⟨"t1"⟩ q rfl rfl hq⟩

end Plan

end Tenancy
