import Tenancy.Proofs.Plan.Marks
import Tenancy.Proofs.Restrict.Leaves
import Tenancy.Proofs.Restrict.Passes
import Tenancy.Proofs.Restrict.ScopeNodes

namespace Tenancy

/-!
# Placement — where the tenant conditions of a restricted plan stand

* `Plan.surface` — a plan as the scope around it sees it, which is all that the scope needs in order
  to say that nothing else has changed;
* `Plan.InFront`, `Plan.Placed` — conditions in front of a `WHERE` list, and in a scope node;
* `placed_scopeNodes` — each scope node of a restricted plan has the conditions of its scope in
  place;
* `perm_tenantKeys_impose` — a restricted plan has no other tenant conditions but its own;
* `Plan.owedKeys` — what the survey of a plan asks for in one scope;
* `restrictWith_places_owed_keys` — all of this of a plan restricted by its survey.
-/

namespace Plan

/-! ### Surfaces -/

/-- Is the node a link between two partition keys? -/
def isLink : Plan → Bool
  | keyLink .. => true
  | _ => false

/-- A node as the scope around it sees it once its parts are seen so: what owns a scope of its own
is hidden, and links in the `ON` of an inner join are left out. -/
def surfaceNode : Plan → Plan
  | select _ => select {}
  | join kind l r on =>
    if kind.isOuter then join kind (tuple []) (tuple []) none
    else join kind l r (some (and (conjunctsBut isLink on.toList)))
  | p => p

/-- The plan as the scope around it sees it. -/
def surface : Plan → Plan := rewriteUp surfaceNode

theorem surface_join (kind : JoinKind) (l r : Plan) (on : Option Plan) :
    (join kind l r on).surface = if kind.isOuter then join kind (tuple []) (tuple []) none
      else join kind l.surface r.surface
        (some (and (conjunctsBut isLink (on.toList.map surface)))) := by
  have hnode := rewriteUp_eq surfaceNode (join kind l r on)
  rw [mapParts, surfaceNode, Option.toList_map] at hnode
  exact hnode

theorem missesLinks_surface : MissesLinks surfaceNode := by
  intro kind l r on key other
  have hon : conjunctsBut isLink ((addCondition on (keyLink key other)).toList.map surface)
      = conjunctsBut isLink (on.toList.map surface) :=
    (adds_addCondition on (keyLink key other)).conjunctsBut_map_rewriteUp (fun _ => rfl) fun c hc =>
      by rw [List.mem_singleton.1 hc]; rfl
  show (join ..).surface = (join ..).surface
  rw [surface_join, surface_join, hon]

theorem surface_enforce (e : Restriction) (n : Nat) (p : Plan) :
    (p.enforce e n).surface = p.surface := by
  cases p with
  | select q => rfl
  | join kind l r on =>
    cases ho : kind.isOuter with
    | true => simp only [enforce, ho, if_true, surface_join]
    | false => simp only [enforce, ho, Bool.false_eq_true, if_false]
  | _ => rfl

/-- What is imposed inside the scopes of a plan is not seen from outside. -/
theorem surface_impose (e : Restriction) (n : Nat) (p : Plan) :
    (p.impose e n).value.surface = p.surface :=
  rewriteUp_impose (surface_enforce e) n p

/-! ### Places of conditions -/

/-- The list `ws'` is the list `ws` with conditions in front. -/
inductive InFront : (conditions ws ws' : List Plan) → Prop
  /-- There is no condition. -/
  | none (ws : List Plan) : InFront [] ws ws
  /-- In front of an empty list a single condition stands bare. -/
  | bare (c : Plan) : InFront [c] [] [c]
  /-- In front of an empty list several conditions are one conjunction. -/
  | alone (c d : Plan) (cs : List Plan) : InFront (c :: d :: cs) [] [and (c :: d :: cs)]
  /-- The conditions are in one conjunction with the first of the list. -/
  | before (c : Plan) (cs : List Plan) (w : Plan) (ws : List Plan) :
    InFront (c :: cs) (w :: ws) (and (c :: cs ++ w.topConjuncts) :: ws)

theorem inFront_addWheres (cs ws : List Plan) : InFront cs ws (addWheres cs ws) := by
  match cs, ws with
  | [], ws => exact (addWheres_nil ws).symm ▸ .none ws
  | [c], [] => exact .bare c
  | c :: d :: cs, [] => exact .alone c d cs
  | c :: cs, w :: ws =>
    rw [addWheres_cons_cons]
    exact .before c cs w ws

/-- The scope node `m'` is the scope node `m` with conditions placed in it, as its own scope sees
it. -/
inductive Placed (conditions : List Plan) : (m m' : Plan) → Prop
  /-- In a `SELECT` they stand in front of the `WHERE` list. -/
  | select {q q' : Query Plan} {ws : List Plan} :
    { q' with wheres := ws }.map surface = q.map surface → InFront conditions ws q'.wheres →
    Placed conditions (select q) (select q')
  /-- In an outer join they stand behind what the `ON` has, with links behind them. -/
  | join {kind : JoinKind} {l l' r r' : Plan} {on₀ on on' : Option Plan}
    {links : List (Column × Column)} :
    l'.surface = l.surface → r'.surface = r.surface → on₀.map surface = on.map surface →
    on'.toList.flatMap conjuncts = on₀.toList.flatMap conjuncts ++ conditions
      ++ links.map (fun k => keyLink k.1 k.2) →
    Placed conditions (join kind l r on) (join kind l' r' on')

theorem value_imposeAll_map_surface (e : Restriction) (n : Nat) (ps : List Plan) :
    (imposeAll e n ps).value.map surface = ps.map surface := by
  induction ps generalizing n with
  | nil => rfl
  | cons p ps ih => simp [imposeAll, ih, surface_impose]

theorem value_imposeOption_map_surface (e : Restriction) (n : Nat) (p : Option Plan) :
    (imposeOption e n p).value.map surface = p.map surface := by
  cases p <;> simp [imposeOption, surface_impose]

theorem flatMap_conjuncts_keyConditions (e : Restriction) (n : Nat) :
    (e.keyConditions n).flatMap conjuncts = e.keyConditions n := by
  have hself : ∀ c ∈ e.keyConditions n, c.conjuncts = [c] := by
    intro c hc
    obtain ⟨_, _, rfl⟩ := eq_tenantKey_of_mem_keyConditions hc
    rfl
  rw [List.flatMap_congr hself, List.flatMap_singleton']

/-- Imposing on a scope node places its conditions. -/
theorem placed_impose (e : Restriction) (n : Nat) {p : Plan} (ho : p.owner?.isSome) :
    Placed (e.keyConditions n) p (p.impose e n).value := by
  have hlink : ∀ p, (linkAll e.partitioning (e.linkKeys n) p).value.surface = p.surface :=
    missesLinks_surface.rewriteUp_linkAll _ _
  rw [value_impose]
  cases p with
  | select q =>
    refine .select ?_ (inFront_addWheres _ _)
    simp [Query.map, Function.comp_def, hlink, value_imposeAll_map_surface,
      value_imposeOption_map_surface]
  | join kind l r on =>
    rw [isSome_owner?_join] at ho
    simp only [imposeBelow, enforce, ho, if_true]
    set on₀ := (imposeOption e (n + 1 + l.owners.length + r.owners.length) on).value with hon₀
    -- No link has been added yet.
    have hon : (addOn (e.keyConditions n) on₀).toList.flatMap conjuncts
        = on₀.toList.flatMap conjuncts ++ e.keyConditions n
          ++ ([] : List (Column × Column)).map fun k => keyLink k.1 k.2 := by
      rw [throughAnd_conjuncts.flatMap_addOn, flatMap_conjuncts_keyConditions, List.map_nil,
        List.append_nil]
    refine .join ?_ ?_ (value_imposeOption_map_surface e _ on) hon
    · rw [hlink, surface_impose]
    · rw [hlink, surface_impose]
  | _ => simp [owner?] at ho

/-- Links leave the conditions in their places. -/
theorem Placed.link {cs : List Plan} {m m' : Plan} (h : Placed cs m m') (g : Partitioning)
    (key : Column) : Placed cs m (m'.link g key).value := by
  cases h with
  | select hsame hwheres => exact .select hsame hwheres
  | @join kind l l' r r' on₀ on on' links hl hr hon₀ hon =>
    have hlink : ∀ p : Plan, (p.link g key).value.surface = p.surface :=
      missesLinks_surface.rewriteUp_link g key
    rw [value_link_join]
    set missing := missingLink? g key (l'.link g key).value (r'.link g key).value on' with hmissing
    have hlinked : (linkedOn g key (l'.link g key).value (r'.link g key).value on').toList.flatMap
          conjuncts
        = on₀.toList.flatMap conjuncts ++ cs
          ++ (links ++ missing.toList.map fun other => (key, other)).map
            fun k => keyLink k.1 k.2 := by
      rw [linkedOn, ← hmissing]
      cases missing with
      | none => simpa using hon
      | some other =>
        simp [throughAnd_conjuncts.flatMap_addCondition, hon, conjuncts]
    exact .join ((hlink l').trans hl) ((hlink r').trans hr) hon₀ hlinked

/-- Every scope node of a restricted plan is that of the plan, with its conditions placed in it. -/
theorem placed_scopeNodes (e : Restriction) {p m m' : Plan} {n : Nat}
    (hm : p.scopeNodes[n]? = some m) (hm' : (p.impose e 0).value.scopeNodes[n]? = some m') :
    Placed (e.keyConditions n) m m' := by
  have ho : m.owner?.isSome := (List.mem_filter.1 (List.mem_of_getElem? hm)).2
  exact (comesFrom_scopeNodes hm hm').induction ho (placed_impose e n ho) fun q key _ hq =>
    hq.link _ key

/-! ### Tenant conditions, wherever they stand -/

/-- Is the node a tenant condition? -/
def isTenantKey : Plan → Bool
  | tenantKey .. => true
  | _ => false

/-- The tenant conditions in a plan, wherever they stand, as they are read. -/
def tenantKeys : Plan → List Plan := picked isTenantKey

theorem picksLeaves_isTenantKey : PicksLeaves isTenantKey where
  isLeaf p h := by cases p <;> first | rfl | simp [isTenantKey] at h
  keyLink _ _ := rfl

theorem isTenantKey_keyConditions (e : Restriction) (n : Nat) :
    ∀ c ∈ e.keyConditions n, c.isTenantKey = true := by
  intro c hc
  obtain ⟨_, _, rfl⟩ := eq_tenantKey_of_mem_keyConditions hc
  rfl

/-- The tenant conditions of a restricted plan are those of the plan and those of its scopes. -/
theorem perm_tenantKeys_impose (e : Restriction) (n : Nat) (p : Plan) :
    (p.impose e n).value.tenantKeys.Perm
      ((List.range' n p.owners.length).flatMap e.keyConditions ++ p.tenantKeys) := by
  have hself : (fun n => (e.keyConditions n).filter isTenantKey) = e.keyConditions :=
    funext fun n => List.filter_eq_self.2 (isTenantKey_keyConditions e n)
  have hperm := picksLeaves_isTenantKey.perm_picked_impose e n p
  rwa [hself] at hperm

/-! ### What scopes ask for -/

/-- No list repeats an element once its repetitions are erased. -/
theorem nodup_eraseDups {α : Type} [BEq α] [LawfulBEq α] (xs : List α) : xs.eraseDups.Nodup := by
  induction h : xs.length using Nat.strongRecOn generalizing xs with
  | ind n ih =>
    cases xs with
    | nil => simp
    | cons x xs =>
      subst h
      rw [List.eraseDups_cons, List.nodup_cons]
      refine ⟨by simp, ih _ ?_ _ rfl⟩
      exact Nat.lt_succ_of_le (List.length_filter_le _ _)

theorem nodup_outstandingAt (g : Partitioning) (p : Plan) (n : Nat) :
    (Scope.outstandingAt (p.scopes g) n).Nodup := by
  unfold Scope.outstandingAt
  cases hs : (p.scopes g)[n]? with
  | none => exact List.nodup_nil
  | some s =>
    obtain ⟨m, _, hrecords⟩ := exists_records hs
    have hseen : s.seen.Nodup := by
      rw [hrecords.seen]
      exact nodup_eraseDups _
    exact (hseen.filter _).filter _

/-- A relation that is outstanding is tied to a tenant by no scope that reaches it. -/
theorem not_mem_pinned_of_outstanding {g : Partitioning} {p : Plan} {m n : Nat} {r : Relation}
    {s : Scope} (hr : r ∈ Scope.outstandingAt (p.scopes g) n)
    (hreaches : Scope.Reaches (p.scopes g) m n) (hs : (p.scopes g)[m]? = some s) :
    r ∉ s.pinned := by
  intro hpinned
  cases hn : (p.scopes g)[n]? with
  | none => simp [Scope.outstandingAt, hn] at hr
  | some s' => exact ((mem_outstandingAt hn r).1 hr).2 ⟨m, s, hreaches, hs, hpinned⟩

/-- The tenant conditions that scope `n` of a plan is owed: one for each relation that the survey
leaves outstanding, in this order, unless its table is no tenant table any more. Without a tenant
there are none. -/
def owedKeys (surveyed known : Partitioning) (tenant : Option Tenant) (p : Plan) (n : Nat) :
    List Plan :=
  (Scope.outstandingAt (p.scopes surveyed) n).filterMap fun r => do
    let part ← known.of? r.table
    let t ← tenant
    return tenantKey (r.column part.column) (part.keyValue t)

/-- **Tenant conditions stand exactly where a survey asks for them.** Scopes surveyed by one
partitioning are imposed on their plan by another one. From outside its scopes the plan looks as
before. Each scope node of the result is that of the plan with the tenant conditions placed in it
that its scope is owed, and looks as before otherwise. There are no tenant conditions in the result
but these and those of the plan. No scope is owed two conditions for one relation, or one for a
relation that is tied to a tenant already; without a tenant no scope is owed any, and `WHERE` lists
look as before. -/
theorem restrictWith_places_owed_keys (surveyed known : Partitioning) (tenant : Option Tenant)
    (p : Plan) :
    ∃ q, (p.restrictWith known (p.scopes surveyed) ⟨tenant, false⟩).value = .ok q ∧
      q.surface = p.surface ∧
      q.scopeNodes.length = p.scopeNodes.length ∧
      (∀ (n : Nat) (m m' : Plan), p.scopeNodes[n]? = some m → q.scopeNodes[n]? = some m' →
        Placed (owedKeys surveyed known tenant p n) m m') ∧
      q.tenantKeys.Perm ((List.range p.scopeNodes.length).flatMap
        (owedKeys surveyed known tenant p) ++ p.tenantKeys) ∧
      (∀ n, (Scope.outstandingAt (p.scopes surveyed) n).Nodup) ∧
      (∀ (m n : Nat) (r : Relation) (s : Scope), r ∈ Scope.outstandingAt (p.scopes surveyed) n →
        Scope.Reaches (p.scopes surveyed) m n → (p.scopes surveyed)[m]? = some s →
        r ∉ s.pinned) ∧
      (tenant = none → (∀ n, owedKeys surveyed known tenant p n = []) ∧
        ∀ (n : Nat) (s s' : Query Plan), p.scopeNodes[n]? = some (select s) →
          q.scopeNodes[n]? = some (select s') → s'.wheres.map surface = s.wheres.map surface) := by
  set e : Restriction := ⟨known, ⟨tenant, false⟩, Scope.outstandingAt (p.scopes surveyed)⟩ with he
  have hok : (p.restrictWith known (p.scopes surveyed) ⟨tenant, false⟩).value
      = .ok (p.impose e 0).value :=
    value_restrictWith_of_eq known rfl (map_owner_scopes surveyed p)
  have howed : e.keyConditions = owedKeys surveyed known tenant p := rfl
  have hplaced : ∀ (n : Nat) (m m' : Plan), p.scopeNodes[n]? = some m →
      (p.impose e 0).value.scopeNodes[n]? = some m' →
      Placed (owedKeys surveyed known tenant p n) m m' :=
    fun n m m' hm hm' => placed_scopeNodes e hm hm'
  refine ⟨_, hok, surface_impose e 0 p, ?_, hplaced, ?_, nodup_outstandingAt surveyed p,
    fun m n r s => not_mem_pinned_of_outstanding, fun hnone => ?_⟩
  · rw [length_scopeNodes, length_scopeNodes, owners_impose]
  · rw [length_scopeNodes, List.range_eq_range', ← howed]
    exact perm_tenantKeys_impose e 0 p
  · have hnothing : ∀ n, owedKeys surveyed known tenant p n = [] := fun n => by
      simp [owedKeys, hnone]
    refine ⟨hnothing, fun n s s' hs hs' => ?_⟩
    -- Where nothing is placed the list is the same.
    have hsame := hplaced n _ _ hs hs'
    rw [hnothing] at hsame
    cases hsame with
    | select hclauses hwheres =>
      cases hwheres with
      | none ws => exact congrArg Query.wheres hclauses

/-- The shop once its items are no tenant table any more and its orders have another key. -/
def rekeyedShop : Partitioning := (Catalog.mk [⟨"orders", "org_id", .text⟩]).partitioning

/-- Orders, each with its items if it has any, that meet a condition. -/
def ordersAsked : Plan :=
  select { source := some (join .left (table "orders") (table "items") none), wheres := [param 0] }

/-- The conditions of the join are those of the orders alone, with their new key. -/
theorem restrictWith_places_orders_key :
    ∃ q, (ordersAsked.restrictWith rekeyedShop (ordersAsked.scopes shop) ⟨some ⟨"t1"⟩, false⟩).value
        = .ok q ∧
      (∀ m, q.scopeNodes[1]? = some m →
        Placed [tenantKey ⟨⟨"orders", none⟩, "org_id"⟩ (.text "t1")]
          (join .left (table "orders") (table "items") none) m) ∧
      q.tenantKeys.Perm [tenantKey ⟨⟨"orders", none⟩, "org_id"⟩ (.text "t1")] := by
  obtain ⟨q, hq, _, _, hplaced, hperm, _⟩ :=
    restrictWith_places_owed_keys shop rekeyedShop (some ⟨"t1"⟩) ordersAsked
  exact ⟨q, hq, fun m hm => hplaced 1 _ m rfl hm, hperm⟩

end Plan
end Tenancy
