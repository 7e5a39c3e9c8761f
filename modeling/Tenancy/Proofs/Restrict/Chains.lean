import Tenancy.Proofs.Restrict.Stability
import Tenancy.Proofs.Restrict.Trees

namespace Tenancy

/-!
# Chains — a tenant that is known late reaches every relation

A plan that is restricted without a tenant gets links alone. A link counts as a condition, so when
the plan is restricted to a tenant later, what is linked is passed over. It reaches the tenant
through the chain of its links.

* `Plan.ownConditions` — where the conditions of a scope go;
* `Grounded` — following links from a relation ends at one that is tied, whichever are followed;
* `Plan.TiedWithin` — a relation is tied in the scope that reads it;
* `exists_ties` — what the first restriction has settled is linked in the source of its `SELECT`;
* `late_tenant_grounds_all` — after the second one every relation is grounded.

Links lead from right to left in a tree of joins, so chains end.
-/

/-- Following `links` from the relation one comes to a tied relation after finitely many steps,
whichever links one follows. -/
inductive Grounded (links : Relation → Relation → Prop) (tied : Relation → Prop) :
    Relation → Prop
  /-- The relation is tied itself. -/
  | tied {r : Relation} : tied r → Grounded links tied r
  /-- The relation is linked, and to grounded relations only. -/
  | linked {r : Relation} : (∃ a, links r a) → (∀ a, links r a → Grounded links tied a) →
    Grounded links tied r

namespace Plan

/-! ### The conditions of a scope -/

/-- The conjuncts of the `WHERE` of a `SELECT`, and of the `ON` of a join. -/
def ownConditions : Plan → List Plan
  | select q => q.wheres.flatMap conjuncts
  | join _ _ _ on => on.toList.flatMap conjuncts
  | _ => []

/-- A scope node of a restricted plan has the conditions of its scope among its own. -/
theorem keyConditions_subset_ownConditions (e : Restriction) (n : Nat) (p : Plan) :
    Numbered (fun n p => e.keyConditions n ⊆ p.ownConditions) n
      (p.impose e n).value.scopeNodes := by
  refine numbered_impose (fun n p key _ h => ?_) (fun n p ho c hc => ?_) n p
  · cases p with
    | join kind l r on =>
      rw [value_link_join]
      exact fun c hc =>
        ((adds_linkedOn _ key _ _ on).mem_flatMap throughAnd_conjuncts c).2 (.inl (h hc))
    | _ => exact h
  · rw [← flatMap_conjuncts_keyConditions] at hc
    cases p with
    | select q => exact ((adds_addWheres _ q.wheres).mem_flatMap throughAnd_conjuncts c).2 (.inr hc)
    | join kind l r on =>
      rw [isSome_owner?_join] at ho
      rw [enforce, if_pos ho]
      exact ((adds_addOn _ on).mem_flatMap throughAnd_conjuncts c).2 (.inr hc)
    | _ => simp [owner?] at ho

/-! ### Restricting twice -/

/-- The plan restricted without a tenant. -/
def linkedOnly (g : Partitioning) (p : Plan) : Plan := (p.impose (due g ⟨none, false⟩ p) 0).value

/-- The plan restricted without a tenant and then to a tenant. -/
def boundLate (g : Partitioning) (t : Tenant) (p : Plan) : Plan :=
  ((p.linkedOnly g).impose (due g (.ofTenant t) (p.linkedOnly g)) 0).value

variable {g : Partitioning} {p : Plan}

/-- Without a tenant no tenant condition is added. -/
theorem keyConditions_due_none (n : Nat) : (due g ⟨none, false⟩ p).keyConditions n = [] := by
  simp [Restriction.keyConditions, due]

theorem grows_linkedOnly (g : Partitioning) (p : Plan) : p.Grows g (p.linkedOnly g) :=
  grows_impose (due g ⟨none, false⟩ p) 0 p

/-- What is outstanding in a plan, and no more once the plan has been restricted without a tenant,
is linked in the source of the `SELECT` that reaches it. -/
theorem exists_ties (hjoins : p.JoinsInSources false) {k n : Nat} {r : Relation}
    {query₁ : Query Plan} (hr : r ∈ Scope.outstandingAt (p.scopes g) n)
    (hsettled : r ∉ Scope.outstandingAt ((p.linkedOnly g).scopes g) n)
    (hreaches : Scope.Reaches (p.scopes g) k n)
    (hquery₁ : (p.linkedOnly g).scopeNodes[k]? = some (select query₁)) :
    ∃ a, Ties (select query₁).sourceOns r a := by
  have hgrows := grows_linkedOnly g p
  obtain ⟨s, hs, hseen⟩ := mem_seen_of_mem_outstandingAt hr
  obtain ⟨s₁, hs₁, hgrown⟩ := exists_getElem?_of_forall₂ hgrows.scopes hs
  -- A scope that reaches this one ties the relation now.
  have hpinned : ∃ i u, Scope.Reaches ((p.linkedOnly g).scopes g) i n ∧
      ((p.linkedOnly g).scopes g)[i]? = some u ∧ r ∈ u.pinned := by
    by_contra hnot
    exact hsettled ((mem_outstandingAt hs₁ r).2 ⟨hgrown.seen ▸ hseen, hnot⟩)
  obtain ⟨i, u₁, hi, hu₁, hpinned⟩ := hpinned
  obtain ⟨m₁, hm₁, hrecords₁⟩ := exists_records hu₁
  rw [hrecords₁.pinned, List.mem_eraseDups] at hpinned
  -- It has not tied it before, so it is a link that does.
  obtain ⟨u, hu, -⟩ := exists_getElem?_of_forall₂ hgrows.scopes.flip hu₁
  obtain ⟨m, hm, hrecords⟩ := exists_records hu
  have hbefore : r ∉ (m.interior g).pinned := by
    have hnot := not_mem_pinned_of_outstanding hr (hgrows.reaches_iff.1 hi) hu
    rwa [hrecords.pinned, List.mem_eraseDups] at hnot
  obtain ⟨a, ha⟩ :=
    (mem_pinned_scopeNodes hm hm₁ (keyConditions_due_none i) hpinned).resolve_left hbefore
  -- The scope is part of the `SELECT`, and so is the link.
  obtain ⟨v, hv, hrecordsv⟩ := exists_getElem?_of_forall₂ (records_scopes g _).flip hquery₁
  have hwithin : Scope.Reaches ((p.linkedOnly g).scopes g) k i :=
    hi.of_select (hgrows.reaches_iff.2 hreaches) hv (Option.some.inj hrecordsv.owner).symm
  have hjoins₁ : (p.linkedOnly g).JoinsInSources false :=
    joinsInSources_impose keyConditions_due_none 0 hjoins
  exact ⟨a, ha.mono (hjoins₁.sourceOns_subset_of_reaches hwithin hquery₁ hm₁)⟩

/-! ### Following links -/

/-- Among the scopes that scope `k` of the plan reaches there is one that reads the relation, and in
this scope the relation is tied to a tenant already, or the plan `q` has the condition for the
tenant. -/
def TiedWithin (g : Partitioning) (t : Tenant) (p q : Plan) (k : Nat) (r : Relation) : Prop :=
  ∃ n s, Scope.Reaches (p.scopes g) k n ∧ (p.scopes g)[n]? = some s ∧ r ∈ s.seen ∧
    (r ∉ Scope.outstandingAt (p.scopes g) n ∨ ∃ part m, g.of? r.table = some part ∧
      q.scopeNodes[n]? = some m ∧ part.keyCondition r t ∈ m.ownConditions)

/-- What is outstanding after the first restriction has its condition after the second one. -/
theorem tiedWithin_of_outstanding (t : Tenant) {k n : Nat} {r : Relation}
    (hr : r ∈ Scope.outstandingAt ((p.linkedOnly g).scopes g) n)
    (hreaches : Scope.Reaches (p.scopes g) k n) : p.TiedWithin g t (p.boundLate g t) k r := by
  obtain ⟨s₁, hs₁, hseen⟩ := mem_seen_of_mem_outstandingAt hr
  obtain ⟨m₁, hm₁, -⟩ := exists_records hs₁
  obtain ⟨s, hs, hgrown⟩ := exists_getElem?_of_forall₂ (grows_linkedOnly g p).scopes.flip hs₁
  obtain ⟨part, hpart, hcondition⟩ := mem_keyConditions
    (e := due g (.ofTenant t) (p.linkedOnly g)) rfl hr (covers_of_mem_outstandingAt hr)
  have hown := keyConditions_subset_ownConditions (due g (.ofTenant t) (p.linkedOnly g)) 0
    (p.linkedOnly g)
  obtain ⟨m, hm, -⟩ := exists_comesFrom (due g (.ofTenant t) (p.linkedOnly g)) hm₁
  have hmem := hown.get hm
  rw [Nat.zero_add] at hmem
  exact ⟨n, s, hreaches, hs, hgrown.seen ▸ hseen, .inr ⟨part, m, hpart, hm, hmem hcondition⟩⟩

/-- In the source of a `SELECT` that is restricted twice, links lead to earlier tenant relations. -/
theorem lt_of_ties (hplain : ∀ c ∈ p.nodes, c.isSynthetic = false) {t : Tenant} {k : Nat}
    {m m' : Plan} (hdistinct : m.sourceRelations.Nodup) (hm : p.scopeNodes[k]? = some m)
    (hm' : (p.boundLate g t).scopeNodes[k]? = some m') {r a : Relation}
    (hties : Ties m'.sourceOns r a) : a ∈ m.sourceRelations ∧ g.covers a.table ∧
      m.sourceRelations.idxOf a < m.sourceRelations.idxOf r := by
  obtain ⟨m₁, hm₁, -⟩ := exists_comesFrom (due g ⟨none, false⟩ p) hm
  have hsame : m'.sourceRelations = m.sourceRelations :=
    (sourceRelations_scopeNodes hm₁ hm').trans (sourceRelations_scopeNodes hm hm₁)
  have hnodes : m.nodes ⊆ p.nodes :=
    nodes_subset_of_mem_nodes (List.mem_of_mem_filter (List.mem_of_getElem? hm))
  have hback₁ : m₁.SourceLinksBack g :=
    sourceLinksBack_scopeNodes (e := due g ⟨none, false⟩ p) hm hm₁ <|
      sourceLinksBack_of_forall fun c hc => hplain c (hnodes hc)
  have hback : m'.SourceLinksBack g :=
    sourceLinksBack_scopeNodes (e := due g (.ofTenant t) (p.linkedOnly g)) hm₁ hm' hback₁
  rw [← hsame] at hdistinct ⊢
  exact hback.lt hdistinct hties

/-- What is outstanding in a scope that a `SELECT` reaches is grounded by links in its source. -/
theorem grounded_of_outstanding (hplain : ∀ c ∈ p.nodes, c.isSynthetic = false)
    (hjoins : p.JoinsInSources false) (t : Tenant) {k : Nat} {query query₁ query₂ : Query Plan}
    (hdistinct : (select query).sourceRelations.Nodup)
    (hquery : p.scopeNodes[k]? = some (select query))
    (hquery₁ : (p.linkedOnly g).scopeNodes[k]? = some (select query₁))
    (hquery₂ : (p.boundLate g t).scopeNodes[k]? = some (select query₂)) {n : Nat} {r : Relation}
    (hr : r ∈ Scope.outstandingAt (p.scopes g) n) (hreaches : Scope.Reaches (p.scopes g) k n) :
    Grounded (Ties (select query₂).sourceOns) (p.TiedWithin g t (p.boundLate g t) k) r := by
  -- By the place of the relation in the source, to whose front links lead.
  induction hi : (select query).sourceRelations.idxOf r using Nat.strongRecOn generalizing n r with
  | ind i ih =>
    by_cases hlater : r ∈ Scope.outstandingAt ((p.linkedOnly g).scopes g) n
    · exact .tied (tiedWithin_of_outstanding t hlater hreaches)
    · obtain ⟨a, ha⟩ := exists_ties hjoins hr hlater hreaches hquery₁
      refine .linked ⟨a, ties_scopeNodes hquery₁ hquery₂ ha⟩ fun b hb => ?_
      obtain ⟨hmem, hcovers, hlt⟩ := lt_of_ties hplain hdistinct hquery hquery₂ hb
      obtain ⟨m, s, hm, hs, hseen⟩ := exists_seen hquery hcovers hmem
      by_cases hbr : b ∈ Scope.outstandingAt (p.scopes g) m
      · exact ih _ (hi ▸ hlt) hbr hm rfl
      · exact .tied ⟨m, s, hm, hs, hseen, .inl hbr⟩

/-- **A tenant that is known late reaches every relation.** Let joins stand in the sources of
`SELECT`s only, with distinct relations in each source, and let the plan have no conditions of
enforcement. When it is restricted without a tenant and then to one, each relation that was
outstanding is grounded by links: following them in the source of the `SELECT` around it ends at a
relation that has the tenant's condition in the scope that reads it, or was tied there before. -/
theorem late_tenant_grounds_all (g : Partitioning) (t : Tenant) {p : Plan}
    (hplain : ∀ c ∈ p.nodes, c.isSynthetic = false) (hjoins : p.JoinsInSources false)
    (hdistinct : ∀ query, select query ∈ p.nodes → ∀ s ∈ query.source, s.relations.Nodup) :
    ∃ q₁ q₂, (p.restrict g ⟨none, false⟩).value = .ok q₁ ∧
      (q₁.restrict g (.ofTenant t)).value = .ok q₂ ∧
      ∀ n, ∀ r ∈ Scope.outstandingAt (p.scopes g) n, ∃ k query,
        Scope.Reaches (p.scopes g) k n ∧ q₂.scopeNodes[k]? = some (select query) ∧
        Grounded (Ties (select query).sourceOns) (p.TiedWithin g t q₂ k) r := by
  refine ⟨p.linkedOnly g, p.boundLate g t, value_restrict g rfl p, value_restrict g rfl _,
    fun n r hr => ?_⟩
  obtain ⟨s, hs, -⟩ := mem_seen_of_mem_outstandingAt hr
  obtain ⟨k, query, hreaches, hquery⟩ := hjoins.exists_select_reaches hs
  obtain ⟨m₁, hm₁, hcomes₁⟩ := exists_comesFrom (due g ⟨none, false⟩ p) hquery
  obtain ⟨query₁, rfl⟩ := exists_eq_select hcomes₁.owner?_eq
  obtain ⟨m₂, hm₂, hcomes₂⟩ := exists_comesFrom (due g (.ofTenant t) (p.linkedOnly g)) hm₁
  obtain ⟨query₂, rfl⟩ := exists_eq_select hcomes₂.owner?_eq
  have hnodup : (select query).sourceRelations.Nodup := by
    have hnode : select query ∈ p.nodes := List.mem_of_mem_filter (List.mem_of_getElem? hquery)
    rw [sourceRelations, tree?]
    cases hsource : query.source with
    | none => exact List.nodup_nil
    | some s => exact hdistinct query hnode s hsource
  exact ⟨k, query₂, hreaches, hm₂,
    grounded_of_outstanding hplain hjoins t hnodup hquery hm₁ hm₂ hr hreaches⟩

/-- Orders joined with their items, each of which is joined with more items. -/
def ordersWithMoreItems : Plan := select {
  source := some (join .inner (table "orders")
    (join .inner (table "items") (aliased (table "items") "more") none) none) }

theorem joinsInSources_ordersWithMoreItems : ordersWithMoreItems.JoinsInSources false := by
  have htable : ∀ name, (table name).JoinsInSources true := fun _ => joinsInSources_of_leaf rfl rfl
  have hmore : (aliased (table "items") "more").JoinsInSources true :=
    .node (by simp [isJoin]) (by simpa [parts, takesJoins] using joinsInSources_of_leaf rfl rfl)
  have hinner : (join .inner (table "items") (aliased (table "items") "more") none).JoinsInSources
      true := .node (fun _ => rfl) (by simp [parts, takesJoins, JoinKind.isOuter, htable, hmore])
  have houter : (join .inner (table "orders") (join .inner (table "items")
      (aliased (table "items") "more") none) none).JoinsInSources true :=
    .node (fun _ => rfl) (by simp [parts, takesJoins, JoinKind.isOuter, htable, hinner])
  exact .node (by simp [ordersWithMoreItems, isJoin])
    (by simpa [ordersWithMoreItems, parts, takesJoins] using houter)

/-- Three relations are outstanding, and all are grounded once a tenant is known. -/
theorem late_tenant_grounds_more_items :
    Scope.outstandingAt (ordersWithMoreItems.scopes shop) 0
      = [⟨"orders", none⟩, ⟨"items", none⟩, ⟨"items", some "more"⟩] ∧
    ∃ q₁ q₂, (ordersWithMoreItems.restrict shop ⟨none, false⟩).value = .ok q₁ ∧
      (q₁.restrict shop (.ofTenant ⟨"t1"⟩)).value = .ok q₂ ∧
      ∃ k query, q₂.scopeNodes[k]? = some (select query) ∧
        Grounded (Ties (select query).sourceOns)
          (ordersWithMoreItems.TiedWithin shop ⟨"t1"⟩ q₂ k) ⟨"items", some "more"⟩ := by
  have houtstanding : Scope.outstandingAt (ordersWithMoreItems.scopes shop) 0
      = [⟨"orders", none⟩, ⟨"items", none⟩, ⟨"items", some "more"⟩] := by decide
  have hdistinct : ∀ query, select query ∈ ordersWithMoreItems.nodes → ∀ s ∈ query.source,
      s.relations.Nodup := by
    intro query hquery s hs
    have hnode : select query = ordersWithMoreItems := by
      simpa [ordersWithMoreItems, nodes, subnodes, subnodesOption, subnodesAll] using hquery
    rw [ordersWithMoreItems, select.injEq] at hnode
    subst hnode
    obtain rfl := Option.some.inj hs
    decide
  obtain ⟨q₁, q₂, hq₁, hq₂, hall⟩ := late_tenant_grounds_all shop ⟨"t1"⟩ (by decide)
    joinsInSources_ordersWithMoreItems hdistinct
  obtain ⟨k, query, -, hk, hgrounded⟩ := hall 0 ⟨"items", some "more"⟩ (by simp [houtstanding])
  exact ⟨houtstanding, q₁, q₂, hq₁, hq₂, k, query, hk, hgrounded⟩

end Plan

end Tenancy
