import Tenancy.Proofs.Restrict.Linking

namespace Tenancy

/-!
# Joins — which joins restriction links, and how

* `Plan.IsAnchor` — the relation to which a relation joined from the right is tied, as `anchor?`
  finds it (`isAnchor_of_anchor?`);
* `Plan.Site.CallsFor` — a scope that reaches a join leaves the relation outstanding that the join
  brings in from the right, and the left side has a tenant relation to tie it to;
* `exists_link_of_callsFor` — then the link is there or is added;
* `restrict_adds_right_links` — every link that is added is the right one, and one at most is added
  to a join;
* `restrict_ties_called_for` — a join ties what it is called upon to tie, and nothing else;
* `restrict_conditions_cross_joins` — this alone gives a cross join a condition.
-/

namespace Plan

variable {g : Partitioning}

/-! ### Anchors -/

/-- Joined to `left`, the relation `r` is tied to the relation `a`: the tenant relation other than
`r` with which `left` starts, or else the last one in it. -/
structure IsAnchor (g : Partitioning) (left : Plan) (r a : Relation) : Prop where
  mem : a ∈ left.relations
  ne : a ≠ r
  covers : g.covers a.table
  nearest : left.leftmost = some a ∨
    (∀ b ∈ left.leftmost, b = r ∨ g.covers b.table = false) ∧
    ∃ before after, left.relations = before ++ a :: after ∧
      ∀ b ∈ after, b = r ∨ g.covers b.table = false

theorem isSome_keyOf? (r : Relation) : (keyOf? g r).isSome = g.covers r.table := by
  rw [keyOf?, Option.isSome_map, Partitioning.covers]

/-- The key of a relation is a column of that relation. -/
theorem relation_of_keyOf? {r : Relation} {key : Column} (h : keyOf? g r = some key) :
    key.relation = r := by
  obtain ⟨p, _, rfl⟩ := Option.map_eq_some_iff.1 h
  rfl

private theorem exists_of_findSome?_filter {α β : Type} {keep : α → Bool} {f : α → Option β}
    {xs : List α} {y : β} (h : (xs.filter keep).findSome? f = some y) :
    ∃ before x after, xs = before ++ x :: after ∧ keep x ∧ f x = some y ∧
      ∀ z ∈ before, keep z → f z = none := by
  obtain ⟨before, x, after, heq, hx, hbefore⟩ := List.findSome?_eq_some_iff.1 h
  obtain ⟨xs₁, xs₂, rfl, rfl, hxs₂⟩ := List.filter_eq_append_iff.1 heq
  obtain ⟨dropped, rest, rfl, hdropped, hkeep, -⟩ := List.filter_eq_cons_iff.1 hxs₂
  refine ⟨xs₁ ++ dropped, x, rest, (List.append_assoc ..).symm, hkeep, hx, fun z hz hkeepz => ?_⟩
  rcases List.mem_append.1 hz with hz | hz
  · exact hbefore z (List.mem_filter.2 ⟨hz, hkeepz⟩)
  · exact absurd hkeepz (hdropped z hz)

/-- The anchor that is found is the key of the right relation. -/
theorem isAnchor_of_anchor? {left : Plan} {r : Relation} {other : Column}
    (h : anchor? g left r = some other) :
    IsAnchor g left r other.relation ∧ keyOf? g other.relation = some other := by
  obtain ⟨a, hmem, hkey'⟩ := exists_mem_relations_of_anchor? h
  obtain ⟨before, x, after, heq, hne, hkey, hbefore⟩ := exists_of_findSome?_filter h
  obtain rfl := relation_of_keyOf? hkey
  obtain rfl := relation_of_keyOf? hkey'
  have hskipped : ∀ b ∈ before, b = r ∨ g.covers b.table = false := fun b hb => by
    by_cases hbr : b = r
    · exact .inl hbr
    · have hnone := hbefore b hb (decide_eq_true hbr)
      exact .inr (by rw [← isSome_keyOf?, hnone, Option.isSome_none])
  refine ⟨⟨hmem, of_decide_eq_true hne, by rw [← isSome_keyOf?, hkey, Option.isSome_some], ?_⟩,
    hkey⟩
  -- The candidates are the relation that `left` starts with and then those of `left`, backwards.
  have hback : ∀ {before after}, left.relations.reverse = before ++ other.relation :: after →
      (∀ b ∈ before, b = r ∨ g.covers b.table = false) →
      ∃ before after, left.relations = before ++ other.relation :: after ∧
        ∀ b ∈ after, b = r ∨ g.covers b.table = false := fun {before after} heq hskipped =>
    ⟨after.reverse, before.reverse, by simpa using congrArg List.reverse heq,
      fun b hb => hskipped b (List.mem_reverse.1 hb)⟩
  cases hfirst : left.leftmost with
  | none =>
    rw [hfirst, Option.toList_none, List.nil_append] at heq
    exact .inr ⟨by simp, hback heq hskipped⟩
  | some b =>
    rw [hfirst, Option.toList_some, List.singleton_append] at heq
    cases before with
    | nil => exact .inl (congrArg some (List.cons.inj heq).1)
    | cons c before =>
      obtain ⟨rfl, htail⟩ := List.cons.inj heq
      refine .inr ⟨fun b' hb' => ?_, hback htail fun b' hb' =>
        hskipped b' (List.mem_cons_of_mem _ hb')⟩
      obtain rfl := Option.some.inj hb'
      exact hskipped _ List.mem_cons_self

/-- There is an anchor exactly if the left side has another tenant relation. -/
theorem isSome_anchor?_iff {left : Plan} {r : Relation} :
    (anchor? g left r).isSome ↔ ∃ a ∈ left.relations, a ≠ r ∧ g.covers a.table := by
  rw [anchor?, List.findSome?_isSome_iff]
  simp only [List.mem_filter, List.mem_append, Option.mem_toList, List.mem_reverse,
    decide_eq_true_eq, isSome_keyOf?]
  constructor
  · rintro ⟨a, ⟨hmem, hne⟩, hcovers⟩
    exact ⟨a, hmem.elim mem_relations_of_leftmost id, hne, hcovers⟩
  · rintro ⟨a, hmem, hne, hcovers⟩
    exact ⟨a, ⟨.inr hmem, hne⟩, hcovers⟩

/-! ### What a join is given -/

/-- A scope whose tree has the join, through parentheses too or through joins alone, leaves `r`
outstanding. The join brings `r` in from the right, and its left side has another tenant
relation. -/
structure Site.CallsFor (through : Bool) (g : Partitioning) (outstanding : Nat → List Relation)
    (σ : Site) (r : Relation) : Prop where
  outstanding : ∃ n ∈ σ.scopes through, r ∈ outstanding n
  starts : σ.right.leftmost = some r
  anchored : ∃ a ∈ σ.left.relations, a ≠ r ∧ g.covers a.table

/-- The link of the keys `key` and `other` is right for the join at a site: it ties a relation that
the site calls for to its anchor, and it is not there yet. -/
structure Site.Takes (g : Partitioning) (outstanding : Nat → List Relation) (σ : Site)
    (key other : Column) : Prop where
  callsFor : σ.CallsFor false g outstanding key.relation
  anchor : IsAnchor g σ.left key.relation other.relation
  isKey : keyOf? g key.relation = some key
  isOther : keyOf? g other.relation = some other
  missing : keyLink key other ∉ σ.on.toList.flatMap conjuncts

variable {e : Restriction} {σ : Site}

/-- The link that is added is right. -/
theorem takes_of_link? {key other : Column} (h : σ.link? e = some (key, other)) :
    σ.Takes e.partitioning e.outstanding key other := by
  obtain ⟨k, hk, hlink⟩ := List.exists_of_findSome?_eq_some h
  obtain ⟨o, hmissing, heq⟩ := Option.map_eq_some_iff.1 hlink
  obtain ⟨rfl, rfl⟩ := Prod.mk.inj heq
  obtain ⟨hstarts, hanchor⟩ := of_missingLink?_eq_some hmissing
  obtain ⟨hright, hother⟩ := isAnchor_of_anchor? hanchor
  obtain ⟨n, hn, hkn⟩ := List.mem_flatMap.1 hk
  obtain ⟨r, hr, hkey⟩ := List.mem_filterMap.1 hkn
  obtain rfl := relation_of_keyOf? hkey
  refine ⟨⟨⟨n, hn, hr⟩, hstarts, ⟨_, hright.mem, hright.ne, hright.covers⟩⟩, hright, hkey, hother,
    fun hthere => ?_⟩
  -- A link that is there is not missing.
  have hnone : missingLink? e.partitioning k σ.left σ.right σ.on = none :=
    (missingLink?_eq_none_iff e.partitioning k).2 fun o' _ ho' => by
      rwa [← Option.some.inj (hanchor.symm.trans ho')]
  rw [hmissing] at hnone
  cases hnone

/-- What a join calls for is tied by a link that is there or by the one that is added. -/
theorem exists_link_of_callsFor {r : Relation}
    (h : σ.CallsFor false e.partitioning e.outstanding r)
    (hcovers : e.partitioning.covers r.table) :
    ∃ key other, key.relation = r ∧ IsAnchor e.partitioning σ.left r other.relation ∧
      (keyLink key other ∈ onLinks σ.on ∨ σ.link? e = some (key, other)) := by
  obtain ⟨⟨n, hn, hr⟩, hstarts, hanchored⟩ := h
  obtain ⟨key, hkey⟩ := Option.isSome_iff_exists.1 ((isSome_keyOf? r).trans hcovers)
  obtain rfl := relation_of_keyOf? hkey
  obtain ⟨other, hother⟩ := Option.isSome_iff_exists.1 (isSome_anchor?_iff.2 hanchored)
  cases hmissing : missingLink? e.partitioning key σ.left σ.right σ.on with
  | none =>
    have hthere := (missingLink?_eq_none_iff e.partitioning key).1 hmissing other hstarts hother
    exact ⟨key, other, rfl, (isAnchor_of_anchor? hother).1, .inl (mem_onLinks.2 hthere)⟩
  | some o =>
    -- Some link is missing, so one is added, and it is one for the same relation.
    have hadds : (σ.link? e).isSome := by
      refine List.findSome?_isSome_iff.2 ⟨key, ?_, by rw [hmissing]; rfl⟩
      exact List.mem_flatMap.2 ⟨n, hn, List.mem_filterMap.2 ⟨_, hr, hkey⟩⟩
    obtain ⟨⟨k, o⟩, hlink⟩ := Option.isSome_iff_exists.1 hadds
    have htakes := takes_of_link? hlink
    have hsame : k.relation = key.relation :=
      Option.some.inj (htakes.callsFor.starts.symm.trans hstarts)
    exact ⟨k, o, hsame, hsame ▸ htakes.anchor, .inr hlink⟩

/-! ### Links in restricted plans -/

/-- The `ON` of a join. -/
def joinOn : Plan → Option Plan
  | join _ _ _ on => on
  | _ => none

/-- The join `j` is that of a site up to synthetic conditions. Behind the links of its `ON` stands
`link`, if there is one, and it is a conjunct at the top. -/
structure Site.Gains (σ : Site) (link : Option (Column × Column)) (j : Plan) : Prop where
  isJoin : j.isJoin = true
  same : j.flatten isSynthetic = σ.node.flatten isSynthetic
  onLinks : onLinks j.joinOn = onLinks σ.on ++ link.toList.map fun k => keyLink k.1 k.2
  atTop : ∀ k ∈ link, keyLink k.1 k.2 ∈ j.joinOn.toList.flatMap topConjuncts

theorem mem_topConjuncts_addCondition (on : Option Plan) (key other : Column) :
    keyLink key other ∈ (addCondition on (keyLink key other)).toList.flatMap topConjuncts := by
  cases on with
  | none => exact List.mem_singleton_self _
  | some p => simp [addCondition, conjoin_eq, topConjuncts]

theorem Site.Becomes.gains {j : Plan} (h : σ.Becomes e j) : σ.Gains (σ.link? e) j := by
  obtain ⟨hsame, l, r, on, rfl, hon, -⟩ := h
  refine ⟨rfl, hsame, ?_, fun k hk => ?_⟩
  · rw [← hon]
    cases σ.link? e with
    | none => exact (List.append_nil _).symm
    | some k => exact onLinks_addCondition on k.1 k.2
  · rw [joinOn, Option.mem_def.1 hk]
    exact mem_topConjuncts_addCondition on k.1 k.2

/-- **Every link that is added is the right one, and is added once.** A plan is restricted to a
tenant or without one. The joins of the result are, in the order of reading, those of the plan, and
each gains one link at most, at the end of the conjunction at the top of its `ON`. There are no
links in the result but these and those of the plan. The link of a join is for the relation with
which its right side starts, which is outstanding in a scope that reaches the join, and leads to its
anchor on the left side; both columns are partition keys, and the link was not in the conjunction
yet. -/
theorem restrict_adds_right_links (g : Partitioning) (tenant : Option Tenant) (p : Plan) :
    ∃ (q : Plan) (link : Site → Option (Column × Column)),
      (p.restrict g ⟨tenant, false⟩).value = .ok q ∧
      List.Forall₂ (fun σ j => σ.Gains (link σ) j) p.joinSites q.joins ∧
      q.links.Perm (p.joinSites.flatMap (fun σ => (link σ).toList.map fun k => keyLink k.1 k.2)
        ++ p.links) ∧
      ∀ σ ∈ p.joinSites, ∀ key other, link σ = some (key, other) →
        σ.Takes g (Scope.outstandingAt (p.scopes g)) key other := by
  set e := due g ⟨tenant, false⟩ p with he
  refine ⟨(p.impose e 0).value, Site.link? e, value_restrict g rfl p, ?_, perm_links_impose e p,
    fun σ _ key other hlink => takes_of_link? hlink⟩
  exact (forall₂_becomes_joinSites e p).imp fun σ j h => h.gains

/-! ### Which joins are linked -/

/-- The join `j` ties `r` to a tenant relation of the left side of a site. -/
def Site.TiesLeft (g : Partitioning) (σ : Site) (r : Relation) (j : Plan) : Prop :=
  ∃ a ∈ σ.left.relations, g.covers a.table ∧ Ties j.joinOn.toList r a

theorem Site.Becomes.tiesLeft_iff {j : Plan} (h : σ.Becomes e j) {r : Relation}
    (hcovers : ∀ n ∈ σ.reaching, ∀ r ∈ e.outstanding n, e.partitioning.covers r.table) :
    σ.TiesLeft e.partitioning r j ↔
      σ.TiesLeft e.partitioning r σ.node ∨ σ.CallsFor false e.partitioning e.outstanding r := by
  have hlinks := h.gains.onLinks
  constructor
  · rintro ⟨a, ha, hatable, hties⟩
    obtain ⟨key, other, hmem, hr, hother⟩ := ties_iff_onLinks.1 hties
    rw [hlinks, List.mem_append] at hmem
    rcases hmem with hmem | hmem
    · exact .inl ⟨a, ha, hatable, ties_iff_onLinks.2 ⟨key, other, hmem, hr, hother⟩⟩
    · obtain ⟨k, hk, heq⟩ := List.mem_map.1 hmem
      obtain ⟨rfl, rfl⟩ := keyLink.inj heq
      exact .inr (hr ▸ (takes_of_link? (Option.mem_toList.1 hk)).callsFor)
  · rintro (⟨a, ha, hatable, hties⟩ | hcalls)
    · obtain ⟨key, other, hmem, hkeys⟩ := ties_iff_onLinks.1 hties
      refine ⟨a, ha, hatable, ties_iff_onLinks.2 ⟨key, other, ?_, hkeys⟩⟩
      rw [hlinks]
      exact List.mem_append_left _ hmem
    · obtain ⟨n, hn, hr⟩ := hcalls.outstanding
      obtain ⟨key, other, hkey, hanchor, hlink⟩ :=
        exists_link_of_callsFor hcalls (hcovers n hn r hr)
      refine ⟨other.relation, hanchor.mem, hanchor.covers,
        ties_iff_onLinks.2 ⟨key, other, ?_, hkey, rfl⟩⟩
      rw [hlinks, List.mem_append]
      refine hlink.imp_right fun hlink => ?_
      rw [hlink]
      exact List.mem_singleton_self _

/-- **A join is linked if a scope reaches it.** A plan is restricted to a tenant or without one.
Whether a join of the result ties a relation to a tenant relation of its left side is decided by the
plan: it does so already, or the join brings the relation in from the right, the left side has
another tenant relation, and the relation is outstanding in a scope whose tree goes on to the join
through joins alone. -/
theorem restrict_ties_called_for (g : Partitioning) (tenant : Option Tenant) (p : Plan) :
    ∃ q, (p.restrict g ⟨tenant, false⟩).value = .ok q ∧
      List.Forall₂ (fun σ j => ∀ r, σ.TiesLeft g r j ↔
        σ.TiesLeft g r σ.node ∨ σ.CallsFor false g (Scope.outstandingAt (p.scopes g)) r)
        p.joinSites q.joins :=
  ⟨_, value_restrict g rfl p, (forall₂_becomes_joinSites _ p).imp fun _ _ h _ =>
    h.tiesLeft_iff fun _ _ _ hr => covers_of_mem_outstandingAt hr⟩

/-- Orders with their items, joined in parentheses. -/
def parenthesizedItems : Plan :=
  select { source := some (group (join .inner (table "orders") (table "items") none)) }

/-- The scope around the join leaves the items outstanding, and nothing ties them to the orders. -/
theorem restrict_leaves_parenthesized_join_unlinked :
    ∃ σ ∈ parenthesizedItems.joinSites,
      σ.CallsFor true shop (Scope.outstandingAt (parenthesizedItems.scopes shop))
        ⟨"items", none⟩ ∧
      ∃ q, (parenthesizedItems.restrict shop ⟨some ⟨"t1"⟩, false⟩).value = .ok q ∧
        ∀ j ∈ q.joins, ¬ σ.TiesLeft shop ⟨"items", none⟩ j := by
  have hsites := map_node_filter_joinSites true (p := parenthesizedItems) (n := 0) rfl
  obtain ⟨σ, hσ, hnode⟩ : ∃ σ ∈ parenthesizedItems.joinSites.filter fun σ => 0 ∈ σ.scopes true,
      σ.node = join .inner (table "orders") (table "items") none :=
    List.mem_map.1 (hsites ▸ List.mem_singleton_self _)
  obtain ⟨hmem, hin⟩ := List.mem_filter.1 hσ
  obtain ⟨-, hleft, hright, -⟩ := join.inj hnode
  refine ⟨σ, hmem, ⟨⟨0, of_decide_eq_true hin, ?_⟩, by rw [hright]; rfl, ?_⟩, _, rfl, ?_⟩
  · decide
  · exact ⟨⟨"orders", none⟩, by rw [hleft]; exact List.mem_singleton_self _, by decide, rfl⟩
  · intro j hj htied
    obtain ⟨a, -, -, hties⟩ := htied
    obtain rfl := List.mem_singleton.1 hj
    exact not_ties_nil hties

/-! ### Cross joins -/

/-- Is the node a cross join with a condition? -/
def isConditionedCross : Plan → Bool
  | join .cross _ _ on => on.isSome
  | _ => false

/-- No cross join of the plan has a condition. -/
def CrossPlain (p : Plan) : Prop := ∀ q ∈ p.nodes, q.isConditionedCross = false

instance (p : Plan) : Decidable p.CrossPlain := by
  unfold CrossPlain
  infer_instance

theorem crossPlain_iff_joins {p : Plan} :
    p.CrossPlain ↔ ∀ j ∈ p.joins, j.isConditionedCross = false := by
  refine ⟨fun h j hj => h j (List.mem_of_mem_filter hj), fun h q hq => ?_⟩
  cases hjoin : q.isJoin with
  | true => exact h q (List.mem_filter.2 ⟨hq, hjoin⟩)
  | false => cases q <;> first | rfl | simp [Plan.isJoin] at hjoin

/-- A join without links is given one exactly if it calls for one. -/
theorem link?_eq_none_iff (hon : onLinks σ.on = [])
    (hcovers : ∀ n ∈ σ.reaching, ∀ r ∈ e.outstanding n, e.partitioning.covers r.table) :
    σ.link? e = none ↔ ∀ r, ¬ σ.CallsFor false e.partitioning e.outstanding r := by
  constructor
  · intro hnone r hcalls
    obtain ⟨n, hn, hr⟩ := hcalls.outstanding
    obtain ⟨key, other, _, _, hlink⟩ := exists_link_of_callsFor hcalls (hcovers n hn r hr)
    simp [hon, hnone] at hlink
  · intro hnone
    cases hlink : σ.link? e with
    | none => rfl
    | some k => exact absurd (takes_of_link? hlink).callsFor (hnone _)

theorem Site.Becomes.isConditionedCross_iff {j : Plan} (h : σ.Becomes e j)
    (hplain : σ.node.isConditionedCross = false)
    (hcovers : ∀ n ∈ σ.reaching, ∀ r ∈ e.outstanding n, e.partitioning.covers r.table) :
    j.isConditionedCross = false ↔
      (σ.kind = .cross → ∀ r, ¬ σ.CallsFor false e.partitioning e.outstanding r) := by
  obtain ⟨-, l, r, on, rfl, -, hsame⟩ := h
  cases hkind : σ.kind with
  | cross =>
    have hnone : σ.on = none := by
      rw [Site.node, hkind] at hplain
      exact Option.isNone_iff_eq_none.1 (Option.isSome_eq_false_iff.1 hplain)
    have hon : on = none := by
      simpa [hnone] using hsame (by rw [hkind]; rfl)
    rw [imp_iff_right rfl, ← link?_eq_none_iff (by rw [hnone]; rfl) hcovers, hon]
    cases σ.link? e <;> simp [isConditionedCross, addLink, addCondition]
  | inner | left | right | full => simp [isConditionedCross]

/-- **Links are all that cross joins are given.** If no cross join of a plan has a condition, the
cross joins of the restricted plan have none either, unless one of them is reached by a scope that
leaves the relation outstanding that it brings in from the right, and has another tenant relation on
its left. In write-only mode they never have one. -/
theorem restrict_conditions_cross_joins (g : Partitioning) (access : Access) {p : Plan}
    (h : p.CrossPlain) :
    ∃ q, (p.restrict g access).value = .ok q ∧
      (q.CrossPlain ↔ access.writeOnly = true ∨ ∀ σ ∈ p.joinSites, σ.kind = .cross →
        ∀ r, ¬ σ.CallsFor false g (Scope.outstandingAt (p.scopes g)) r) := by
  cases hw : access.writeOnly with
  | true => exact ⟨p, value_restrict_writeOnly g hw p, by simp [h]⟩
  | false =>
    refine ⟨_, value_restrict g hw p, ?_⟩
    rw [crossPlain_iff_joins, or_iff_right Bool.false_ne_true]
    refine (forall_mem_iff_of_forall₂ (forall₂_becomes_joinSites (due g access p) p)
      fun σ hσ j hj => ?_).symm
    have hnode : σ.node ∈ p.joins := map_node_joinSites p ▸ List.mem_map_of_mem hσ
    exact (hj.isConditionedCross_iff (crossPlain_iff_joins.1 h _ hnode)
      fun _ _ _ hr => covers_of_mem_outstandingAt hr).symm

/-- Every order with every day, which belongs to no tenant. -/
def ordersAndDays : Plan :=
  select { source := some (join .cross (table "orders") (table "days") none) }

/-- No scope leaves the days outstanding, so their join stays as it is. -/
theorem restrict_keeps_days_unconditioned :
    ordersAndDays.CrossPlain ∧
    ∃ q, (ordersAndDays.restrict shop ⟨some ⟨"t1"⟩, false⟩).value = .ok q ∧ q.CrossPlain := by
  have hplain : ordersAndDays.CrossPlain := by decide
  obtain ⟨q, hq, hiff⟩ := restrict_conditions_cross_joins shop ⟨some ⟨"t1"⟩, false⟩ hplain
  refine ⟨hplain, q, hq, hiff.2 (.inr fun σ hσ _ r hcalls => ?_)⟩
  have hnode : σ.node ∈ ordersAndDays.joins := map_node_joinSites _ ▸ List.mem_map_of_mem hσ
  obtain ⟨-, -, hright, -⟩ := join.inj (List.mem_singleton.1 hnode)
  have hdays : (⟨"days", none⟩ : Relation) = r := by
    have hstarts := hcalls.starts
    rw [hright] at hstarts
    exact Option.some.inj hstarts
  obtain ⟨n, _, hr⟩ := hcalls.outstanding
  have hcovers := covers_of_mem_outstandingAt hr
  rw [← hdays] at hcovers
  exact absurd hcovers (by decide)

/-- Every order with every item. -/
def ordersAndItems : Plan :=
  select { source := some (join .cross (table "orders") (table "items") none) }

/-- Their join is given a condition, which is written behind the words of a cross join. -/
theorem restrict_links_orders_and_items :
    ordersAndItems.CrossPlain ∧ ordersAndItems.toSql = "SELECT * FROM orders CROSS JOIN items" ∧
    ∃ q, (ordersAndItems.restrict shop ⟨none, false⟩).value = .ok q ∧ ¬ q.CrossPlain ∧
      q.toSql = "SELECT * FROM orders CROSS JOIN items ON items.tenant_id = orders.tenant_id" :=
  ⟨by decide, by decide, _, rfl, by decide, by decide⟩

end Plan

end Tenancy
