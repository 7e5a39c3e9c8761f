import Tenancy.Proofs.Rows.Basic

namespace Tenancy

/-!
# Inner joins — a restricted query sees the rows of its tenant

* `Query.relations`, `Query.conditions` — what a `SELECT` reads and what it asks of its rows;
* `Row.Owned` — every record of a tenant relation in the row is the tenant's;
* `restrict_inner_joins` — the rows of the restricted query are the owned rows of the query.

The tenant conditions say that a row is owned. Every link follows from them, since it ties two
partition keys that are equal to the same value.
-/

/-- The relations of the source. -/
def Query.relations (q : Query Plan) : List Relation := q.source.toList.flatMap Plan.relations

/-- All conditions on the rows of the source. -/
def Query.conditions (q : Query Plan) : List Plan := q.wheres ++ q.source.toList.flatMap Plan.ons

/-- Every record of a tenant relation among `rs` is the tenant's. -/
def Row.Owned (g : Partitioning) (t : Tenant) (rs : List Relation) (row : Row) : Prop :=
  ∀ r ∈ rs, ∀ p, g.of? r.table = some p → row.value (r.column p.column) = some (p.keyValue t)

/-- The partition keys of the tenant relations among `rs` have one value for the tenant. -/
def Tenant.OneValue (g : Partitioning) (t : Tenant) (rs : List Relation) : Prop :=
  ∃ v, ∀ r ∈ rs, ∀ p, g.of? r.table = some p → p.keyValue t = v

namespace Plan

variable {g : Partitioning} {t : Tenant} {atom : Plan → Row → Bool} {row : Row}

/-! ### The tenant conditions -/

/-- The conditions of a scope say that its outstanding relations are owned. -/
theorem holds_keyConditions (atom : Plan → Row → Bool) (row : Row) {e : Restriction}
    (ht : e.access.tenant = some t) (n : Nat) :
    (∀ c ∈ e.keyConditions n, c.holds atom row = true) ↔
      row.Owned e.partitioning t (e.outstanding n) := by
  constructor
  · intro h r hr p hp
    have hmem : p.keyCondition r t ∈ e.keyConditions n :=
      List.mem_filterMap.2 ⟨r, hr, by simp [hp, ht]⟩
    simpa [Partition.keyCondition, holds] using h _ hmem
  · intro h c hc
    obtain ⟨r, hr, hrc⟩ := List.mem_filterMap.1 hc
    cases hp : e.partitioning.of? r.table with
    | none => simp [hp] at hrc
    | some p =>
      obtain rfl : p.keyCondition r t = c := by simpa [hp, ht] using hrc
      simpa [Partition.keyCondition, holds] using h r hr p hp

theorem value_of_owned {rs : List Relation} {v : Literal}
    (hv : ∀ r ∈ rs, ∀ p, g.of? r.table = some p → p.keyValue t = v) (h : row.Owned g t rs)
    {r : Relation} (hr : r ∈ rs) {key : Column} (hkey : keyOf? g r = some key) :
    row.value key = some v := by
  obtain ⟨p, hp, rfl⟩ := Option.map_eq_some_iff.1 hkey
  rw [h r hr p hp, hv r hr p hp]

/-! ### The links -/

/-- A link ties a key to the key of a relation on the left. -/
theorem exists_mem_relations_of_missingLink? {key other : Column} {l r : Plan} {on : Option Plan}
    (h : missingLink? g key l r on = some other) :
    ∃ s ∈ l.relations, keyOf? g s = some other :=
  exists_mem_relations_of_anchor? (of_missingLink?_eq_some h).2

/-- The conditions of a join after linking. -/
theorem holds_ons_link_join (key : Column) (kind : JoinKind) (l r : Plan) (on : Option Plan) :
    (∀ c ∈ ((join kind l r on).link g key).value.ons, c.holds atom row = true) ↔
      ((∀ c ∈ (l.link g key).value.ons, c.holds atom row = true) ∧
        (∀ c ∈ (r.link g key).value.ons, c.holds atom row = true)) ∧
      (∀ c ∈ on.toList, c.holds atom row = true) ∧
      ∀ other, missingLink? g key l r on = some other →
        (keyLink key other).holds atom row = true := by
  rw [value_link_join, ons, List.forall_mem_append, List.forall_mem_append,
    (adds_linkedOn g key _ _ on).holds_iff, missingLink?_link]
  simp

/-- Linking takes no condition away. -/
theorem holds_of_holds_link (key : Column) {p : Plan}
    (h : ∀ c ∈ (p.link g key).value.ons, c.holds atom row = true) :
    ∀ c ∈ p.ons, c.holds atom row = true := by
  induction p using link.induct with
  | case1 kind l r on ihl ihr =>
    obtain ⟨⟨hl, hr⟩, hon, -⟩ := (holds_ons_link_join key kind l r on).1 h
    rw [ons, List.forall_mem_append, List.forall_mem_append]
    exact ⟨⟨ihl hl, ihr hr⟩, hon⟩
  | case2 p hp => rwa [link_of_not_join g key hp] at h

/-- Linking asks nothing new of a row in which all partition keys have the value of `key`. -/
theorem holds_link_of_holds {key : Column} {p : Plan} {v : Literal}
    (hkey : row.value key = some v)
    (hothers : ∀ s ∈ p.relations, ∀ other, keyOf? g s = some other → row.value other = some v)
    (h : ∀ c ∈ p.ons, c.holds atom row = true) :
    ∀ c ∈ (p.link g key).value.ons, c.holds atom row = true := by
  induction p using link.induct with
  | case1 kind l r on ihl ihr =>
    rw [ons, List.forall_mem_append, List.forall_mem_append] at h
    rw [relations, List.forall_mem_append] at hothers
    refine (holds_ons_link_join key kind l r on).2
      ⟨⟨ihl hothers.1 h.1.1, ihr hothers.2 h.1.2⟩, h.2, fun other hother => ?_⟩
    -- The new link ties `key` to a key of the left side, and both have the value `v`.
    obtain ⟨s, hs, hs'⟩ := exists_mem_relations_of_missingLink? hother
    simp [holds, hkey, hothers.1 s hs other hs']
  | case2 p hp => rwa [link_of_not_join g key hp]

/-- Linking for keys that have the value of all other partition keys asks nothing new of a row. -/
theorem holds_ons_linkAll {keys : List Column} {p : Plan} {v : Literal}
    (hkeys : ∀ key ∈ keys, row.value key = some v)
    (hothers : ∀ s ∈ p.relations, ∀ other, keyOf? g s = some other → row.value other = some v)
    (h : ∀ c ∈ p.ons, c.holds atom row = true) :
    ∀ c ∈ (linkAll g keys p).value.ons, c.holds atom row = true := by
  have hall : (linkAll g keys p).value.relations = p.relations ∧
      ∀ c ∈ (linkAll g keys p).value.ons, c.holds atom row = true :=
    linkAll_induction
      (motive := fun q => q.relations = p.relations ∧ ∀ c ∈ q.ons, c.holds atom row = true)
      ⟨rfl, h⟩ fun key hkey q hq =>
        ⟨(relations_link g key q).trans hq.1,
          holds_link_of_holds (hkeys key hkey) (by rwa [hq.1]) hq.2⟩
  exact hall.2

theorem holds_of_holds_linkAll {keys : List Column} {p : Plan}
    (h : ∀ c ∈ (linkAll g keys p).value.ons, c.holds atom row = true) :
    ∀ c ∈ p.ons, c.holds atom row = true := by
  refine linkAll_induction (g := g) (motive := fun q =>
    (∀ c ∈ q.ons, c.holds atom row = true) → ∀ c ∈ p.ons, c.holds atom row = true) id ?_ h
  exact fun key _ _ hq hlink => hq (holds_of_holds_link key hlink)

/-! ### The restricted query -/

/-- What is outstanding in an unmarked query of inner joins: its tenant relations. -/
theorem mem_outstandingAt_innerJoins {q : Query Plan}
    (hsource : ∀ s ∈ q.source, JoinTree (fun kind => kind.isOuter = false) s)
    (hunmarked : (select q).Unmarked g) (r : Relation) :
    r ∈ Scope.outstandingAt ((select q).scopes g) 0 ↔
      r ∈ q.relations ∧ g.covers r.table = true := by
  rw [hunmarked.mem_outstandingAt (q := select q) (by rw [scopeNodes_eq]; rfl),
    seen_interior_select, Query.relations]
  cases hs : q.source with
  | none => simp
  | some s =>
    have htree := hsource s hs
    simp [htree.seen_eq, htree.direct_eq_relations]

/-- **A restricted query of inner joins sees the rows of its tenant.** A row satisfies the
restricted query exactly if it satisfies the query and all its records of tenant relations are the
tenant's. -/
theorem restrict_inner_joins {q : Query Plan}
    (hsource : ∀ s ∈ q.source, JoinTree (fun kind => kind.isOuter = false) s)
    (hwheres : ∀ c ∈ q.wheres, c.Simple) (hunmarked : (select q).Unmarked g)
    (hvalue : t.OneValue g q.relations) :
    ∃ q', ((select q).restrict g (Access.ofTenant t)).value = .ok (select q') ∧
      ∀ (atom : Plan → Row → Bool) (row : Row),
        (∀ c ∈ q'.conditions, c.holds atom row = true) ↔
          (∀ c ∈ q.conditions, c.holds atom row = true) ∧ row.Owned g t q.relations := by
  set e := due g (Access.ofTenant t) (select q)
  obtain ⟨q', hq', hsource', hwheres'⟩ := value_impose_select e 0 hwheres
  refine ⟨q', by rw [value_restrict g rfl, hq'], fun atom row => ?_⟩
  have howned : row.Owned e.partitioning t (e.outstanding 0) ↔ row.Owned g t q.relations := by
    have hmem := mem_outstandingAt_innerJoins hsource hunmarked
    constructor
    · exact fun h r hr p hp => h r ((hmem r).2 ⟨hr, by simp [Partitioning.covers, hp]⟩) p hp
    · exact fun h r hr => h r ((hmem r).1 hr).1
  have hkeys := holds_keyConditions atom row (e := e) rfl 0
  -- The `WHERE` asks for owned rows in addition; what is left are the conditions of the joins.
  rw [Query.conditions, Query.conditions, List.forall_mem_append, List.forall_mem_append, hwheres',
    (adds_addWheres _ _).holds_iff, hkeys, howned, hsource']
  cases hs : q.source with
  | none => simp [imposeOption]
  | some s =>
    have hpart : (imposeOption e 1 (some s)).value = some s := by
      simp only [imposeOption, Logged.value_bind, Logged.value_pure]
      rw [impose_of_owners_eq_nil e 1 (hsource s hs).owners_eq_nil]
    rw [hpart]
    simp only [Option.map_some, Option.toList_some, List.flatMap_singleton]
    constructor
    · exact fun ⟨⟨hw, ho⟩, hons⟩ => ⟨⟨hw, holds_of_holds_linkAll hons⟩, ho⟩
    · rintro ⟨⟨hw, hons⟩, ho⟩
      refine ⟨⟨hw, ho⟩, ?_⟩
      -- In an owned row all partition keys have the one value, so that every link holds.
      obtain ⟨v, hv⟩ := hvalue
      have hvalue : ∀ r ∈ q.relations, ∀ key, keyOf? g r = some key → row.value key = some v :=
        fun r hr key hkey => value_of_owned hv ho hr hkey
      refine holds_ons_linkAll (v := v) (fun key hkey => ?_) (fun r hr key hkey => ?_) hons
      · obtain ⟨r, hr, hkey⟩ := List.mem_filterMap.1 hkey
        exact hvalue r ((mem_outstandingAt_innerJoins hsource hunmarked r).1 hr).1 key hkey
      · exact hvalue r (by simpa [Query.relations, hs] using hr) key hkey

/-- Orders with their items, or without a note. -/
def ordersWithItems : Query Plan where
  source := some (join .inner (table "orders") (aliased (table "items") "i")
    (some (equal (column ⟨⟨"orders", none⟩, "id"⟩) (column ⟨⟨"items", some "i"⟩, "order_id"⟩))))
  wheres := [or (compare .notEqual (column ⟨⟨"orders", none⟩, "note"⟩) (literal .null)) (param 0)]

/-- The law at a query of two tenant tables. -/
theorem restrict_orders_with_items :
    ∃ q', ((select ordersWithItems).restrict shop (Access.ofTenant ⟨"t1"⟩)).value
        = .ok (select q') ∧
      ∀ (atom : Plan → Row → Bool) (row : Row),
        (∀ c ∈ q'.conditions, c.holds atom row = true) ↔
          (∀ c ∈ ordersWithItems.conditions, c.holds atom row = true) ∧
            row.Owned shop ⟨"t1"⟩ [⟨"orders", none⟩, ⟨"items", some "i"⟩] := by
  refine restrict_inner_joins ?_ (by decide) (by decide) ⟨.text "t1", ?_⟩
  · rintro s hs
    obtain rfl := Option.some.inj hs
    exact .join rfl (.table _) (.aliased _ _) (by decide)
  · intro r _ p hp
    replace hp : [⟨"orders", "tenant_id", .text⟩, ⟨"items", "tenant_id", .text⟩].find?
        (·.table == r.table) = some p := hp
    rcases List.mem_pair.1 (List.mem_of_find?_eq_some hp) with rfl | rfl <;> rfl

end Plan

end Tenancy
