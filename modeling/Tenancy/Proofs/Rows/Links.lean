import Tenancy.Proofs.Restrict.Joins
import Tenancy.Proofs.Rows.Basic

namespace Tenancy

/-!
# Links on rows — when a link asks for more than the tenant conditions

* `Partition.keyValue_eq_iff` — when two partition keys are compared with one value;
* `holds_keyLink_iff` — what a link asks of a row whose keys have their values;
* `exists_outstanding_of_mem_left` — what a linked join has on its left is outstanding somewhere;
* `Plan.LinkOf` — a link between two partition keys that have their tenant conditions;
* `restrict_links_tenant_keys` — each link of a restricted plan is one, and asks for nothing more if
  and only if both keys are compared with one value.
-/

/-- The keys of two tables are compared with one value exactly if they have one type, or the id is
no key of one of them. -/
theorem Partition.keyValue_eq_iff (a b : Partition) (t : Tenant) :
    a.keyValue t = b.keyValue t ↔
      a.keyType = b.keyType ∨ a.suits t = false ∨ b.suits t = false := by
  simp only [Partition.keyValue, Partition.suits]
  cases a.keyType <;> cases b.keyType <;>
    cases (Numeral.signed? t.id.toList).bind Numeral.int64? <;> simp

namespace Plan

variable {g : Partitioning} {t : Tenant} {atom : Plan → Row → Bool} {row : Row}

/-- A link holds of a row whose two keys have their values exactly if these are the same. -/
theorem holds_keyLink_iff {key other : Column} {v w : Literal}
    (hkey : (tenantKey key v).holds atom row = true)
    (hother : (tenantKey other w).holds atom row = true) :
    (keyLink key other).holds atom row = true ↔ v = w := by
  rw [holds, beq_iff_eq] at hkey hother
  rw [holds, hkey, hother, Option.any_some, beq_iff_eq, Option.some.injEq, eq_comm]

/-! ### What stands on the left of a linked join -/

theorem relations_subset_of_mem_treeJoins {through : Bool} {t j : Plan}
    (h : j ∈ t.treeJoins through) : j.relations ⊆ t.relations := by
  induction t using inductionOnTree with
  | join kind l r on ihl ihr =>
    rw [treeJoins, List.mem_cons, List.mem_append] at h
    rcases h with rfl | h | h
    · exact List.Subset.refl _
    · exact List.Subset.trans (ihl h) (List.subset_append_left _ _)
    · exact List.Subset.trans (ihr h) (List.subset_append_right _ _)
  | group p ih =>
    cases through with
    | true => exact ih h
    | false => simp [treeJoins] at h
  | leaf p hleaf => cases p <;> simp_all [treeJoins, isBranch]

/-- A scope node reads the relations of its trees. -/
theorem relations_subset_sourceRelations {m t : Plan} (ho : m.owner?.isSome) (ht : t ∈ m.trees) :
    t.relations ⊆ m.sourceRelations := by
  cases m with
  | select q =>
    rw [sourceRelations, tree?, Option.mem_toList.1 ht]
    exact List.Subset.refl _
  | join kind l r on =>
    rcases List.mem_pair.1 ht with rfl | rfl
    · exact List.subset_append_left _ _
    · exact List.subset_append_right _ _
  | _ => simp [owner?] at ho

/-- What a join has on its left that a scope reaches is outstanding in some scope, where nothing is
tied to a tenant yet. -/
theorem exists_outstanding_of_mem_left {p : Plan} (hp : p.Unmarked g) {σ : Site}
    (hσ : σ ∈ p.joinSites) {through : Bool} {n : Nat} (hn : n ∈ σ.scopes through) {m : Plan}
    (hm : p.scopeNodes[n]? = some m) {r : Relation} (hr : r ∈ σ.left.relations)
    (hcovers : g.covers r.table) : ∃ k, r ∈ Scope.outstandingAt (p.scopes g) k := by
  obtain ⟨tree, htree, hjoin⟩ := List.mem_flatMap.1 (node_mem_treeJoins hσ hn hm)
  have ho : m.owner?.isSome := (List.mem_filter.1 (List.mem_of_getElem? hm)).2
  have hread : r ∈ m.sourceRelations := relations_subset_sourceRelations ho htree
    (relations_subset_of_mem_treeJoins hjoin (List.mem_append_left _ hr))
  obtain ⟨k, s, -, hs, hseen⟩ := exists_seen hm hcovers hread
  obtain ⟨m', hm', hrecords⟩ := exists_records hs
  rw [hrecords.seen, List.mem_eraseDups] at hseen
  exact ⟨k, (hp.mem_outstandingAt hm' r).2 hseen⟩

/-! ### Links between partition keys -/

/-- What is outstanding has its tenant condition in the restricted plan. -/
theorem tenantKey_mem_impose {p : Plan} {n : Nat} {r : Relation} {part : Partition}
    (hr : r ∈ Scope.outstandingAt (p.scopes g) n) (hpart : g.of? r.table = some part) :
    tenantKey (r.column part.column) (part.keyValue t)
      ∈ (p.impose (due g (Access.ofTenant t) p) 0).value.nodes := by
  set e := due g (Access.ofTenant t) p with he
  have hcovers : g.covers r.table := by rw [Partitioning.covers, hpart, Option.isSome_some]
  obtain ⟨part', hpart', hcondition⟩ := mem_keyConditions (e := e) rfl hr hcovers
  obtain rfl : part = part' := Option.some.inj (hpart.symm.trans hpart')
  obtain ⟨s, hs, -⟩ := mem_seen_of_mem_outstandingAt hr
  obtain ⟨m, hm, -⟩ := exists_records hs
  have hn : n < p.owners.length := by
    rw [← length_scopeNodes]
    exact (List.getElem?_eq_some_iff.1 hm).1
  refine List.mem_of_mem_filter ((perm_tenantKeys_impose e 0 p).mem_iff.2 ?_)
  refine List.mem_append_left _ (List.mem_flatMap.2 ⟨n, ?_, hcondition⟩)
  rw [← List.range_eq_range', List.mem_range]
  exact hn

/-- In the plan `q` the link of `key` and `other` ties the partition keys of two tables, each of
which has its tenant condition. -/
structure LinkOf (g : Partitioning) (t : Tenant) (q : Plan) (key other : Column)
    (a b : Partition) : Prop where
  of_key : g.of? key.relation.table = some a
  of_other : g.of? other.relation.table = some b
  key_eq : key = key.relation.column a.column
  other_eq : other = other.relation.column b.column
  key_mem : tenantKey key (a.keyValue t) ∈ q.nodes
  other_mem : tenantKey other (b.keyValue t) ∈ q.nodes

theorem exists_of_keyOf? {key : Column} (h : keyOf? g key.relation = some key) :
    ∃ a, g.of? key.relation.table = some a ∧ key = key.relation.column a.column := by
  obtain ⟨a, ha, heq⟩ := Option.map_eq_some_iff.1 h
  exact ⟨a, ha, heq.symm⟩

/-- **A link asks for more than the tenant conditions only where they compare with two values.** A
plan in which nothing is tied to a tenant is restricted to one. Each link of the result ties the
partition keys of two tables, and both have their tenant conditions in the result. These compare the
keys with one value exactly if the keys have one type, or the id is no key of one of them. Of a row
that meets both conditions the link holds in this case, and in no other. -/
theorem restrict_links_tenant_keys (g : Partitioning) (t : Tenant) {p : Plan}
    (hp : p.Unmarked g) :
    ∃ q, (p.restrict g (Access.ofTenant t)).value = .ok q ∧
      ∀ key other, keyLink key other ∈ q.nodes → ∃ a b, LinkOf g t q key other a b ∧
        (a.keyValue t = b.keyValue t ↔
          a.keyType = b.keyType ∨ a.suits t = false ∨ b.suits t = false) ∧
        ∀ (atom : Plan → Row → Bool) (row : Row),
          (tenantKey key (a.keyValue t)).holds atom row = true →
          (tenantKey other (b.keyValue t)).holds atom row = true →
          ((keyLink key other).holds atom row = true ↔ a.keyValue t = b.keyValue t) := by
  set e := due g (Access.ofTenant t) p with he
  refine ⟨(p.impose e 0).value, value_restrict g rfl p, fun key other hlink => ?_⟩
  -- The plan has no links, so this one has been added at some join.
  have hadded : keyLink key other ∈ p.joinSites.flatMap (Site.added e) := by
    have hmem := (perm_links_impose e p).mem_iff.1 (List.mem_filter.2 ⟨hlink, rfl⟩)
    refine (List.mem_append.1 hmem).resolve_right fun hthere => ?_
    exact absurd (hp _ (List.mem_of_mem_filter hthere)) (by simp [isMark])
  obtain ⟨σ, hσ, hadded⟩ := List.mem_flatMap.1 hadded
  obtain ⟨⟨k, o⟩, hk, heq⟩ := List.mem_map.1 hadded
  obtain ⟨rfl, rfl⟩ := keyLink.inj heq
  have htakes := takes_of_link? (Option.mem_toList.1 hk)
  obtain ⟨a, ha, hkey⟩ := exists_of_keyOf? htakes.isKey
  obtain ⟨b, hb, hother⟩ := exists_of_keyOf? htakes.isOther
  obtain ⟨n, hn, hr⟩ := htakes.callsFor.outstanding
  obtain ⟨s, hs, -⟩ := mem_seen_of_mem_outstandingAt hr
  obtain ⟨m, hm, -⟩ := exists_records hs
  obtain ⟨i, hi⟩ :=
    exists_outstanding_of_mem_left hp hσ hn hm htakes.anchor.mem htakes.anchor.covers
  have hkeyMem := tenantKey_mem_impose (t := t) hr ha
  have hotherMem := tenantKey_mem_impose (t := t) hi hb
  rw [← hkey] at hkeyMem
  rw [← hother] at hotherMem
  exact ⟨a, b, ⟨ha, hb, hkey, hother, hkeyMem, hotherMem⟩, a.keyValue_eq_iff b t,
    fun _ _ => holds_keyLink_iff⟩

/-- Orders, with text keys, and accounts, with integer keys. -/
def ledger : Partitioning :=
  (Catalog.mk [⟨"orders", "tenant_id", .text⟩, ⟨"accounts", "tenant_id", .integer⟩]).partitioning

/-- Orders with the accounts that they are billed to. -/
def ordersWithAccounts : Plan :=
  select { source := some (join .inner (table "orders") (table "accounts") none) }

/-- An id that is no integer is compared as a text everywhere, so the link between the two asks for
nothing more. -/
theorem restrict_links_orders_with_accounts :
    ordersWithAccounts.Unmarked ledger ∧
    ∃ q, (ordersWithAccounts.restrict ledger (Access.ofTenant ⟨"acme"⟩)).value = .ok q ∧
      ∀ key other, keyLink key other ∈ q.nodes → ∀ (atom : Plan → Row → Bool) (row : Row),
        (tenantKey key (.text "acme")).holds atom row = true →
        (tenantKey other (.text "acme")).holds atom row = true →
        (keyLink key other).holds atom row = true := by
  have hunmarked : ordersWithAccounts.Unmarked ledger := by decide
  obtain ⟨q, hq, hlinks⟩ := restrict_links_tenant_keys ledger ⟨"acme"⟩ hunmarked
  have htext : ∀ a : Partition, a.keyValue ⟨"acme"⟩ = .text "acme" := fun a => by
    unfold Partition.keyValue
    cases a.keyType <;> rfl
  refine ⟨hunmarked, q, hq, fun key other hlink atom row hkey hother => ?_⟩
  obtain ⟨a, b, -, -, hholds⟩ := hlinks key other hlink
  rw [htext, htext] at hholds
  exact (hholds atom row hkey hother).2 rfl

/-- The partition key of the orders. -/
def ordersKey : Column := ⟨⟨"orders", none⟩, "tenant_id"⟩

/-- The partition key of the accounts. -/
def accountsKey : Column := ⟨⟨"accounts", none⟩, "tenant_id"⟩

/-- An id that is an integer is compared as a text with one key and as an integer with the other.
The link between them does not hold of a row that meets both tenant conditions. -/
theorem link_contradicts_numeric_tenant :
    ordersWithAccounts.Unmarked ledger ∧
    (ordersWithAccounts.restrict ledger (Access.ofTenant ⟨"42"⟩)).value = .ok (select
      { source := some (join .inner (table "orders") (table "accounts")
          (some (keyLink accountsKey ordersKey)))
        wheres := [and [tenantKey ordersKey (.text "42"), tenantKey accountsKey (.int 42)]] }) ∧
    (ledger.of? "orders").map (·.keyValue ⟨"42"⟩) = some (.text "42") ∧
    (ledger.of? "accounts").map (·.keyValue ⟨"42"⟩) = some (.int 42) ∧
    ∃ row : Row, ∀ atom : Plan → Row → Bool,
      (tenantKey ordersKey (.text "42")).holds atom row = true ∧
      (tenantKey accountsKey (.int 42)).holds atom row = true ∧
      (keyLink accountsKey ordersKey).holds atom row = false :=
  ⟨by decide, rfl, rfl, rfl,
    fun r => some fun _ => if r.table = "accounts" then .int 42 else .text "42",
    fun _ => ⟨rfl, rfl, rfl⟩⟩

end Plan

end Tenancy
