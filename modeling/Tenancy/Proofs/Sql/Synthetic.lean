import Tenancy.Proofs.Restrict.Spelling
import Tenancy.Proofs.Sql.Values

namespace Tenancy

/-!
# Synthetic conditions in SQL — they are rendered as the equalities that they are

* `Sql.Fragment.ext_of_skeleton` — a fragment is its skeleton and its values;
* `KeepsRendering.fragment_mapParts` — what is rendered of a node depends on what is rendered of its
  parts, where these look the same to it;
* `fragment_spellOut` — so a plan is rendered as before when its synthetic conditions are written
  out, unless a tenant condition has no value;
* `rendered_as_equalities` — the same of its texts and its parameters.
-/

/-- A fragment is determined by its skeleton and its values. -/
theorem Sql.Fragment.ext_of_skeleton {f g : Fragment} (hs : f.skeleton = g.skeleton)
    (hv : f.values = g.values) : f = g := by
  induction f generalizing g with
  | nil =>
    have hnil : g = [] := by simpa [skeleton] using hs.symm
    rw [hnil]
  | cons p ps ih =>
    cases g with
    | nil => simp [skeleton] at hs
    | cons q qs =>
      -- Both pieces are texts, or both are values; the skeleton has the text, the values the value.
      cases p <;> cases q <;> simp only [skeleton_text_cons, skeleton_value_cons, List.cons.injEq,
        Option.some.injEq, reduceCtorEq, false_and, true_and] at hs
      · simp only [values_text_cons] at hv
        rw [hs.1, ih hs.2 hv]
      · simp only [values_value_cons, List.cons.injEq] at hv
        rw [hv.1, ih hs hv.2]

namespace Plan

/-! ### Rendering under a map -/

@[simp] theorem showsValue_mapParts (f : Plan → Plan) (p : Plan) :
    (p.mapParts f).showsValue = p.showsValue := by
  cases p <;> rfl

@[simp] theorem shownValue_mapParts (f : Plan → Plan) (p : Plan) :
    (p.mapParts f).shownValue = p.shownValue := by
  cases p <;> rfl

/-- A node with mapped parts is rendered as before if each part is, and looks the same to it. -/
theorem KeepsRendering.fragment_mapParts {h : Plan → Plan} (hh : KeepsRendering h) {p : Plan}
    (hparts : ∀ c ∈ p.parts, ∀ pos, (h c.2).fragment pos = c.2.fragment pos) (pos : Position) :
    (p.mapParts h).fragment pos = p.fragment pos := by
  apply Sql.Fragment.ext_of_skeleton
  · exact hh.skeleton_fragment_mapParts (fun c hc pos => by rw [hparts c hc pos]) pos
  · have hshown : p.shownParts.flatMap (fun c => ((h c).fragment .operand).values)
        = p.shownParts.flatMap fun c => (c.fragment .operand).values := by
      refine List.flatMap_congr fun c hc => ?_
      obtain ⟨ρ, hc⟩ := exists_mem_parts_of_mem_shownParts hc
      rw [hparts (ρ, c) hc]
    rw [values_fragment_eq, values_fragment_eq pos p, showsValue_mapParts, shownValue_mapParts,
      hh.shownParts_mapParts, List.flatMap_map, hshown]

/-! ### Writing out -/

/-- An equality looks to the node around it as the synthetic condition does. -/
theorem keepsRendering_spellOut : KeepsRendering spellOut where
  standsUnderAlias p := by cases p <;> rfl
  isJoin p := by cases p <;> rfl
  isNullLiteral p := by cases p <;> rfl

/-- A synthetic condition is rendered as the equality that it is, if it has a value. -/
theorem fragment_spellNode {p : Plan} (hp : ∀ k, p ≠ tenantKey k .null) (pos : Position) :
    p.spellNode.fragment pos = p.fragment pos := by
  cases p with
  | tenantKey k v =>
    cases v with
    | null => exact absurd rfl (hp k)
    | _ => rfl
  | _ => rfl

/-- A plan is rendered as before when its synthetic conditions are written out. -/
theorem fragment_spellOut {p : Plan} (hp : ∀ k, tenantKey k .null ∉ p.nodes) (pos : Position) :
    p.spellOut.fragment pos = p.fragment pos := by
  induction p using inductionOnParts generalizing pos with
  | step p ih =>
    cases hs : p.isSynthetic with
    | true =>
      have hleaf : p.spellOut = p.spellNode := by
        cases p <;> first | rfl | simp [isSynthetic] at hs
      rw [hleaf]
      exact fragment_spellNode (fun k hk => hp k (hk ▸ p.self_mem_nodes)) pos
    | false =>
      rw [spellOut_eq hs]
      refine keepsRendering_spellOut.fragment_mapParts (fun c hc => ?_) pos
      exact ih c hc fun k hk => hp k (nodes_subset_of_mem_parts hc hk)

/-- The partition key of a tenant's rows is never compared with null. -/
theorem keyValue_ne_null (part : Partition) (t : Tenant) : part.keyValue t ≠ .null := by
  rw [Partition.keyValue]
  split
  · simp
  · split <;> simp

/-- **Synthetic conditions are rendered as the equalities that they are.** No condition that ties a
relation to a tenant compares with null. In a plan whose tenant conditions compare with no null, all
synthetic conditions are written out as equalities, wherever they stand. None is left then, and the
text with the values, the text with placeholders and the parameters are what they were. -/
theorem rendered_as_equalities :
    (∀ (part : Partition) (r : Relation) (t : Tenant) (k : Column),
      part.keyCondition r t ≠ tenantKey k .null) ∧
    ∀ p : Plan, (∀ k, tenantKey k .null ∉ p.nodes) →
      (∀ m ∈ p.spellOut.nodes, m.isSynthetic = false) ∧
      p.spellOut.toSql = p.toSql ∧
      p.spellOut.toBoundSql = p.toBoundSql ∧
      p.spellOut.parameters = p.parameters := by
  constructor
  · intro part r t k h
    rw [Partition.keyCondition, tenantKey.injEq] at h
    exact keyValue_ne_null part t h.2
  · intro p hp
    have hsame : p.spellOut.fragment .statement = p.fragment .statement :=
      fragment_spellOut hp .statement
    refine ⟨isSynthetic_spellOut p, ?_, ?_, ?_⟩
    · rw [toSql, hsame, ← toSql]
    · rw [toBoundSql, hsame, ← toBoundSql]
    · rw [parameters, hsame, ← parameters]

/-- Orders with their items, tied to one another under a negation, in a query that is restricted
and has a test for null. -/
def restrictedOrders : Plan :=
  let key : Column := ⟨⟨"orders", some "o"⟩, "tenant_id"⟩
  let other : Column := ⟨⟨"items", none⟩, "tenant_id"⟩
  select {
    source := some (join .left (aliased (table "orders") "o") (table "items")
      (some (not (and [keyLink other key, tenantKey other (.text "t1")]))))
    wheres := [tenantKey key (.text "t1"), equal (column other) (literal .null)] }

/-- Its three synthetic conditions are rendered as equalities. -/
theorem rendered_as_equalities_orders :
    (∀ k, tenantKey k .null ∉ restrictedOrders.nodes) ∧
      restrictedOrders.spellOut ≠ restrictedOrders ∧
      restrictedOrders.spellOut.toSql = restrictedOrders.toSql ∧
      restrictedOrders.spellOut.toBoundSql = restrictedOrders.toBoundSql ∧
      restrictedOrders.spellOut.parameters = restrictedOrders.parameters := by
  have hvalues : ∀ k, tenantKey k .null ∉ restrictedOrders.nodes := by
    simp [restrictedOrders, nodes, subnodes, subnodesAll, subnodesOption]
  obtain ⟨hplain, hsql, hbound, hparameters⟩ := rendered_as_equalities.2 restrictedOrders hvalues
  refine ⟨hvalues, fun hsame => ?_, hsql, hbound, hparameters⟩
  rw [hsame] at hplain
  have hkey := hplain (tenantKey ⟨⟨"orders", some "o"⟩, "tenant_id"⟩ (.text "t1")) (by
    simp [restrictedOrders, nodes, subnodes, subnodesAll, subnodesOption])
  simp [isSynthetic] at hkey

end Plan

end Tenancy
