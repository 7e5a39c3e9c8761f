import Tenancy.Proofs.Restrict.Placement
import Tenancy.Proofs.Restrict.Replacing
import Tenancy.Proofs.Restrict.Targets
import Tenancy.Proofs.Sql.Values
import Tenancy.Session

namespace Tenancy

/-!
# Templates — what a restricted plan shows of the tenant

* `Plan.rekey` — a plan with other values in its tenant conditions;
* `settle_rekey` — restricting for another tenant is giving the conditions other values;
* `toBoundSql_rekey`, `parameters_rekey` — the text with placeholders shows no tenant, and the
  parameters show it in the tenant conditions;
* `Template`, `Template.fill` — a plan with open tenant conditions, filled in for a tenant;
* `Template.Agree` — how the plans for two tenants compare in SQL;
* `tenant_shows_only_in_key_values` — restriction and building fill in one template for all tenants.
-/

namespace Plan

/-! ### Other values in tenant conditions -/

/-- A tenant condition with another value, which may depend on its key. -/
def rekeyNode (f : Column → Literal → Literal) : Plan → Plan
  | tenantKey k v => tenantKey k (f k v)
  | p => p

/-- The plan with other values in its tenant conditions. -/
def rekey (f : Column → Literal → Literal) : Plan → Plan := rewriteUp (rekeyNode f)

section

variable (f : Column → Literal → Literal)

theorem replacesLeaves_rekeyNode : ReplacesLeaves (rekeyNode f) where
  eq_self p hp := by
    cases p with
    | tenantKey k v => simp [isLeaf] at hp
    | _ => rfl
  leaf p hp := by
    cases p with
    | tenantKey k v => exact .inr ⟨rfl, rfl⟩
    | _ => exact .inl rfl

theorem isLeaf_rekeyNode (p : Plan) : (p.rekeyNode f).isLeaf = p.isLeaf := by
  cases p <;> rfl

theorem keepsFindings_rekeyNode (g : Partitioning) : KeepsFindings g (rekeyNode f) := by
  intro p reading _
  cases p <;> exact ⟨rfl, rfl⟩

theorem rekey_of_isLeaf_eq_false {p : Plan} (h : p.isLeaf = false) :
    p.rekey f = p.mapParts (rekey f) :=
  (replacesLeaves_rekeyNode f).rewriteUp_of_isLeaf_eq_false h

theorem rekey_of_isLeaf {p : Plan} (h : p.isLeaf = true) : p.rekey f = p.rekeyNode f :=
  rewriteUp_of_isLeaf _ h

/-- Where the conditions have these values already, nothing changes. -/
theorem rekey_of_forall {p : Plan} (h : ∀ k v, tenantKey k v ∈ p.nodes → f k v = v) :
    p.rekey f = p := by
  induction p using inductionOnParts with
  | step p ih =>
    cases hp : p.isLeaf with
    | true =>
      rw [rekey_of_isLeaf f hp]
      cases p with
      | tenantKey k v => rw [rekeyNode, h k v (self_mem_nodes _)]
      | _ => rfl
    | false =>
      have hparts : p.mapParts (rekey f) = p.mapParts fun c => c :=
        mapParts_congr fun c hc => ih c hc fun k v hm => h k v (nodes_subset_of_mem_parts hc hm)
      rw [rekey_of_isLeaf_eq_false f hp, hparts, mapParts_id]

/-- Restricting for another tenant is giving the conditions other values, if these are what the
partition keys of the other tenant's rows are equal to. -/
theorem settle_rekey {g g' : Partitioning} {t t' : Tenant}
    (hf : ∀ (r : Relation) part, g'.of? r.table = some part →
      f (r.column part.column) (part.keyValue t) = part.keyValue t')
    (inherited : List Relation) (p : Plan) :
    (p.rekey f).settle g g' (.ofTenant t') inherited
      = (p.settle g g' (.ofTenant t) inherited).rekey f := by
  have hreplaces := replacesLeaves_rekeyNode f
  refine hreplaces.settle_rewriteUp (keepsFindings_rekeyNode f g) hreplaces ?_ ?_ inherited p
  · intro p inherited hp
    have hleaf : (p.rekeyNode f).isLeaf = true := (isLeaf_rekeyNode f p).trans hp
    exact settle_of_owners_eq_nil _ _ _ _ (owners_of_isLeaf hleaf)
  · intro rs
    rw [Restriction.keyConditions, Restriction.keyConditions, List.map_filterMap]
    refine List.filterMap_congr fun r _ => ?_
    cases hpart : g'.of? r.table with
    | none => rfl
    | some part =>
      have hkey : (part.keyCondition r t).rewriteUp (rekeyNode f) = part.keyCondition r t' := by
        rw [rewriteUp_of_isLeaf _ rfl, Partition.keyCondition, rekeyNode, hf r part hpart]
        rfl
      simp [Access.ofTenant, hkey]

/-! ### What SQL shows -/

theorem keepsRendering_rekey : KeepsRendering (rekey f) where
  standsUnderAlias p := by cases p <;> rfl
  isJoin p := by cases p <;> rfl
  isNullLiteral p := by cases p <;> rfl

theorem skeleton_fragment_rekey (pos : Position) (p : Plan) :
    ((p.rekey f).fragment pos).skeleton = (p.fragment pos).skeleton := by
  induction p using inductionOnParts generalizing pos with
  | step p ih =>
    cases hp : p.isLeaf with
    | true =>
      rw [rekey_of_isLeaf f hp]
      cases p <;> rfl
    | false =>
      rw [rekey_of_isLeaf_eq_false f hp]
      exact (keepsRendering_rekey f).skeleton_fragment_mapParts (fun c hc pos => ih c hc pos) pos

/-- The text with placeholders does not depend on the values. -/
theorem toBoundSql_rekey (p : Plan) : (p.rekey f).toBoundSql = p.toBoundSql :=
  Sql.Fragment.bound_congr (skeleton_fragment_rekey f .statement p)

theorem valued_of_isLeaf {p : Plan} (h : p.isLeaf = true) :
    p.valued = if p.showsValue then [p] else [] := by
  have hnone : p.shownParts = [] := by cases p <;> first | rfl | simp [isLeaf] at h
  rw [valued_eq, hnone, List.flatMap_nil, List.append_nil]

/-- The values are shown by the same nodes, with other values in tenant conditions. -/
theorem valued_rekey (p : Plan) : (p.rekey f).valued = p.valued.map (rekeyNode f) := by
  induction p using inductionOnParts with
  | step p ih =>
    cases hp : p.isLeaf with
    | true =>
      have hleaf : (p.rekeyNode f).isLeaf = true := (isLeaf_rekeyNode f p).trans hp
      rw [rekey_of_isLeaf f hp, valued_of_isLeaf hleaf, valued_of_isLeaf hp]
      cases p <;> rfl
    | false =>
      have hshown : p.shownParts.flatMap (fun c => (c.rekey f).valued)
          = p.shownParts.flatMap fun c => c.valued.map (rekeyNode f) := by
        refine List.flatMap_congr fun c hc => ?_
        obtain ⟨ρ, hc⟩ := exists_mem_parts_of_mem_shownParts hc
        exact ih (ρ, c) hc
      have hvalue : ∀ q : Plan, q.isLeaf = false → q.valued = q.shownParts.flatMap valued := by
        intro q hq
        rw [valued_eq]
        cases q with
        | literal | tenantKey => simp [isLeaf] at hq
        | _ => rfl
      rw [rekey_of_isLeaf_eq_false f hp, hvalue _ (by rw [isLeaf_mapParts, hp]), hvalue p hp,
        (keepsRendering_rekey f).shownParts_mapParts, List.flatMap_map, hshown, List.map_flatMap]

theorem mem_nodes_of_mem_valued {p c : Plan} (h : c ∈ p.valued) : c ∈ p.nodes := by
  induction p using inductionOnParts with
  | step p ih =>
    rw [valued_eq] at h
    rcases List.mem_append.1 h with h | h
    · split at h
      · rw [List.mem_singleton.1 h]
        exact self_mem_nodes p
      · simp at h
    · obtain ⟨d, hd, hc⟩ := List.mem_flatMap.1 h
      obtain ⟨ρ, hd⟩ := exists_mem_parts_of_mem_shownParts hd
      exact nodes_subset_of_mem_parts hd (ih (ρ, d) hd hc)

theorem parameters_rekey (p : Plan) :
    (p.rekey f).parameters = p.valued.map fun c => (c.rekeyNode f).shownValue := by
  rw [parameters_eq, valued_rekey, List.map_map]
  rfl

end

/-! ### Mutations -/

/-- What is prepared for one tenant is prepared for another one, once the condition for the target
has the other value. -/
theorem rekey_guardTarget {f : Column → Literal → Literal} {g : Partitioning} {t t' : Tenant}
    (hf : ∀ (r : Relation) part, g.of? r.table = some part →
      f (r.column part.column) (part.keyValue t) = part.keyValue t')
    {p : Plan} (hp : p.rekey f = p) :
    (p.guardTarget g (.ofTenant t)).rekey f = p.guardTarget g (.ofTenant t') := by
  cases htarget : p.target? with
  | none =>
    rw [guardTarget_eq, guardTarget_eq, withWheres_of_target?_eq_none htarget,
      withWheres_of_target?_eq_none htarget, hp]
  | some target =>
    have hleaf : ∀ q : Plan, q.target?.isSome → q.isLeaf = false := by
      intro q hq
      cases q <;> first | rfl | simp [target?] at hq
    have hsome : p.target?.isSome := by rw [htarget, Option.isSome_some]
    have hmapped : p.mapParts (rekey f) = p :=
      (rekey_of_isLeaf_eq_false f (hleaf p hsome)).symm.trans hp
    have hwheres : p.mutationWheres.map (rekey f) = p.mutationWheres := by
      rw [← mutationWheres_mapParts, hmapped]
    have hkeys : (p.missingKey? g (.ofTenant t)).toList.map (rekey f)
        = (p.missingKey? g (.ofTenant t')).toList := by
      cases hopen : p.openTarget? g with
      | none => simp [missingKey?, Access.ofTenant, hopen]
      | some x =>
        have hkey : (x.2.keyCondition x.1 t).rekey f = x.2.keyCondition x.1 t' := by
          rw [rekey_of_isLeaf f rfl, Partition.keyCondition, rekeyNode,
            hf x.1 x.2 (of?_of_openTarget? hopen)]
          rfl
        simp [missingKey?, Access.ofTenant, hopen, hkey]
    rw [guardTarget_eq, guardTarget_eq, rekey_of_isLeaf_eq_false f (hleaf _ (by simpa)),
      mapParts_withWheres, hmapped, List.map_append, hwheres, hkeys]

/-! ### Added conditions -/

/-- The plan `q` has the tenant conditions of `p` and added ones, each for the key of a tenant table
and for the tenant `t`. -/
def AddsKeys (g : Partitioning) (t : Tenant) (p q : Plan) : Prop :=
  ∃ added : List Plan, (∀ c ∈ added, ∃ (r : Relation) (part : Partition),
    g.of? r.table = some part ∧ c = part.keyCondition r t) ∧
    q.tenantKeys.Perm (added ++ p.tenantKeys)

theorem AddsKeys.refl (g : Partitioning) (t : Tenant) (p : Plan) : AddsKeys g t p p :=
  ⟨[], by simp, .refl _⟩

theorem AddsKeys.trans {g : Partitioning} {t : Tenant} {p q r : Plan} (h : AddsKeys g t p q)
    (h' : AddsKeys g t q r) : AddsKeys g t p r := by
  obtain ⟨cs, hcs, hq⟩ := h
  obtain ⟨ds, hds, hr⟩ := h'
  refine ⟨ds ++ cs, fun c hc => ?_, ?_⟩
  · rcases List.mem_append.1 hc with hc | hc
    · exact hds c hc
    · exact hcs c hc
  · rw [List.append_assoc]
    exact hr.trans (hq.append_left ds)

theorem addsKeys_settle (g : Partitioning) (t : Tenant) (p : Plan) :
    AddsKeys g t p (p.settle g g (.ofTenant t) []) := by
  have himpose : p.settle g g (.ofTenant t) [] = (p.impose (due g (.ofTenant t) p) 0).value :=
    Except.ok.inj ((value_restrict_eq_settle g rfl p).symm.trans (value_restrict g rfl p))
  refine ⟨_, fun c hc => ?_, himpose ▸ perm_tenantKeys_impose (due g (.ofTenant t) p) 0 p⟩
  obtain ⟨n, -, hc⟩ := List.mem_flatMap.1 hc
  obtain ⟨r, -, hc⟩ := List.mem_filterMap.1 hc
  cases hpart : g.of? r.table with
  | none => simp [due, hpart] at hc
  | some part => exact ⟨r, part, hpart, by simpa [due, hpart, Access.ofTenant] using hc.symm⟩

theorem addsKeys_guardTarget (g : Partitioning) (t : Tenant) (p : Plan) :
    AddsKeys g t p (p.guardTarget g (.ofTenant t)) := by
  cases hmissing : p.missingKey? g (.ofTenant t) with
  | none =>
    rw [guardTarget_of_missingKey?_eq_none hmissing]
    exact .refl g t p
  | some c =>
    obtain ⟨r, part, t', hpart, ht, rfl⟩ := exists_keyCondition_of_missingKey? hmissing
    obtain rfl : t = t' := Option.some.inj ht
    have hadded : ∀ ws : List Plan, (ws ++ [part.keyCondition r t]).flatMap tenantKeys
        = ws.flatMap tenantKeys ++ [part.keyCondition r t] := fun ws => List.flatMap_append
    have hpicked : ∀ {q : Plan}, q.isLeaf = false →
        q.tenantKeys = q.parts.flatMap (·.2.tenantKeys) := picksLeaves_isTenantKey.picked_eq
    refine ⟨[part.keyCondition r t], fun c hc => ⟨r, part, hpart, List.mem_singleton.1 hc⟩, ?_⟩
    rw [guardTarget_eq, hmissing, Option.toList_some]
    cases p with
    | update target assignments ws =>
      rw [withWheres, mutationWheres, hpicked rfl, hpicked (q := update target assignments ws) rfl]
      simp only [parts, List.flatMap_append, List.flatMap_map, hadded, ← List.append_assoc]
      exact List.perm_append_comm
    | delete target ws =>
      rw [withWheres, mutationWheres, hpicked rfl, hpicked (q := delete target ws) rfl]
      simp only [parts, List.flatMap_cons, List.flatMap_map, hadded, ← List.append_assoc]
      exact List.perm_append_comm
    | _ => simp [missingKey?, openTarget?, guarded?, target?] at hmissing

end Plan

/-! ### Templates -/

/-- A plan in which some tenant conditions are open. Their value is a text that stands for the value
of any tenant. -/
structure Template where
  /-- The plan. -/
  plan : Plan
  /-- The text that stands for the value. -/
  blank : String

namespace Template

open Plan (tenantKey)

/-- Is the node an open tenant condition? -/
def isOpen (T : Template) : Plan → Bool
  | .tenantKey _ v => v = .text T.blank
  | _ => false

/-- The value of a tenant condition once the template is filled in. An open one has the value that
the partition key of the tenant's rows is equal to. -/
def valueFor (T : Template) (g : Partitioning) (t : Tenant) (k : Column) (v : Literal) : Literal :=
  if v = .text T.blank then (g.of? k.relation.table).elim v (·.keyValue t) else v

/-- The template filled in for a tenant. -/
def fill (T : Template) (g : Partitioning) (t : Tenant) : Plan := T.plan.rekey (T.valueFor g t)

/-- The plans that `run` makes of `p` are one template, filled in for the tenant. The plan itself
has no open tenant conditions. Those of the template are for partition keys, and its other tenant
conditions are those of the plan. -/
structure Serves (T : Template) (g : Partitioning) (p : Plan)
    (run : Tenant → Except ScopeError Plan) : Prop where
  plain : ∀ c ∈ p.nodes, T.isOpen c = false
  keys : ∀ c ∈ T.plan.nodes, T.isOpen c = true → ∃ (r : Relation) (part : Partition),
    g.of? r.table = some part ∧ c = tenantKey (r.column part.column) (.text T.blank)
  others : (T.plan.tenantKeys.filter (!T.isOpen ·)).Perm p.tenantKeys
  filled : ∀ t, run t = .ok (T.fill g t)

/-! ### A text for the open value -/

/-- A text of crosses, which is no number. -/
private def crosses (n : Nat) : String := .ofList ('x' :: .replicate n 'x')

private theorem keyValue_crosses (part : Partition) (n : Nat) :
    part.keyValue ⟨crosses n⟩ = .text (crosses n) := by
  have hsigned : Numeral.signed? (crosses n).toList = none := by
    rw [crosses, String.toList_ofList]
    simp [Numeral.signed?, Numeral.natural?, Char.isDigit]
  rw [Partition.keyValue]
  split
  · rfl
  · rw [hsigned, Option.bind_none]

/-- A text of crosses that is long enough is none of several values. -/
private theorem exists_forall_ne_crosses (vs : List Literal) :
    ∃ n, ∀ m, n ≤ m → ∀ v ∈ vs, v ≠ .text (crosses m) := by
  induction vs with
  | nil => exact ⟨0, by simp⟩
  | cons v vs ih =>
    obtain ⟨n, hn⟩ := ih
    have hv : ∃ n, ∀ m, n ≤ m → v ≠ .text (crosses m) := by
      cases v with
      | text s =>
        refine ⟨s.toList.length, fun m hm heq => ?_⟩
        have hlength : s.toList.length = m + 1 := by
          rw [Literal.text.inj heq, crosses, String.toList_ofList]
          simp
        omega
      | _ => exact ⟨0, fun _ _ => by simp⟩
    obtain ⟨n', hn'⟩ := hv
    refine ⟨max n n', fun m hm w hw => ?_⟩
    rcases List.mem_cons.1 hw with rfl | hw
    · exact hn' m (by omega)
    · exact hn m (by omega) w hw

/-- There is a text that is no number and the value of no tenant condition of a plan. -/
theorem exists_blank (p : Plan) : ∃ blank : String,
    (∀ part : Partition, part.keyValue ⟨blank⟩ = .text blank) ∧
      ∀ k v, tenantKey k v ∈ p.nodes → v ≠ .text blank := by
  obtain ⟨n, hn⟩ := exists_forall_ne_crosses (p.nodes.map Plan.shownValue)
  refine ⟨crosses n, fun part => keyValue_crosses part n, fun k v hc => ?_⟩
  exact hn n (Nat.le_refl n) v (List.mem_map.2 ⟨_, hc, rfl⟩)

/-! ### Restriction fills in a template -/

theorem valueFor_keyValue (T : Template) {g : Partitioning} (t : Tenant) {r : Relation}
    {part : Partition} (hpart : g.of? r.table = some part) :
    T.valueFor g t (r.column part.column) (.text T.blank) = part.keyValue t := by
  have htable : g.of? (r.column part.column).relation.table = some part := hpart
  rw [valueFor, if_pos rfl, htable, Option.elim_some]

theorem rekey_valueFor {T : Template} {p : Plan}
    (h : ∀ k v, tenantKey k v ∈ p.nodes → v ≠ .text T.blank) (g : Partitioning) (t : Tenant) :
    p.rekey (T.valueFor g t) = p :=
  Plan.rekey_of_forall _ fun k v hc => if_neg (h k v hc)

/-- What is prepared of a plan and then restricted is one template for all tenants, if all that the
preparation says of the tenant are tenant conditions. -/
theorem exists_serves {g : Partitioning} {p : Plan} {prepare : Tenant → Plan}
    {run : Tenant → Except ScopeError Plan}
    (hrun : ∀ t, run t = .ok ((prepare t).settle g g (.ofTenant t) []))
    (hprepare : ∀ {f : Column → Literal → Literal} {t t' : Tenant},
      (∀ (r : Relation) part, g.of? r.table = some part →
        f (r.column part.column) (part.keyValue t) = part.keyValue t') →
      p.rekey f = p → (prepare t).rekey f = prepare t')
    (hadds : ∀ t, Plan.AddsKeys g t p (prepare t)) : ∃ T : Template, T.Serves g p run := by
  obtain ⟨blank, hkey, hfresh⟩ := exists_blank p
  set T : Template := ⟨(prepare ⟨blank⟩).settle g g (.ofTenant ⟨blank⟩) [], blank⟩ with hT
  have hclosed : ∀ c ∈ p.nodes, T.isOpen c = false := by
    intro c hc
    cases c with
    | tenantKey k v => exact decide_eq_false (hfresh k v hc)
    | _ => rfl
  obtain ⟨added, hadded, hperm⟩ := (hadds ⟨blank⟩).trans (Plan.addsKeys_settle g ⟨blank⟩ _)
  have hopen : ∀ c ∈ added, ∃ (r : Relation) (part : Partition),
      g.of? r.table = some part ∧ c = tenantKey (r.column part.column) (.text blank) := by
    intro c hc
    obtain ⟨r, part, hpart, rfl⟩ := hadded c hc
    exact ⟨r, part, hpart, by rw [Partition.keyCondition, hkey]⟩
  refine ⟨T, hclosed, fun c hc ho => ?_, ?_, fun t => ?_⟩
  · -- An open condition is one of the added ones.
    have hmem : c ∈ T.plan.tenantKeys := by
      refine List.mem_filter.2 ⟨hc, ?_⟩
      cases c with
      | tenantKey k v => rfl
      | _ => simp [isOpen] at ho
    rcases List.mem_append.1 (hperm.mem_iff.1 hmem) with hc | hc
    · exact hopen c hc
    · rw [hclosed c (List.mem_filter.1 hc).1] at ho
      simp at ho
  · have hnone : added.filter (!T.isOpen ·) = [] := by
      refine List.filter_eq_nil_iff.2 fun c hc => ?_
      obtain ⟨r, part, -, rfl⟩ := hopen c hc
      simp [isOpen, hT]
    have hall : p.tenantKeys.filter (!T.isOpen ·) = p.tenantKeys := by
      refine List.filter_eq_self.2 fun c hc => ?_
      rw [hclosed c (List.mem_filter.1 hc).1]
      rfl
    have hfilter := hperm.filter (!T.isOpen ·)
    rwa [List.filter_append, hnone, hall, List.nil_append] at hfilter
  · have hvalue : ∀ (r : Relation) part, g.of? r.table = some part →
        T.valueFor g t (r.column part.column) (part.keyValue ⟨blank⟩) = part.keyValue t := by
      intro r part hpart
      rw [hkey]
      exact T.valueFor_keyValue t hpart
    rw [hrun, ← hprepare hvalue (rekey_valueFor hfresh g t), Plan.settle_rekey _ hvalue]
    rfl

/-! ### Two tenants -/

/-- How the plans `q₁` and `q₂` that a template is filled in to for two tenants compare in SQL: one
text with placeholders, and parameters that differ only where an open condition shows its value. -/
structure Agree (T : Template) (g : Partitioning) (t₁ t₂ : Tenant) (q₁ q₂ : Plan) : Prop where
  text : q₁.toBoundSql = q₂.toBoundSql
  length₁ : q₁.parameters.length = T.plan.valued.length
  length₂ : q₂.parameters.length = T.plan.valued.length
  same : ∀ (i : Nat) c, T.plan.valued[i]? = some c → T.isOpen c = false →
    q₁.parameters[i]? = q₂.parameters[i]?
  differ : ∀ (i : Nat) c, T.plan.valued[i]? = some c → T.isOpen c = true →
    ∃ (r : Relation) (part : Partition), g.of? r.table = some part ∧
      c = tenantKey (r.column part.column) (.text T.blank) ∧
      q₁.parameters[i]? = some (part.keyValue t₁) ∧ q₂.parameters[i]? = some (part.keyValue t₂)

theorem getElem?_parameters_fill (T : Template) (g : Partitioning) (t : Tenant) {i : Nat} {c : Plan}
    (hc : T.plan.valued[i]? = some c) :
    (T.fill g t).parameters[i]? = some (c.rekeyNode (T.valueFor g t)).shownValue := by
  rw [fill, Plan.parameters_rekey, List.getElem?_map, hc, Option.map_some]

theorem rekeyNode_of_isOpen_eq_false {T : Template} {c : Plan} (h : T.isOpen c = false)
    (g : Partitioning) (t : Tenant) : c.rekeyNode (T.valueFor g t) = c := by
  cases c with
  | tenantKey k v => rw [Plan.rekeyNode, valueFor, if_neg (of_decide_eq_false h)]
  | _ => rfl

theorem Serves.agree {T : Template} {g : Partitioning} {p : Plan}
    {run : Tenant → Except ScopeError Plan} (h : T.Serves g p run) (t₁ t₂ : Tenant) :
    T.Agree g t₁ t₂ (T.fill g t₁) (T.fill g t₂) where
  text := by rw [fill, fill, Plan.toBoundSql_rekey, Plan.toBoundSql_rekey]
  length₁ := by rw [fill, Plan.parameters_rekey, List.length_map]
  length₂ := by rw [fill, Plan.parameters_rekey, List.length_map]
  same i c hc ho := by
    rw [getElem?_parameters_fill T g t₁ hc, getElem?_parameters_fill T g t₂ hc,
      rekeyNode_of_isOpen_eq_false ho, rekeyNode_of_isOpen_eq_false ho]
  differ i c hc ho := by
    have hnode : c ∈ T.plan.nodes := Plan.mem_nodes_of_mem_valued (List.mem_of_getElem? hc)
    obtain ⟨r, part, hpart, rfl⟩ := h.keys c hnode ho
    have hvalue : ∀ t, (T.fill g t).parameters[i]? = some (part.keyValue t) := by
      intro t
      rw [getElem?_parameters_fill T g t hc, Plan.rekeyNode, T.valueFor_keyValue t hpart]
      rfl
    exact ⟨r, part, hpart, rfl, hvalue t₁, hvalue t₂⟩

end Template

/-- **The tenant has no say in the shape of a query.** For each plan there is a template that
restricting the plan fills in for the tenant, whoever it is, and one that building it in a session
fills in. The open conditions of a template are those that the pass has added. So for two tenants
the text with placeholders is the same, and there are as many parameters. They are equal, except
where an added condition has the value for the one tenant and for the other one. -/
theorem tenant_shows_only_in_key_values (s : Session) (p : Plan) :
    let g := s.partitioning
    (∃ T : Template, T.Serves g p (fun t => (p.restrict g (.ofTenant t)).value) ∧
      ∀ t₁ t₂, T.Agree g t₁ t₂ (T.fill g t₁) (T.fill g t₂)) ∧
    ∃ T : Template, T.Serves g p (fun t => (s.build (.ofTenant t) p).value) ∧
      ∀ t₁ t₂, T.Agree g t₁ t₂ (T.fill g t₁) (T.fill g t₂) := by
  intro g
  have hrestrict : ∀ (q : Plan) (t : Tenant),
      (q.restrict g (.ofTenant t)).value = .ok (q.settle g g (.ofTenant t) []) :=
    fun q t => Plan.value_restrict_eq_settle g rfl q
  constructor
  · obtain ⟨T, hT⟩ := Template.exists_serves (hrestrict p) (fun _ hp => hp) fun t =>
      .refl g t p
    exact ⟨T, hT, hT.agree⟩
  · have hbuild : ∀ t, (s.build (.ofTenant t) p).value
        = .ok ((p.guardTarget g (.ofTenant t)).settle g g (.ofTenant t) []) := fun t =>
      (Plan.value_secure g (.ofTenant t) p).trans (hrestrict _ t)
    obtain ⟨T, hT⟩ := Template.exists_serves hbuild
      (fun hf hp => Plan.rekey_guardTarget hf hp) fun t => Plan.addsKeys_guardTarget g t p
    exact ⟨T, hT, hT.agree⟩

end Tenancy
