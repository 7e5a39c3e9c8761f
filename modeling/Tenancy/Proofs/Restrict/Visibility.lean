import Tenancy.Proofs.Restrict.Mutations
import Tenancy.Proofs.Restrict.Trees
import Tenancy.Proofs.Scope.Regions

namespace Tenancy

/-!
# Visibility — synthetic conditions name relations that they can see

* `Plan.conditions`, `Plan.besides` — the `WHERE` or the `ON` of a node, and its other parts;
* `Plan.Sees` — what a synthetic condition in the `WHERE` or the `ON` of a node may name;
* `Plan.InSight` — a plan whose synthetic conditions stand there and name nothing else;
* `InSight.link`, `InSight.enforce` — links are in sight, and so are the tenant conditions of what
  the node sees;
* `Plan.isSource` — a source of tables, queries and joins, which reads the relations of its tree;
* `restrict_names_visible_relations` — the synthetic conditions of a restricted plan are in sight.
-/

namespace Plan

/-! ### Places of synthetic conditions -/

/-- The conditions of a node that enforcement adds to. -/
def conditions : Plan → List Plan
  | select q => q.wheres
  | join _ _ _ on => on.toList
  | _ => []

/-- The other parts of a node. -/
def besides : Plan → List Plan
  | select q =>
    q.source.toList ++ q.projections ++ q.groups ++ q.windows ++ q.having.toList ++ q.orders
  | join _ l r _ => [l, r]
  | p => p.parts.map (·.2)

theorem mem_parts_iff {p c : Plan} :
    c ∈ p.parts.map (·.2) ↔ c ∈ p.conditions ∨ c ∈ p.besides := by
  cases p with
  | select q =>
    simp [parts, conditions, besides, Function.comp_def]
    tauto
  | join kind l r on =>
    simp [parts, conditions, besides, Function.comp_def]
    tauto
  | _ => simp [conditions, besides]

/-- May the synthetic condition stand among the conditions of the node? The tenant condition of a
`SELECT` is for a relation of its source, that of an outer join for a relation of one of its sides,
and a link ties a relation on the right of a join to one on the left. The relations of a tree are
those that it refers to as tables itself: neither those of a query inside or around it nor those of
another tree are among them. -/
def Sees : Plan → Plan → Prop
  | select q, tenantKey k _ => ∃ s ∈ q.source, k.relation ∈ s.relations
  | join kind l r _, tenantKey k _ =>
    kind.isOuter = true ∧ (k.relation ∈ l.relations ∨ k.relation ∈ r.relations)
  | join _ l r _, keyLink k o => k.relation ∈ r.relations ∧ o.relation ∈ l.relations
  | _, _ => False

/-- Places that are right for no synthetic condition. -/
def nowhere : Plan → Prop := fun _ => False

/-- The synthetic conditions of the plan are in sight of what they name: each stands in the `WHERE`
of a `SELECT` or the `ON` of a join, in conjunctions alone, and names what this node sees. Where the
plan itself stands, `here` says which ones may stand. -/
inductive InSight : (here : Plan → Prop) → Plan → Prop
  /-- A synthetic condition. -/
  | clause {here : Plan → Prop} {c : Plan} : c.isSynthetic = true → here c → InSight here c
  /-- A conjunction stands where its parts stand. -/
  | and {here : Plan → Prop} {ps : List Plan} : (∀ p ∈ ps, InSight here p) → InSight here (and ps)
  /-- Any other node. -/
  | node {here : Plan → Prop} {p : Plan} : p.isSynthetic = false → p.isAnd = false →
    (∀ c ∈ p.conditions, InSight p.Sees c) → (∀ c ∈ p.besides, InSight nowhere c) →
    InSight here p

variable {g : Partitioning} {here : Plan → Prop}

theorem inSight_and (ps : List Plan) : (and ps).InSight here ↔ ∀ p ∈ ps, p.InSight here := by
  constructor
  · intro h
    cases h with
    | clause hs => simp [isSynthetic] at hs
    | and hps => exact hps
    | node _ hand => simp [isAnd] at hand
  · exact .and

theorem inSight_iff {p : Plan} (hs : p.isSynthetic = false) (hand : p.isAnd = false) :
    p.InSight here ↔
      (∀ c ∈ p.conditions, c.InSight p.Sees) ∧ ∀ c ∈ p.besides, c.InSight nowhere := by
  constructor
  · intro h
    cases h with
    | clause hs' => simp [hs] at hs'
    | and => simp [isAnd] at hand
    | node _ _ hconditions hbesides => exact ⟨hconditions, hbesides⟩
  · rintro ⟨hconditions, hbesides⟩
    exact .node hs hand hconditions hbesides

theorem inSight_join {kind : JoinKind} {l r : Plan} {on : Option Plan} :
    (join kind l r on).InSight here ↔ l.InSight nowhere ∧ r.InSight nowhere ∧
      ∀ c ∈ on.toList, c.InSight (join kind l r on).Sees := by
  rw [inSight_iff rfl rfl, and_comm, ← and_assoc]
  simp [conditions, besides]

theorem InSight.part {p : Plan} (h : p.InSight here) {c : Role × Plan} (hc : c ∈ p.parts) :
    ∃ here', c.2.InSight here' := by
  cases h with
  | clause hs => cases p <;> simp [isSynthetic, parts] at hs hc
  | and hps =>
    obtain ⟨q, hq, rfl⟩ := List.mem_map.1 hc
    exact ⟨here, hps q hq⟩
  | node _ _ hconditions hbesides =>
    rcases mem_parts_iff.1 (List.mem_map_of_mem hc) with hc | hc
    · exact ⟨_, hconditions _ hc⟩
    · exact ⟨_, hbesides _ hc⟩

theorem InSight.of_mem_nodes {p q : Plan} (h : p.InSight here) (hq : q ∈ p.nodes) :
    ∃ here', q.InSight here' := by
  induction p using inductionOnParts generalizing here with
  | step p ih =>
    rw [nodes_eq, List.mem_cons, List.mem_flatMap] at hq
    rcases hq with rfl | ⟨c, hc, hq⟩
    · exact ⟨here, h⟩
    · obtain ⟨here', hpart⟩ := h.part hc
      exact ih c hc hpart hq

theorem InSight.of_mem_conjuncts {p c : Plan} (h : p.InSight here) (hc : c ∈ p.conjuncts)
    (hs : c.isSynthetic = true) : here c := by
  have hconjunct : c.InSight here := (forall_conjuncts_iff inSight_and p).2 h c hc
  cases hconjunct with
  | clause _ hhere => exact hhere
  | and => simp [isSynthetic] at hs
  | node hs' => simp [hs] at hs'

/-- The synthetic conditions in a `WHERE` or an `ON` of the plan name what its node sees. -/
theorem InSight.sees {p m c d : Plan} (h : p.InSight here) (hm : m ∈ p.nodes)
    (hc : c ∈ m.conditions) (hd : d ∈ c.conjuncts) (hs : d.isSynthetic = true) : m.Sees d := by
  obtain ⟨here', hm⟩ := h.of_mem_nodes hm
  have hplain : m.isSynthetic = false ∧ m.isAnd = false := by
    cases m <;> first | exact ⟨rfl, rfl⟩ | simp [conditions] at hc
  exact (((inSight_iff hplain.1 hplain.2).1 hm).1 c hc).of_mem_conjuncts hd hs

/-! ### What is added is in sight -/

theorem sees_join_congr {kind : JoinKind} {l l' r r' : Plan} {on on' : Option Plan}
    (hl : l'.relations = l.relations) (hr : r'.relations = r.relations) :
    (join kind l' r' on').Sees = (join kind l r on).Sees := by
  funext c
  cases c <;> simp [Sees, hl, hr]

theorem sees_select_congr {q q' : Query Plan} {f : Plan → Plan}
    (hsource : q'.source = q.source.map f)
    (hf : ∀ s ∈ q.source, (f s).relations = s.relations) : (select q').Sees = (select q).Sees := by
  funext c
  cases c with
  | tenantKey k v =>
    simp only [Sees, hsource]
    cases hs : q.source with
    | none => simp
    | some s => simp [hf s hs]
  | _ => rfl

/-- A link that is due leads from a relation on the right of its join to one on the left. -/
theorem sees_of_missingLink? {key other : Column} {kind : JoinKind} {l r : Plan} {on : Option Plan}
    (h : missingLink? g key l r on = some other) : (join kind l r on).Sees (keyLink key other) := by
  obtain ⟨hleftmost, hanchor⟩ := of_missingLink?_eq_some h
  obtain ⟨s, hs, hkey⟩ := exists_mem_relations_of_anchor? hanchor
  obtain ⟨part, -, rfl⟩ := Option.map_eq_some_iff.1 hkey
  exact ⟨mem_relations_of_leftmost hleftmost, hs⟩

theorem InSight.link (key : Column) {p : Plan} (h : p.InSight here) :
    (p.link g key).value.InSight here := by
  induction p using link.induct generalizing here with
  | case1 kind l r on ihl ihr =>
    obtain ⟨hl, hr, hon⟩ := inSight_join.1 h
    rw [value_link_join, inSight_join,
      sees_join_congr (relations_link g key l) (relations_link g key r)]
    refine ⟨ihl hl, ihr hr, ((adds_linkedOn g key _ _ on).forall_iff inSight_and).2 ⟨hon, ?_⟩⟩
    intro c hc
    obtain ⟨other, hother, rfl⟩ := List.mem_map.1 hc
    rw [missingLink?_link, Option.mem_toList] at hother
    exact .clause rfl (sees_of_missingLink? hother)
  | case2 p hp => rwa [link_of_not_join g key hp]

theorem InSight.linkAll (keys : List Column) {p : Plan} (h : p.InSight here) :
    (linkAll g keys p).value.InSight here :=
  linkAll_induction h fun _ _ _ hq => hq.link _

/-- What is enforced at a scope node is in sight if the node sees what its conditions are for. -/
theorem InSight.enforce {e : Restriction} {n : Nat} {p : Plan} (h : p.InSight here)
    (hsees : p.owner?.isSome → ∀ c ∈ e.keyConditions n, p.Sees c) :
    (p.enforce e n).InSight here := by
  have hclauses : p.owner?.isSome → ∀ c ∈ e.keyConditions n, c.InSight p.Sees := fun ho c hc =>
    .clause (isSynthetic_keyConditions e n c hc) (hsees ho c hc)
  cases p with
  | select q =>
    obtain ⟨hwheres, hbesides⟩ := (inSight_iff rfl rfl).1 h
    have hsame : ((select q).enforce e n).Sees = (select q).Sees :=
      sees_select_congr rfl fun s _ => relations_linkAll (e.linkKeys n) s
    rw [inSight_iff rfl rfl, hsame]
    refine ⟨((adds_addWheres _ q.wheres).forall_iff inSight_and).2 ⟨hwheres, hclauses rfl⟩, ?_⟩
    simp only [Plan.enforce, besides, List.forall_mem_append] at hbesides ⊢
    obtain ⟨⟨⟨⟨⟨hsource, hps⟩, hgs⟩, hvs⟩, hhaving⟩, hos⟩ := hbesides
    refine ⟨⟨⟨⟨⟨fun s hs => ?_, hps⟩, hgs⟩, hvs⟩, hhaving⟩, hos⟩
    obtain ⟨t, ht, rfl⟩ := Option.map_eq_some_iff.1 (Option.mem_toList.1 hs)
    exact (hsource t (Option.mem_toList.2 ht)).linkAll _
  | join kind l r on =>
    cases ho : kind.isOuter with
    | false => rwa [enforce_of_not_owner e n (by simp [owner?, ho])]
    | true =>
      obtain ⟨hl, hr, hon⟩ := inSight_join.1 h
      rw [Plan.enforce, if_pos ho, inSight_join,
        sees_join_congr (relations_linkAll _ l) (relations_linkAll _ r)]
      exact ⟨hl.linkAll _, hr.linkAll _, ((adds_addOn _ on).forall_iff inSight_and).2
        ⟨hon, hclauses (by simp [owner?, ho])⟩⟩
  | _ => exact h

/-! ### Sources -/

/-- Is the node a `SELECT` or a `UNION` of such queries? -/
def isQueryTree : Plan → Bool
  | select _ => true
  | union _ l r => l.isQueryTree && r.isQueryTree
  | _ => false

/-- Is the source made of tables, queries, tables and queries under an alias, parentheses and
joins? -/
def isSource : Plan → Bool
  | table _ | aliased (table _) _ => true
  | aliased q _ => q.isQueryTree
  | group p => p.isSource
  | join _ l r _ => l.isSource && r.isSource
  | p => p.isQueryTree

/-- A query keeps to itself what it reads. -/
theorem seen_of_isQueryTree {p : Plan} (h : p.isQueryTree = true) (reading : Reading) :
    (p.survey g reading).seen = [] := by
  induction p using isQueryTree.induct with
  | case1 q => rfl
  | case2 all l r ihl ihr =>
    rw [isQueryTree, Bool.and_eq_true] at h
    rw [survey, Findings.seen_append, ihl h.1, ihr h.2, List.append_nil]
  | case3 p hselect hunion =>
    cases p with
    | select q => exact absurd rfl (hselect q)
    | union all l r => exact absurd rfl (hunion all l r)
    | _ => simp [isQueryTree] at h

theorem seen_reference_subset (r : Relation) : (Findings.reference g .source r).seen ⊆ [r] := by
  rw [Findings.reference]
  split
  · exact List.Subset.refl _
  · exact List.nil_subset _

/-- A source reads relations of its tree and no others. -/
theorem seen_subset_relations {p : Plan} (h : p.isSource = true) :
    (p.survey g .source).seen ⊆ p.relations := by
  induction p using inductionOnTree with
  | join kind l r on ihl ihr =>
    rw [isSource, Bool.and_eq_true] at h
    cases ho : kind.isOuter with
    | true =>
      rw [survey_of_owner (o := .outerJoin) (by simp [owner?, ho])]
      exact List.nil_subset _
    | false =>
      have hon : (surveyOption g .condition on).seen = [] := by
        cases on with
        | none => rfl
        | some c => exact seen_eq_nil rfl c
      rw [survey, ho, if_neg Bool.false_ne_true, Findings.seen_append, hon, List.append_nil,
        Findings.seen_append]
      exact List.append_subset.2 ⟨List.subset_append_of_subset_left _ (ihl h.1),
        List.subset_append_of_subset_right _ (ihr h.2)⟩
  | group p ih => exact ih h
  | leaf p hleaf =>
    have hunion : ∀ {all : Bool} {l r : Plan}, (union all l r).isQueryTree = true →
        ∀ rs : List Relation, ((union all l r).survey g .source).seen ⊆ rs := fun h rs => by
      rw [seen_of_isQueryTree h]
      exact List.nil_subset rs
    cases p with
    | table name => exact seen_reference_subset _
    | aliased q a =>
      cases q with
      | table name => exact seen_reference_subset _
      | select q => exact List.nil_subset _
      | union all l r => exact hunion h _
      | _ => simp [isSource, isQueryTree] at h
    | select q => exact List.nil_subset _
    | union all l r => exact hunion h _
    | join | group => simp [isBranch] at hleaf
    | _ => simp [isSource, isQueryTree] at h

theorem relations_enforce (e : Restriction) (n : Nat) (p : Plan) :
    (p.enforce e n).relations = p.relations := by
  cases p with
  | join kind l r on =>
    rw [enforce]
    split
    · rw [relations, relations, relations_linkAll, relations_linkAll]
    · rfl
  | _ => rfl

theorem relations_settle (g g' : Partitioning) (access : Access) (inherited : List Relation)
    (p : Plan) : (p.settle g g' access inherited).relations = p.relations := by
  induction p using inductionOnTree generalizing inherited with
  | join kind l r on ihl ihr =>
    rw [settle_eq, relations_enforce, mapParts, relations, relations, ihl, ihr]
  | group p ih =>
    rw [settle_eq, relations_enforce, mapParts, relations, relations, ih]
  | leaf p hleaf =>
    have hbranch : (p.settle g g' access inherited).isBranch = false := by
      rw [apply_settle (φ := isBranch) _ _ _ _ (fun _ _ => rfl) fun _ _ _ _ _ _ _ => rfl, ← hleaf]
      cases p <;> rfl
    rw [relations_of_leaf hbranch, relations_of_leaf hleaf, relation?_settle]

/-! ### Restricted plans -/

/-- Every source of a `SELECT` in the plan is one of tables, queries and joins. -/
def SourcesOfTables (p : Plan) : Prop := ∀ query, select query ∈ p.nodes → ∀ s ∈ query.source,
  s.isSource = true

/-- What stands where a join may stand is such a source. -/
theorem isSource_of_takesJoins {inSource : Bool} {p : Plan} (hp : p.SourcesOfTables)
    (hsource : inSource = true → p.isSource = true) (hjoins : p.JoinsInSources inSource)
    {c : Role × Plan} (hc : c ∈ p.parts) (htakes : p.takesJoins inSource c.1 = true) :
    c.2.isSource = true := by
  cases p with
  | select q =>
    obtain ⟨ρ, c⟩ := c
    obtain rfl : ρ = .source := by simpa [takesJoins] using htakes
    refine hp q (self_mem_nodes _) c ?_
    simpa [parts] using hc
  | join kind l r on =>
    have hboth := hsource (hjoins.eq_true rfl)
    rw [isSource, Bool.and_eq_true] at hboth
    simp only [parts, List.mem_cons, List.mem_map] at hc
    rcases hc with rfl | rfl | ⟨c, -, rfl⟩
    · exact hboth.1
    · exact hboth.2
    · simp [takesJoins] at htakes
  | group p =>
    obtain rfl := List.mem_singleton.1 hc
    exact hsource htakes
  | _ => exact absurd htakes Bool.false_ne_true

theorem SourcesOfTables.part {p : Plan} (h : p.SourcesOfTables) {c : Role × Plan}
    (hc : c ∈ p.parts) : c.2.SourcesOfTables :=
  fun query hq => h query (nodes_subset_of_mem_parts hc hq)

/-- A scope node sees what it reads. -/
theorem sees_of_mem_seen {p : Plan} (ho : p.owner?.isSome)
    (hsources : ∀ t ∈ p.trees, t.isSource = true) {k : Column} {v : Literal}
    (hr : k.relation ∈ (p.interior g).seen) : p.Sees (tenantKey k v) := by
  rw [seen_interior ho] at hr
  obtain ⟨t, ht, hseen⟩ := List.mem_flatMap.1 hr
  have hrelation := seen_subset_relations (hsources t ht) hseen
  cases p with
  | select q => exact ⟨t, Option.mem_toList.1 ht, hrelation⟩
  | join kind l r on =>
    rw [isSome_owner?_join] at ho
    simp only [trees, List.mem_cons, List.not_mem_nil, or_false] at ht
    rcases ht with rfl | rfl
    · exact ⟨ho, .inl hrelation⟩
    · exact ⟨ho, .inr hrelation⟩
  | _ => simp [owner?] at ho

section

variable {f : Plan → Plan} {p : Plan}

theorem conditions_mapParts : (p.mapParts f).conditions = p.conditions.map f := by
  cases p <;> simp [mapParts, Query.map, conditions, Option.toList_map]

theorem besides_mapParts : (p.mapParts f).besides = p.besides.map f := by
  cases p <;> simp [mapParts, Query.map, besides, parts, Option.toList_map, Function.comp_def]

theorem sees_mapParts (hf : ∀ s, (f s).relations = s.relations) : (p.mapParts f).Sees = p.Sees := by
  cases p with
  | select q => exact sees_select_congr rfl fun s _ => hf s
  | join kind l r on => exact sees_join_congr (hf l) (hf r)
  | _ => rfl

/-- A node with other parts, which are in sight wherever they stand. -/
theorem inSight_mapParts (hs : p.isSynthetic = false)
    (hparts : ∀ c ∈ p.parts, ∀ here, (f c.2).InSight here) : (p.mapParts f).InSight here := by
  have hall : ∀ c, c ∈ p.conditions ∨ c ∈ p.besides → ∀ here, (f c).InSight here := by
    intro c hc
    obtain ⟨d, hd, rfl⟩ := List.mem_map.1 (mem_parts_iff.2 hc)
    exact hparts d hd
  cases hand : p.isAnd with
  | true =>
    obtain ⟨ps, rfl⟩ := exists_eq_and_of_isAnd hand
    refine .and fun q hq => ?_
    obtain ⟨d, hd, rfl⟩ := List.mem_map.1 hq
    exact hparts (.inherit, d) (List.mem_map_of_mem hd) here
  | false =>
    have hs' : (p.mapParts f).isSynthetic = false := by cases p <;> first | rfl | exact hs
    have hand' : (p.mapParts f).isAnd = false := by cases p <;> first | rfl | exact hand
    rw [inSight_iff hs' hand', conditions_mapParts, besides_mapParts, List.forall_mem_map,
      List.forall_mem_map]
    exact ⟨fun c hc => hall c (.inl hc) _, fun c hc => hall c (.inr hc) _⟩

end

theorem inSight_settle (access : Access) {inSource : Bool} {p : Plan}
    (hplain : ∀ c ∈ p.nodes, c.isSynthetic = false) (hjoins : p.JoinsInSources inSource)
    (hsource : inSource = true → p.isSource = true) (hsources : p.SourcesOfTables)
    (inherited : List Relation) (here : Plan → Prop) :
    (p.settle g g access inherited).InSight here := by
  induction p using inductionOnParts generalizing inSource inherited here with
  | step p ih =>
    have hparts : ∀ c ∈ p.parts, ∀ here,
        (c.2.settle g g access (p.tiedInside g inherited)).InSight here := fun c hc =>
      ih c hc (fun d hd => hplain d (nodes_subset_of_mem_parts hc hd)) (hjoins.part hc)
        (isSource_of_takesJoins hsources hsource hjoins hc) (hsources.part hc) _
    have htrees : ∀ t ∈ p.trees, t.isSource = true := by
      cases p with
      | select q => exact fun t ht => hsources q (self_mem_nodes _) t (Option.mem_toList.1 ht)
      | join kind l r on => simpa [isSource, trees] using hsource (hjoins.eq_true rfl)
      | _ => simp [trees]
    rw [settle_eq]
    refine (inSight_mapParts (hplain p p.self_mem_nodes) hparts).enforce fun ho c hc => ?_
    -- The relation of a tenant condition has been read in the scope of the node.
    obtain ⟨r, hr, part, t, -, rfl⟩ := exists_outstanding_of_mem_keyConditions hc
    have hseen : r ∈ (p.interior g).seen :=
      List.mem_eraseDups.1 (List.mem_of_mem_filter (List.mem_of_mem_filter hr))
    rw [owner?_mapParts] at ho
    rw [sees_mapParts (relations_settle g g access _)]
    exact sees_of_mem_seen ho htrees hseen

/-- **Synthetic conditions name relations that are visible where they stand.** Let joins stand in
the sources of `SELECT`s only, let these sources be made of tables, queries and joins, and let the
plan have no conditions of enforcement. In the restricted plan each of these stands in the `WHERE`
of a `SELECT` or in the `ON` of a join: a tenant condition in a `WHERE` is for a relation of the
source of its own `SELECT`, one in an `ON` is for a relation of the sides of its outer join, and a
link in an `ON` leads from a relation on the right of its join to one on the left. -/
theorem restrict_names_visible_relations (g : Partitioning) (tenant : Option Tenant) {p : Plan}
    (hplain : ∀ c ∈ p.nodes, c.isSynthetic = false) (hjoins : p.JoinsInSources false)
    (hsources : p.SourcesOfTables) :
    ∃ q, (p.restrict g ⟨tenant, false⟩).value = .ok q ∧ q.InSight nowhere ∧
      ∀ m ∈ q.nodes, ∀ c ∈ m.conditions, ∀ d ∈ c.conjuncts, d.isSynthetic = true → m.Sees d := by
  have hsight := inSight_settle (g := g) ⟨tenant, false⟩ hplain hjoins nofun hsources [] nowhere
  exact ⟨_, value_restrict_eq_settle g rfl p, hsight, fun m hm c hc d => hsight.sees hm hc⟩

/-- Orders with their items and the parcels that these may be in, if there is an order at all. -/
def ordersWithParcels : Plan :=
  let items := join .inner (table "orders") (aliased (table "items") "item") none
  let parcels := aliased (select { source := some (table "items") }) "parcel"
  select
    { source := some (join .left items parcels none)
      wheres := [existence (select { source := some (group (table "orders")) })] }

theorem joinsInSources_ordersWithParcels : ordersWithParcels.JoinsInSources false := by
  have hitems : (join .inner (table "orders") (aliased (table "items") "item") none).JoinsInSources
      true :=
    joinsInSources_join (joinsInSources_of_forall (by decide)) (joinsInSources_of_forall (by decide))
      (by simp)
  have hparcels : (aliased (select { source := some (table "items") }) "parcel").JoinsInSources
      true := joinsInSources_of_forall (by decide)
  have hsource : (join .left (join .inner (table "orders") (aliased (table "items") "item") none)
      (aliased (select { source := some (table "items") }) "parcel") none).JoinsInSources true :=
    joinsInSources_join hitems hparcels (by simp)
  have hexists : (existence (select { source := some (group (table "orders")) })).JoinsInSources
      false := joinsInSources_of_forall (by decide)
  refine .node (by simp [ordersWithParcels, isJoin]) ?_
  simpa [ordersWithParcels, parts, takesJoins] using ⟨hsource, hexists⟩

/-- What is added to the two joins and the three `SELECT`s is in sight. -/
theorem restrict_names_visible_parcels :
    (∀ c ∈ ordersWithParcels.nodes, c.isSynthetic = false) ∧
    ordersWithParcels.JoinsInSources false ∧ ordersWithParcels.SourcesOfTables ∧
    ∃ q, (ordersWithParcels.restrict shop ⟨some ⟨"t1"⟩, false⟩).value = .ok q ∧
      q.InSight nowhere ∧
      ∀ m ∈ q.nodes, ∀ c ∈ m.conditions, ∀ d ∈ c.conjuncts, d.isSynthetic = true → m.Sees d := by
  have hplain : ∀ c ∈ ordersWithParcels.nodes, c.isSynthetic = false := by decide
  have hsources : ordersWithParcels.SourcesOfTables := by
    intro query hquery s hs
    simp only [ordersWithParcels, nodes, subnodes, subnodesAll, subnodesOption, List.mem_cons,
      List.mem_append, List.not_mem_nil, or_false, select.injEq, reduceCtorEq, false_or] at hquery
    rcases hquery with rfl | rfl | rfl <;> obtain rfl := Option.some.inj hs <;> rfl
  exact ⟨hplain, joinsInSources_ordersWithParcels, hsources,
    restrict_names_visible_relations shop (some ⟨"t1"⟩) hplain joinsInSources_ordersWithParcels
      hsources⟩

end Plan

end Tenancy
