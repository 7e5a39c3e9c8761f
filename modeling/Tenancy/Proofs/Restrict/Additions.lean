import Tenancy.Proofs.Plan.Marks
import Tenancy.Proofs.Restrict.Passes
import Tenancy.Proofs.Restrict.Targets
import Tenancy.Session

namespace Tenancy

/-!
# Additions — a restricted plan is the plan with synthetic conditions added

* `Plan.flatten` — a plan with its `WHERE` lists and `ON` conditions as lists of conjuncts, some of
  which are left out;
* `flatten_impose`, `flatten_secure` — without synthetic conditions a restricted plan is what the
  plan is;
* `flatten_of_plain` — where there are no synthetic conditions none are left out;
* `build_adds_only_synthetic` — what a session builds is the plan itself, up to synthetic conjuncts.
-/

namespace Plan

/-! ### Flattened plans -/

/-- The node with its `WHERE` list, or its `ON`, as a list of conjuncts, without those that `drop`
picks. An `ON` that is missing is the empty conjunction. -/
def flattenNode (drop : Plan → Bool) : Plan → Plan
  | select q => select { q with wheres := conjunctsBut drop q.wheres }
  | join kind l r on => join kind l r (some (and (conjunctsBut drop on.toList)))
  | update target assignments ws => update target assignments (conjunctsBut drop ws)
  | delete target ws => delete target (conjunctsBut drop ws)
  | p => p

/-- The plan with each `WHERE` list and each `ON` flattened to a list of conjuncts, without those
that `drop` picks. -/
def flatten (drop : Plan → Bool) : Plan → Plan := rewriteUp (flattenNode drop)

variable {drop : Plan → Bool}

theorem flatten_eq (drop : Plan → Bool) (p : Plan) :
    p.flatten drop = (p.mapParts (flatten drop)).flattenNode drop :=
  rewriteUp_eq _ p

/-- Where all that has been added is dropped, nothing has been added. -/
theorem Adds.conjunctsBut_eq {cs ps ps' : List Plan} (h : Adds cs ps ps')
    (hcs : ∀ c ∈ cs, c.isSynthetic = true) :
    conjunctsBut isSynthetic (ps'.map (flatten isSynthetic))
      = conjunctsBut isSynthetic (ps.map (flatten isSynthetic)) := by
  refine h.conjunctsBut_map_rewriteUp (fun _ => rfl) fun c hc => ?_
  have hsynthetic := hcs c hc
  cases c <;> first | rfl | simp [isSynthetic] at hsynthetic

theorem flatten_join (kind : JoinKind) (l r : Plan) (on : Option Plan) :
    (join kind l r on).flatten drop = join kind (l.flatten drop) (r.flatten drop)
      (some (and (conjunctsBut drop (on.toList.map (flatten drop))))) := by
  rw [flatten_eq, mapParts, flattenNode, Option.toList_map]

theorem missesLinks_flatten : MissesLinks (flattenNode isSynthetic) := by
  intro kind l r on key other
  have hadds := (adds_addCondition on (keyLink key other)).conjunctsBut_eq
    (by simp [isSynthetic])
  show (join ..).flatten isSynthetic = (join ..).flatten isSynthetic
  rw [flatten_join, flatten_join, hadds]

theorem flatten_enforce (e : Restriction) (n : Nat) (p : Plan) :
    (p.enforce e n).flatten isSynthetic = p.flatten isSynthetic := by
  have hcs := isSynthetic_keyConditions e n
  have hlink : ∀ p, (linkAll e.partitioning (e.linkKeys n) p).value.flatten isSynthetic
      = p.flatten isSynthetic := missesLinks_flatten.rewriteUp_linkAll _ _
  cases p with
  | select q =>
    have hsource : (q.source.map fun s => (linkAll e.partitioning (e.linkKeys n) s).value).map
        (flatten isSynthetic) = q.source.map (flatten isSynthetic) := by
      rw [Option.map_map]
      exact congrArg (Option.map · q.source) (funext hlink)
    rw [flatten_eq, flatten_eq isSynthetic (select q)]
    simp only [enforce, mapParts, Query.map, flattenNode, hsource,
      (adds_addWheres _ q.wheres).conjunctsBut_eq hcs]
  | join kind l r on =>
    rw [enforce]
    split
    · rw [flatten_join, flatten_join, hlink, hlink, (adds_addOn _ on).conjunctsBut_eq hcs]
    · rfl
  | _ => rfl

/-- Without synthetic conditions nothing has been imposed. -/
theorem flatten_impose (e : Restriction) (n : Nat) (p : Plan) :
    (p.impose e n).value.flatten isSynthetic = p.flatten isSynthetic :=
  rewriteUp_impose (flatten_enforce e) n p

theorem flatten_restrict (g : Partitioning) (access : Access) (p : Plan) :
    ∃ q, (p.restrict g access).value = .ok q ∧ q.flatten isSynthetic = p.flatten isSynthetic := by
  cases hw : access.writeOnly with
  | true => exact ⟨p, value_restrict_writeOnly g hw p, rfl⟩
  | false => exact ⟨_, value_restrict g hw p, flatten_impose _ 0 p⟩

/-! ### Mutations -/

/-- Guarding the target of a mutation adds to its `WHERE` list and changes nothing else. -/
theorem flatten_guardTarget (g : Partitioning) (access : Access) (p : Plan) :
    (p.guardTarget g access).flatten isSynthetic = p.flatten isSynthetic := by
  have hadded : conjunctsBut isSynthetic
        ((p.mutationWheres ++ (p.missingKey? g access).toList).map (flatten isSynthetic))
      = conjunctsBut isSynthetic (p.mutationWheres.map (flatten isSynthetic)) :=
    (adds_append _ _).conjunctsBut_eq (isSynthetic_missingKey? g access p)
  rw [guardTarget_eq, flatten_eq, flatten_eq isSynthetic p, mapParts_withWheres]
  cases p with
  | update target assignments ws => exact congrArg (update _ _) hadded
  | delete target ws => exact congrArg (delete _) hadded
  | _ => rfl

theorem flatten_secure (g : Partitioning) (access : Access) (p : Plan) :
    ∃ q, (p.secure g access).value = .ok q ∧ q.flatten isSynthetic = p.flatten isSynthetic := by
  obtain ⟨q, hq, hflatten⟩ := flatten_restrict g access (p.guardTarget g access)
  exact ⟨q, (value_secure g access p).trans hq, hflatten.trans (flatten_guardTarget g access p)⟩

/-! ### Plans without synthetic conditions -/

theorem keepsAnd_flatten (drop : Plan → Bool) : KeepsAnd (flatten drop) :=
  keepsAnd_rewriteUp (fun _ => rfl) fun p => by cases p <;> rfl

@[simp] theorem isSynthetic_flatten (drop : Plan → Bool) (p : Plan) :
    (p.flatten drop).isSynthetic = p.isSynthetic := by
  rw [flatten_eq]
  cases p <;> rfl

theorem conjunctsBut_flatten_congr (ps : List Plan)
    (h : ∀ p ∈ ps, ∀ q ∈ p.nodes, q.isSynthetic = false) :
    conjunctsBut isSynthetic (ps.map (flatten fun _ => false))
      = conjunctsBut (fun _ => false) (ps.map (flatten fun _ => false)) := by
  refine List.filter_congr fun c hc => ?_
  simp only [List.mem_flatMap, List.mem_map, exists_exists_and_eq_and,
    (keepsAnd_flatten _).conjuncts] at hc
  obtain ⟨p, hp, c, hc, rfl⟩ := hc
  rw [isSynthetic_flatten, h p hp c (mem_nodes_of_mem_conjuncts hc)]

/-- Where there are no synthetic conditions, none are left out. -/
theorem flatten_of_plain {p : Plan} (h : ∀ q ∈ p.nodes, q.isSynthetic = false) :
    p.flatten isSynthetic = p.flatten fun _ => false := by
  induction p using inductionOnParts with
  | step p ih =>
    have hpart : ∀ c ∈ p.parts, ∀ q ∈ c.2.nodes, q.isSynthetic = false := fun c hc q hq =>
      h q (nodes_subset_of_mem_parts hc hq)
    rw [flatten_eq, flatten_eq (fun _ => false), mapParts_congr fun c hc => ih c hc (hpart c hc)]
    cases p with
    | select q =>
      have hws := conjunctsBut_flatten_congr q.wheres fun w hw =>
        hpart (.condition, w) (by simp [parts, hw])
      simp only [mapParts, Query.map, flattenNode, hws]
    | join kind l r on =>
      have hon := conjunctsBut_flatten_congr on.toList fun c hc =>
        hpart (.condition, c) <| List.mem_cons_of_mem _ <|
          List.mem_cons_of_mem _ (List.mem_map_of_mem hc)
      simp only [mapParts, flattenNode, Option.toList_map, hon]
    | update t as ws =>
      have hws := conjunctsBut_flatten_congr ws fun w hw =>
        hpart (.condition, w) (by simp [parts, hw])
      simp only [mapParts, flattenNode, hws]
    | delete t ws =>
      have hws := conjunctsBut_flatten_congr ws fun w hw =>
        hpart (.condition, w) (by simp [parts, hw])
      simp only [mapParts, flattenNode, hws]
    | _ => rfl

/-- **Restriction only adds synthetic conjuncts.** A session builds every plan. What it builds from
a plan without synthetic conditions is this very plan, once the synthetic conditions are left out of
its conjunctions and `WHERE` lists and `ON` conditions are compared by their conjuncts. -/
theorem build_adds_only_synthetic (s : Session) (access : Access) {p : Plan}
    (h : ∀ q ∈ p.nodes, q.isSynthetic = false) :
    ∃ q, (s.build access p).value = .ok q ∧
      q.flatten isSynthetic = p.flatten fun _ => false := by
  obtain ⟨q, hq, hflatten⟩ := flatten_secure s.partitioning access p
  exact ⟨q, hq, hflatten.trans (flatten_of_plain h)⟩

/-- A session for the shop, in which any id will do. -/
def shopSession : Session where
  policy := {}
  idRule := ⟨64, "", .empty⟩
  directory := .rule shop
  cache := ⟨[], 0, 0, 0, List.nodup_nil⟩

/-- Deletes the orders whose items, if they have any, are all cancelled and free. -/
def deleteCancelled : Plan :=
  let column (table name : String) : Plan := column ⟨⟨table, none⟩, name⟩
  delete (table "orders") [compare .isIn (column "orders" "id") <| select
    { projections := [column "orders" "id"]
      source := some <| join .left (table "orders") (table "items") <| some <|
        equal (column "orders" "id") (column "items" "order_id")
      wheres := [and [column "items" "cancelled", and [column "items" "free"]]] }]

/-- What is built for a deletion is the deletion, up to synthetic conjuncts. -/
theorem build_deleteCancelled :
    ∃ q, (shopSession.build (Access.ofTenant ⟨"t1"⟩) deleteCancelled).value = .ok q ∧
      q.flatten isSynthetic = deleteCancelled.flatten fun _ => false :=
  build_adds_only_synthetic shopSession (Access.ofTenant ⟨"t1"⟩) (by decide)

end Plan

end Tenancy
