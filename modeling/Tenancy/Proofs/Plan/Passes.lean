import Tenancy.Proofs.Plan.Parts

namespace Tenancy

/-!
# Passes — plans made from plans, node by node

* `Plan.mapParts` — a node with something else in place of each of its parts;
* `Plan.KeepsNames` — a map that keeps tables and columns, so that a node with mapped parts refers to
  the same relations;
* `Plan.pass` — a pass over a plan: what each node hands down to its parts, and what becomes of it
  once its parts are done;
* `Plan.rewriteUp` — a pass that hands nothing down;
* `pass_eq`, `rewriteUp_eq` — a pass is what it does at one node after the passes over its parts.
-/

/-- The query with every node of its clauses mapped. -/
def Query.map {α β : Type} (f : α → β) (q : Query α) : Query β where
  projections := q.projections.map f
  source := q.source.map f
  wheres := q.wheres.map f
  groups := q.groups.map f
  windows := q.windows.map f
  having := q.having.map f
  orders := q.orders.map f
  limit := q.limit
  offset := q.offset

namespace Plan

/-! ### One node -/

/-- The node with `f` applied to each of its parts. -/
def mapParts (f : Plan → Plan) : Plan → Plan
  | aliased p a => aliased (f p) a
  | call name ps => call name (ps.map f)
  | tuple ps => tuple (ps.map f)
  | equal l r => equal (f l) (f r)
  | compare op l r => compare op (f l) (f r)
  | and ps => and (ps.map f)
  | or l r => or (f l) (f r)
  | not p => not (f p)
  | group p => group (f p)
  | existence p => existence (f p)
  | select q => select (q.map f)
  | union all l r => union all (f l) (f r)
  | join kind l r on => join kind (f l) (f r) (on.map f)
  | update target assignments ws =>
    update (f target) (assignments.map fun a => (a.1, f a.2)) (ws.map f)
  | delete target ws => delete (f target) (ws.map f)
  | p => p

@[simp] theorem owner?_mapParts (f : Plan → Plan) (p : Plan) :
    (p.mapParts f).owner? = p.owner? := by
  cases p <;> rfl

theorem mapParts_mapParts (f h : Plan → Plan) (p : Plan) :
    (p.mapParts f).mapParts h = p.mapParts fun c => h (f c) := by
  cases p <;> simp [mapParts, Query.map, Function.comp_def]

@[simp] theorem mapParts_id (p : Plan) : p.mapParts (fun c => c) = p := by
  cases p <;> simp [mapParts, Query.map]

/-- Only what `f` does to the parts of the node matters. -/
theorem mapParts_congr {f h : Plan → Plan} {p : Plan} (hfh : ∀ c ∈ p.parts, f c.2 = h c.2) :
    p.mapParts f = p.mapParts h := by
  cases p with
  | select q =>
    simp only [parts, List.mem_append, List.mem_map, or_imp, forall_and, forall_exists_index,
      and_imp, forall_apply_eq_imp_iff₂] at hfh
    obtain ⟨⟨⟨⟨⟨⟨hsource, hps⟩, hws⟩, hgs⟩, hvs⟩, hhaving⟩, hos⟩ := hfh
    have hoption : ∀ o : Option Plan, (∀ c ∈ o.toList, f c = h c) → o.map f = o.map h := by
      rintro (_ | c) ho
      · rfl
      · rw [Option.map_some, Option.map_some, ho c (by simp)]
    simp only [mapParts, Query.map, hoption _ hsource, hoption _ hhaving, List.map_congr_left hps,
      List.map_congr_left hws, List.map_congr_left hgs, List.map_congr_left hvs,
      List.map_congr_left hos]
  | join kind l r on => cases on <;> simp_all [mapParts, parts]
  | update target assignments ws =>
    simp only [parts, List.cons_append, List.mem_cons, List.mem_append, List.mem_map, or_imp,
      forall_and, forall_eq, forall_exists_index, and_imp, forall_apply_eq_imp_iff₂] at hfh
    obtain ⟨htarget, hassignments, hws⟩ := hfh
    simp only [mapParts, htarget, List.map_congr_left hws, update.injEq, true_and, and_true]
    exact List.map_congr_left fun a ha => by rw [hassignments a ha]
  | _ => simp_all [mapParts, parts]

theorem map_snd_parts_mapParts (f : Plan → Plan) (p : Plan) :
    (p.mapParts f).parts.map (·.2) = p.parts.map fun c => f c.2 := by
  cases p <;> simp [mapParts, parts, Query.map, Function.comp_def, Option.toList_map]

/-- What is collected from mapped parts. -/
theorem flatMap_parts_mapParts {β : Type} (f : Plan → Plan) (h : Plan → List β) (p : Plan) :
    (p.mapParts f).parts.flatMap (fun c => h c.2) = p.parts.flatMap fun c => h (f c.2) := by
  have hparts := congrArg (List.flatMap h) (map_snd_parts_mapParts f p)
  rwa [List.flatMap_map, List.flatMap_map] at hparts

/-- Mapped parts count for what they counted for, if a table under an alias stays one. -/
theorem parts_mapParts {f : Plan → Plan} {p : Plan}
    (h : ∀ q a, p = aliased q a → (f q).aliasRole = q.aliasRole) :
    (p.mapParts f).parts = p.parts.map fun c => (c.1, f c.2) := by
  cases p with
  | aliased p a =>
    rw [mapParts, parts, h p a rfl]
    rfl
  | _ => simp [mapParts, parts, Query.map, Function.comp_def, Option.toList_map]

/-! ### Tables and columns -/

/-- Is the node a table or a column? -/
def isName : Plan → Bool
  | table _ | column _ => true
  | _ => false

/-- A map of plans that keeps tables and columns and makes nothing else one of them. -/
structure KeepsNames (f : Plan → Plan) : Prop where
  eq_self : ∀ p, p.isName = true → f p = p
  isName : ∀ p, (f p).isName = p.isName

@[simp] theorem isName_mapParts (f : Plan → Plan) (p : Plan) :
    (p.mapParts f).isName = p.isName := by
  cases p <;> rfl

section

variable {f : Plan → Plan} (hf : KeepsNames f)
include hf

/-- What is the same of all nodes but tables and columns does not see the map. -/
theorem KeepsNames.apply_eq {β : Type} {φ : Plan → β} {b : β}
    (hφ : ∀ q, q.isName = false → φ q = b) (p : Plan) : φ (f p) = φ p := by
  cases hp : p.isName with
  | true => rw [hf.eq_self p hp]
  | false => rw [hφ p hp, hφ (f p) ((hf.isName p).trans hp)]

theorem KeepsNames.relation?_mapParts (p : Plan) :
    (p.mapParts f).relation? = p.relation? := by
  cases p with
  | aliased p a =>
    refine hf.apply_eq (φ := fun p => (aliased p a).relation?) (b := none) (fun q hq => ?_) p
    cases q <;> first | rfl | simp [Plan.isName] at hq
  | _ => rfl

theorem KeepsNames.parts_mapParts (p : Plan) :
    (p.mapParts f).parts = p.parts.map fun c => (c.1, f c.2) := by
  refine Plan.parts_mapParts fun q _ _ => hf.apply_eq (b := .inherit) (fun q hq => ?_) q
  cases q <;> first | rfl | simp [Plan.isName] at hq

theorem KeepsNames.mention_mapParts (g : Partitioning) (reading : Reading) (p : Plan) :
    (p.mapParts f).mention g reading = p.mention g reading := by
  cases p with
  | aliased p a =>
    refine hf.apply_eq (φ := fun p => (aliased p a).mention g reading) (b := {})
      (fun q hq => ?_) p
    cases q <;> first | rfl | simp [Plan.isName] at hq
  | equal l r =>
    refine hf.apply_eq (φ := Findings.equality g reading) (b := {}) (fun q hq => ?_) l
    cases q <;> first | rfl | simp [Plan.isName] at hq
  | _ => rfl

end

/-! ### Passes -/

mutual

/-- A pass over a plan. Coming down with `c`, a node hands `down c p` to its parts; once they are
done, `up c p` makes the result of the node with the new parts. -/
def pass {γ : Type} (down : γ → Plan → γ) (up : γ → Plan → Plan → Plan) (c : γ) : Plan → Plan
  | node@(aliased p a) => up c node (aliased (p.pass down up (down c node)) a)
  | node@(call name ps) => up c node (call name (passAll down up (down c node) ps))
  | node@(tuple ps) => up c node (tuple (passAll down up (down c node) ps))
  | node@(equal l r) =>
    up c node (equal (l.pass down up (down c node)) (r.pass down up (down c node)))
  | node@(compare op l r) =>
    up c node (compare op (l.pass down up (down c node)) (r.pass down up (down c node)))
  | node@(and ps) => up c node (and (passAll down up (down c node) ps))
  | node@(or l r) => up c node (or (l.pass down up (down c node)) (r.pass down up (down c node)))
  | node@(not p) => up c node (not (p.pass down up (down c node)))
  | node@(group p) => up c node (group (p.pass down up (down c node)))
  | node@(existence p) => up c node (existence (p.pass down up (down c node)))
  | node@(select ⟨ps, source, ws, gs, vs, having, os, limit, offset⟩) =>
    let d := down c node
    up c node (select ⟨passAll down up d ps, passOption down up d source, passAll down up d ws,
      passAll down up d gs, passAll down up d vs, passOption down up d having,
      passAll down up d os, limit, offset⟩)
  | node@(union all l r) =>
    up c node (union all (l.pass down up (down c node)) (r.pass down up (down c node)))
  | node@(join kind l r on) =>
    let d := down c node
    up c node (join kind (l.pass down up d) (r.pass down up d) (passOption down up d on))
  | node@(update target assignments ws) =>
    let d := down c node
    up c node (update (target.pass down up d) (passAssignments down up d assignments)
      (passAll down up d ws))
  | node@(delete target ws) =>
    up c node (delete (target.pass down up (down c node)) (passAll down up (down c node) ws))
  | leaf => up c leaf leaf

/-- The pass over each plan of a list. -/
def passAll {γ : Type} (down : γ → Plan → γ) (up : γ → Plan → Plan → Plan) (c : γ) :
    List Plan → List Plan
  | [] => []
  | p :: ps => p.pass down up c :: passAll down up c ps

/-- The pass over an optional part. -/
def passOption {γ : Type} (down : γ → Plan → γ) (up : γ → Plan → Plan → Plan) (c : γ) :
    Option Plan → Option Plan
  | none => none
  | some p => some (p.pass down up c)

/-- The pass over the values of assignments. -/
def passAssignments {γ : Type} (down : γ → Plan → γ) (up : γ → Plan → Plan → Plan) (c : γ) :
    List (String × Plan) → List (String × Plan)
  | [] => []
  | (name, p) :: rest => (name, p.pass down up c) :: passAssignments down up c rest

end

section

variable {γ : Type} (down : γ → Plan → γ) (up : γ → Plan → Plan → Plan) (c : γ)

private theorem passAll_eq (ps : List Plan) : passAll down up c ps = ps.map (pass down up c) := by
  induction ps with
  | nil => rfl
  | cons p ps ih => rw [passAll, ih, List.map_cons]

private theorem passOption_eq (p : Option Plan) :
    passOption down up c p = p.map (pass down up c) := by
  cases p <;> rfl

private theorem passAssignments_eq (ps : List (String × Plan)) :
    passAssignments down up c ps = ps.map fun a => (a.1, a.2.pass down up c) := by
  induction ps with
  | nil => rfl
  | cons p ps ih => rw [passAssignments, ih, List.map_cons]

/-- A pass over a plan is the passes over its parts and then what it does at the node. -/
theorem pass_eq (p : Plan) :
    p.pass down up c = up c p (p.mapParts (pass down up (down c p))) := by
  cases p <;> simp [pass, mapParts, Query.map, passAll_eq, passOption_eq, passAssignments_eq]

end

/-- The pass that applies `f` at every node, from the leaves up. -/
def rewriteUp (f : Plan → Plan) : Plan → Plan := pass (fun _ _ => ()) (fun _ _ p => f p) ()

theorem rewriteUp_eq (f : Plan → Plan) (p : Plan) :
    p.rewriteUp f = f (p.mapParts (rewriteUp f)) :=
  pass_eq _ _ _ p

end Plan

end Tenancy
