import Tenancy.Proofs.Plan.Passes

namespace Tenancy

/-!
# Contexts — plans with a hole

* `Plan.refill`, `Plan.setPart` — a node with other parts, and with another part at one place;
* `Plan.put`, `Plan.subst` — a plan with another one, or a `SELECT`, in the place of a parameter;
* `Plan.Context` — a plan in which one parameter stands for the hole;
* `Plan.nodeAt?` — the node at a position of a plan;
* `exists_context_put`, `exists_context_fill` — every node of a plan, and so every `SELECT`, stands
  in the hole of a context, whatever its position is.
-/

/-! ### Other parts -/

/-- The query with other nodes in its clauses, in the order in which they are read. Each clause
keeps its length. -/
def Query.refill (q : Query Plan) (ps : List Plan) : Query Plan :=
  let sourceLength := q.source.toList.length
  let ps₁ := ps.drop sourceLength
  let ps₂ := ps₁.drop q.projections.length
  let ps₃ := ps₂.drop q.wheres.length
  let ps₄ := ps₃.drop q.groups.length
  let ps₅ := ps₄.drop q.windows.length
  { q with
    source := (ps.take sourceLength).head?
    projections := ps₁.take q.projections.length
    wheres := ps₂.take q.wheres.length
    groups := ps₃.take q.groups.length
    windows := ps₄.take q.windows.length
    having := (ps₅.take q.having.toList.length).head?
    orders := ps₅.drop q.having.toList.length }

namespace Plan

/-- The node with other parts. -/
def refill : Plan → List Plan → Plan
  | aliased _ a, [p] => aliased p a
  | call name _, ps => call name ps
  | tuple _, ps => tuple ps
  | equal .., [l, r] => equal l r
  | compare op .., [l, r] => compare op l r
  | and _, ps => and ps
  | or .., [l, r] => or l r
  | not _, [p] => not p
  | group _, [p] => group p
  | existence _, [p] => existence p
  | select q, ps => select (q.refill ps)
  | union all .., [l, r] => union all l r
  | join kind .., l :: r :: ps => join kind l r ps.head?
  | update _ assignments _, target :: ps =>
    update target (assignments.zipWith (fun a p => (a.1, p)) ps) (ps.drop assignments.length)
  | delete .., target :: ps => delete target ps
  | p, _ => p

/-- Of an optional part there is at most one. -/
private theorem toList_head?_take {α : Type} (o : Option Plan) (xs : List α) :
    (xs.take o.toList.length).head?.toList = xs.take o.toList.length := by
  cases o with
  | none => rfl
  | some p => cases xs <;> rfl

private theorem zipWith_snd {α β : Type} (xs : List α) (ys : List β) :
    xs.zipWith (fun _ y => y) ys = ys.take xs.length := by
  induction xs generalizing ys with
  | nil => rfl
  | cons x xs ih => cases ys <;> simp [ih]

private theorem zipWith_fst_map_snd {α β : Type} (xs : List (α × β)) (ys : List β) :
    xs.zipWith (fun x y => (x.1, y)) (xs.map (·.2) ++ ys) = xs := by
  induction xs with
  | nil => rfl
  | cons x xs ih => simp [ih]

theorem map_snd_parts_refill {p : Plan} {ps : List Plan} (h : ps.length = p.parts.length) :
    (p.refill ps).parts.map (·.2) = ps := by
  cases p with
  | select q =>
    simp only [refill, Query.refill, parts, List.map_append, List.map_map, Function.comp_def,
      List.map_id', toList_head?_take, List.append_assoc, List.take_append_drop]
  | update t as ws =>
    obtain ⟨t', ps, rfl⟩ := List.exists_of_length_succ ps h
    simp [refill, parts, Function.comp_def, List.map_zipWith, zipWith_snd]
  | join kind l r on =>
    obtain ⟨l', rs, rfl⟩ := List.exists_of_length_succ ps h
    obtain ⟨r', ps, rfl⟩ := List.exists_of_length_succ rs (Nat.succ_inj.1 h)
    have hon : ps.take on.toList.length = ps := by
      simp only [parts, List.length_cons, List.length_map] at h
      rw [List.take_of_length_le (by omega)]
    have hhead := toList_head?_take on ps
    rw [hon] at hhead
    simp [refill, parts, Function.comp_def, hhead]
  | delete t ws =>
    obtain ⟨t', ps, rfl⟩ := List.exists_of_length_succ ps h
    simp [refill, parts, Function.comp_def]
  | equal l r | compare op l r | or l r | union all l r =>
    obtain ⟨l', r', rfl⟩ := List.length_eq_two.1 h
    rfl
  | aliased p a | not p | group p | existence p =>
    obtain ⟨p', rfl⟩ := List.length_eq_one_iff.1 h
    rfl
  | call _ _ | tuple _ | and _ => simp [refill, parts, Function.comp_def]
  | _ => exact (List.eq_nil_of_length_eq_zero h).symm

theorem mapParts_refill (f : Plan → Plan) {p : Plan} {ps : List Plan}
    (h : ps.length = p.parts.length) : (p.refill ps).mapParts f = p.refill (ps.map f) := by
  cases p with
  | select q =>
    simp [refill, Query.refill, mapParts, Query.map, ← List.map_take, ← List.map_drop]
  | update t as ws =>
    obtain ⟨t', ps, rfl⟩ := List.exists_of_length_succ ps h
    simp [refill, mapParts, List.map_zipWith, List.zipWith_map_right]
  | join kind l r on =>
    obtain ⟨l', rs, rfl⟩ := List.exists_of_length_succ ps h
    obtain ⟨r', ps, rfl⟩ := List.exists_of_length_succ rs (Nat.succ_inj.1 h)
    simp [refill, mapParts]
  | delete t ws =>
    obtain ⟨t', ps, rfl⟩ := List.exists_of_length_succ ps h
    rfl
  | equal l r | compare op l r | or l r | union all l r =>
    obtain ⟨l', r', rfl⟩ := List.length_eq_two.1 h
    rfl
  | aliased p a | not p | group p | existence p =>
    obtain ⟨p', rfl⟩ := List.length_eq_one_iff.1 h
    rfl
  | _ => rfl

theorem refill_parts (p : Plan) : p.refill (p.parts.map (·.2)) = p := by
  cases p with
  | update t as ws => simp [refill, parts, Function.comp_def, zipWith_fst_map_snd]
  | select q => simp [refill, Query.refill, parts, Function.comp_def]
  | _ => simp [refill, parts, Function.comp_def]

/-- The node with `c` for the part at place `i`. -/
def setPart (i : Nat) (c p : Plan) : Plan := p.refill ((p.parts.map (·.2)).set i c)

theorem map_snd_parts_setPart (i : Nat) (c p : Plan) :
    (setPart i c p).parts.map (·.2) = (p.parts.map (·.2)).set i c :=
  map_snd_parts_refill (by simp)

/-- A map that keeps the other parts and takes the new one to the old one restores the node. -/
theorem mapParts_setPart {f : Plan → Plan} {p : Plan} {i : Nat} {c : Role × Plan}
    (hc : p.parts[i]? = some c) {c' : Plan} (hf : ∀ d ∈ p.parts, f d.2 = d.2) (hc' : f c' = c.2) :
    (setPart i c' p).mapParts f = p := by
  have hself : (p.parts.map (·.2)).map f = p.parts.map (·.2) := by
    rw [List.map_map]
    exact List.map_congr_left hf
  have hback : (p.parts.map (·.2)).set i c.2 = p.parts.map (·.2) := by
    obtain ⟨hi, rfl⟩ := List.getElem?_eq_some_iff.1 hc
    rw [← List.map_set, List.set_getElem_self]
  rw [setPart, mapParts_refill f (by simp), List.map_set, hself, hc', hback, refill_parts]

/-! ### In the place of a parameter -/

/-- Is the node the parameter with number `k`? -/
def isParam (k : Nat) : Plan → Bool
  | param i => i == k
  | _ => false

theorem eq_param_of_isParam {k : Nat} {p : Plan} (h : p.isParam k = true) : p = param k := by
  cases p <;> simp_all [isParam]

@[simp] theorem isParam_mapParts (k : Nat) (f : Plan → Plan) (p : Plan) :
    (p.mapParts f).isParam k = p.isParam k := by
  cases p <;> rfl

/-- The plan with `c` in the place of the parameter with number `k`. -/
def put (k : Nat) (c : Plan) : Plan → Plan := rewriteUp fun p => if p.isParam k then c else p

theorem put_of_isParam {k : Nat} {p : Plan} (h : p.isParam k = true) (c : Plan) :
    put k c p = c := by
  rw [put, rewriteUp_eq, isParam_mapParts, if_pos h]

theorem put_eq {k : Nat} {p : Plan} (h : p.isParam k = false) (c : Plan) :
    put k c p = p.mapParts (put k c) := by
  rw [put, rewriteUp_eq, isParam_mapParts, h, if_neg Bool.false_ne_true]

/-- Where the parameter does not occur, nothing takes its place. -/
theorem put_of_forall {k : Nat} {p : Plan} (h : ∀ m ∈ p.nodes, m.isParam k = false) (c : Plan) :
    put k c p = p := by
  induction p using inductionOnParts with
  | step p ih =>
    have hparts : p.mapParts (put k c) = p.mapParts fun d => d :=
      mapParts_congr fun d hd => ih d hd fun m hm => h m (nodes_subset_of_mem_parts hd hm)
    rw [put_eq (h p (self_mem_nodes p)), hparts, mapParts_id]

/-- The plan with the `SELECT` of `q` in the place of the parameter with number `k`. -/
def subst (k : Nat) (q : Query Plan) : Plan → Plan :=
  rewriteUp fun p => if p.isParam k then select q else p

/-! ### Contexts -/

/-- A plan with a hole. A parameter stands for the hole, and it stands there only. -/
structure Context where
  /-- The plan around the hole. -/
  plan : Plan
  /-- The number of the parameter that stands for the hole. -/
  hole : Nat
  /-- There is one hole. -/
  once : plan.nodes.countP (isParam hole) = 1

/-- The plan with the `SELECT` of `q` in the hole. -/
def Context.fill (C : Context) (q : Query Plan) : Plan := C.plan.subst C.hole q

/-! ### Positions -/

/-- The node at a position, given by the places of parts that lead there. -/
def nodeAt? : List Nat → Plan → Option Plan
  | [], p => some p
  | i :: is, p => p.parts[i]?.bind fun c => c.2.nodeAt? is

theorem isParam_refill (k : Nat) (p : Plan) (ps : List Plan) :
    (p.refill ps).isParam k = p.isParam k := by
  unfold refill
  split <;> rfl

section

variable {p : Plan} {i : Nat} {c : Role × Plan} (hc : p.parts[i]? = some c) (c' : Plan)
include hc

private theorem lt_length_map_snd_parts : i < (p.parts.map (·.2)).length := by
  rw [List.length_map]
  exact (List.getElem?_eq_some_iff.1 hc).1

theorem nodeAt?_setPart (is : List Nat) :
    (setPart i c' p).nodeAt? (i :: is) = c'.nodeAt? is := by
  have hget : ((setPart i c' p).parts.map (·.2))[i]? = some c' := by
    rw [map_snd_parts_setPart, List.getElem?_set_self (lt_length_map_snd_parts hc)]
  rw [List.getElem?_map, Option.map_eq_some_iff] at hget
  obtain ⟨d, hd, rfl⟩ := hget
  rw [nodeAt?, hd, Option.bind_some]

/-- A parameter that is new to a node occurs in it as often as it does in its new part. -/
theorem countP_nodes_setPart {k : Nat} (hfresh : ∀ m ∈ p.nodes, m.isParam k = false) :
    (setPart i c' p).nodes.countP (isParam k) = c'.nodes.countP (isParam k) := by
  have hnode : (setPart i c' p).isParam k = false := by
    rw [setPart, isParam_refill, hfresh p (self_mem_nodes p)]
  have hsplit : (setPart i c' p).parts.map (·.2)
      = (p.parts.map (·.2)).take i ++ c' :: (p.parts.map (·.2)).drop (i + 1) := by
    rw [map_snd_parts_setPart, List.set_eq_take_append_cons_drop,
      if_pos (lt_length_map_snd_parts hc)]
  have hrest : ∀ ds ⊆ p.parts.map (·.2), (ds.flatMap nodes).countP (isParam k) = 0 := by
    intro ds hds
    rw [List.countP_eq_zero]
    intro m hm
    obtain ⟨d, hd, hm⟩ := List.mem_flatMap.1 hm
    obtain ⟨e, he, rfl⟩ := List.mem_map.1 (hds hd)
    simp [hfresh m (nodes_subset_of_mem_parts he hm)]
  have hnodes : (setPart i c' p).parts.flatMap (·.2.nodes)
      = ((setPart i c' p).parts.map (·.2)).flatMap nodes := by
    rw [List.flatMap_map]
  rw [nodes_eq, List.countP_cons_of_neg (by simp [hnode]), hnodes, hsplit, List.flatMap_append,
    List.flatMap_cons, List.countP_append, List.countP_append, hrest _ (List.take_subset _ _),
    hrest _ (List.drop_subset _ _)]
  omega

end

/-- A number that is large enough is that of no parameter in a list. -/
theorem exists_forall_isParam_eq_false (ps : List Plan) :
    ∃ k, ∀ i, k ≤ i → ∀ p ∈ ps, p.isParam i = false := by
  induction ps with
  | nil => exact ⟨0, by simp⟩
  | cons p ps ih =>
    obtain ⟨k, hk⟩ := ih
    have hp : ∃ k, ∀ i, k ≤ i → p.isParam i = false := by
      cases p with
      | param j => exact ⟨j + 1, fun i hi => by simp [isParam]; omega⟩
      | _ => exact ⟨0, fun _ _ => rfl⟩
    obtain ⟨k', hk'⟩ := hp
    refine ⟨max k k', fun i hi q hq => ?_⟩
    rcases List.mem_cons.1 hq with rfl | hq
    · exact hk' i (by omega)
    · exact hk i (by omega) q hq

private theorem exists_hole {k : Nat} {q : Plan} {path : List Nat} {p : Plan}
    (hfresh : ∀ m ∈ p.nodes, m.isParam k = false) (h : p.nodeAt? path = some q) :
    ∃ p' : Plan, p'.nodes.countP (isParam k) = 1 ∧ p'.nodeAt? path = some (param k) ∧
      put k q p' = p := by
  induction path generalizing p with
  | nil =>
    obtain rfl : p = q := Option.some.inj h
    have hparam : (param k).isParam k = true := beq_self_eq_true k
    refine ⟨param k, ?_, rfl, put_of_isParam hparam p⟩
    simp [nodes, subnodes, hparam]
  | cons i is ih =>
    rw [nodeAt?, Option.bind_eq_some_iff] at h
    obtain ⟨c, hc, h⟩ := h
    have hparts : ∀ d ∈ p.parts, ∀ m ∈ d.2.nodes, m.isParam k = false := fun d hd m hm =>
      hfresh m (nodes_subset_of_mem_parts hd hm)
    obtain ⟨c', hcount, hat, hput⟩ := ih (hparts c (List.mem_of_getElem? hc)) h
    refine ⟨setPart i c' p, ?_, ?_, ?_⟩
    · rw [countP_nodes_setPart hc c' hfresh, hcount]
    · rw [nodeAt?_setPart hc, hat]
    · have hnode : (setPart i c' p).isParam k = false := by
        rw [setPart, isParam_refill, hfresh p (self_mem_nodes p)]
      rw [put_eq hnode]
      exact mapParts_setPart hc (fun d hd => put_of_forall (hparts d hd) q) hput

/-- Every node of a plan stands in the hole of a context, wherever it stands. -/
theorem exists_context_put {p q : Plan} {path : List Nat} (h : p.nodeAt? path = some q) :
    ∃ C : Context, C.plan.nodeAt? path = some (param C.hole) ∧ put C.hole q C.plan = p := by
  obtain ⟨k, hk⟩ := exists_forall_isParam_eq_false p.nodes
  obtain ⟨p', honce, hat, hput⟩ := exists_hole (hk k (Nat.le_refl k)) h
  exact ⟨⟨p', k, honce⟩, hat, hput⟩

/-- Every `SELECT` in a plan fills the hole of a context, wherever it stands. -/
theorem exists_context_fill {p : Plan} {q : Query Plan} {path : List Nat}
    (h : p.nodeAt? path = some (select q)) :
    ∃ C : Context, C.plan.nodeAt? path = some (param C.hole) ∧ C.fill q = p :=
  exists_context_put h

end Plan

end Tenancy
