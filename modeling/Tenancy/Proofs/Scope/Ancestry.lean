import Mathlib.Logic.Function.Iterate
import Tenancy.Proofs.Plan.Contexts
import Tenancy.Proofs.Plan.Marks
import Tenancy.Proofs.Scope.Visiting

namespace Tenancy

/-!
# Ancestry — the scopes around a scope, and what they tie for it

* `Plan.scopePaths` — the positions of the scope nodes of a plan, in the order of reading;
* `Scope.NearestAbove`, `Scope.Sited` — the parent of a scope is that of the nearest scope node
  around its node;
* `Scope.Climb` — a walk from a scope outwards, which drops what the scopes on its way tie;
* `iterate_step` — the walk ends, with what is outstanding, whatever the other scopes tie;
* `outstandingAt_eq_filter` — what is outstanding, in terms of the scopes that reach a scope;
* `ancestry` — the scopes of a plan form a tree, and are taken over along it.
-/

namespace Plan

/-! ### Positions of scope nodes -/

/-- The positions of the scope nodes, in the order in which they begin. -/
def scopePaths (p : Plan) : List (List Nat) :=
  (if p.owner?.isSome then [[]] else [])
    ++ p.parts.zipIdx.attach.flatMap fun c => c.1.1.2.scopePaths.map (c.1.2 :: ·)
termination_by sizeOf p
decreasing_by exact sizeOf_lt_of_mem_parts (List.fst_mem_of_mem_zipIdx c.2)

/-- The scope nodes are the node itself, if it is one, and those of its parts. -/
theorem scopePaths_eq (p : Plan) :
    p.scopePaths = (if p.owner?.isSome then [[]] else [])
      ++ p.parts.zipIdx.flatMap fun c => c.1.2.scopePaths.map (c.2 :: ·) := by
  rw [scopePaths, List.flatMap_subtype (g := fun c => c.1.2.scopePaths.map (c.2 :: ·))
    (fun _ _ => rfl), List.unattach_attach]

theorem cons_mem_scopePaths {p : Plan} {i : Nat} {is : List Nat} :
    i :: is ∈ p.scopePaths ↔ ∃ c, p.parts[i]? = some c ∧ is ∈ c.2.scopePaths := by
  rw [scopePaths_eq, List.mem_append, List.mem_flatMap]
  constructor
  · rintro (h | ⟨⟨c, j⟩, hc, h⟩)
    · split at h <;> simp at h
    · obtain ⟨js, hjs, he⟩ := List.mem_map.1 h
      obtain ⟨rfl, rfl⟩ := List.cons.inj he
      exact ⟨c, List.mem_zipIdx_iff_getElem?.1 hc, hjs⟩
  · rintro ⟨c, hc, h⟩
    exact .inr ⟨(c, i), List.mem_zipIdx_iff_getElem?.2 hc, List.mem_map_of_mem h⟩

theorem nil_mem_scopePaths {p : Plan} : [] ∈ p.scopePaths ↔ p.owner?.isSome := by
  rw [scopePaths_eq, List.mem_append]
  constructor
  · rintro (h | h)
    · by_contra hp
      simp [hp] at h
    · simp at h
  · intro hp
    exact .inl (by simp [hp])

/-- The positions are those of all nodes that own a scope. -/
theorem mem_scopePaths {p : Plan} {path : List Nat} :
    path ∈ p.scopePaths ↔ ∃ q, p.nodeAt? path = some q ∧ q.owner?.isSome := by
  induction path generalizing p with
  | nil => simp [nil_mem_scopePaths, nodeAt?]
  | cons i is ih =>
    rw [cons_mem_scopePaths]
    simp only [ih, nodeAt?, Option.bind_eq_some_iff]
    constructor
    · rintro ⟨c, hc, q, hq, ho⟩
      exact ⟨q, ⟨c, hc, hq⟩, ho⟩
    · rintro ⟨q, ⟨c, hc, hq⟩, ho⟩
      exact ⟨c, hc, q, hq, ho⟩

/-- The nodes at the positions are the scope nodes. -/
theorem map_nodeAt?_scopePaths (p : Plan) :
    p.scopePaths.map (fun path => p.nodeAt? path) = p.scopeNodes.map some := by
  induction p using inductionOnParts with
  | step p ih =>
    have hparts : p.parts.zipIdx.flatMap
        (fun c => (c.1.2.scopePaths.map (c.2 :: ·)).map fun path => p.nodeAt? path)
        = p.parts.zipIdx.flatMap fun c => c.1.2.scopeNodes.map some := by
      refine List.flatMap_congr fun c hc => ?_
      rw [← ih c.1 (List.fst_mem_of_mem_zipIdx hc), List.map_map]
      refine List.map_congr_left fun path _ => ?_
      simp only [Function.comp_apply, nodeAt?]
      rw [List.mem_zipIdx_iff_getElem?.1 hc, Option.bind_some]
    have hnodes : p.parts.flatMap (fun c => c.2.scopeNodes.map some)
        = p.parts.zipIdx.flatMap fun c => c.1.2.scopeNodes.map some := by
      conv_lhs => rw [← List.zipIdx_map_fst 0 p.parts, List.flatMap_map]
    rw [scopePaths_eq, scopeNodes_eq, List.map_append, List.map_append, List.map_flatMap,
      List.map_flatMap, hparts, hnodes]
    split <;> rfl

/-- The positions stand in lexicographic order: a node is in front of what is inside it, and of the
parts of a node the first one comes first. -/
theorem pairwise_scopePaths (p : Plan) : p.scopePaths.Pairwise (· < ·) := by
  induction p using inductionOnParts with
  | step p ih =>
    rw [scopePaths_eq, List.pairwise_append, List.pairwise_flatMap]
    refine ⟨by split <;> simp, ⟨?_, ?_⟩, ?_⟩
    · intro c hc
      rw [List.pairwise_map]
      exact (ih c.1 (List.fst_mem_of_mem_zipIdx hc)).imp fun h => List.cons_lt_cons_self.2 h
    · rw [List.pairwise_iff_getElem]
      intro i j hi hj hij path hpath path' hpath'
      obtain ⟨is, -, rfl⟩ := List.mem_map.1 hpath
      obtain ⟨js, -, rfl⟩ := List.mem_map.1 hpath'
      simp [List.getElem_zipIdx, List.cons_lt_cons_iff, hij]
    · intro path hpath path' hpath'
      obtain ⟨c, -, hpath'⟩ := List.mem_flatMap.1 hpath'
      obtain ⟨js, -, rfl⟩ := List.mem_map.1 hpath'
      obtain rfl : path = [] := by
        by_contra hne
        split at hpath <;> simp [hne] at hpath
      exact List.nil_lt_cons _ _

end Plan

/-! ### Parents -/

namespace Scope

/-- The first position is that of a node around the node at the second one. -/
def Above (ρ π : List Nat) : Prop := ρ <+: π ∧ ρ ≠ π

/-- Of the nodes at `paths` the one at `ρ` is the innermost around the node at `π`. -/
structure NearestAbove (paths : List (List Nat)) (ρ π : List Nat) : Prop where
  mem : ρ ∈ paths
  above : Above ρ π
  nearest : ∀ σ ∈ paths, Above σ π → σ <+: ρ

theorem above_cons {i : Nat} {ρ π : List Nat} : Above (i :: ρ) (i :: π) ↔ Above ρ π := by
  simp [Above, List.cons_prefix_cons]

theorem NearestAbove.cons {paths : List (List Nat)} {ρ π : List Nat}
    (h : NearestAbove paths ρ π) (i : Nat) :
    NearestAbove (paths.map (i :: ·)) (i :: ρ) (i :: π) where
  mem := List.mem_map_of_mem h.mem
  above := above_cons.2 h.above
  nearest σ hσ habove := by
    obtain ⟨τ, hτ, rfl⟩ := List.mem_map.1 hσ
    exact List.cons_prefix_cons.2 ⟨rfl, h.nearest τ hτ (above_cons.1 habove)⟩

/-- Positions that are not around a node do not matter for it. -/
theorem NearestAbove.of_subset {paths paths' : List (List Nat)} {ρ π : List Nat}
    (h : NearestAbove paths ρ π) (hsubset : paths ⊆ paths')
    (hrest : ∀ σ ∈ paths', Above σ π → σ ∈ paths) : NearestAbove paths' ρ π where
  mem := hsubset h.mem
  above := h.above
  nearest σ hσ habove := h.nearest σ (hrest σ hσ habove) habove

/-- A row of scopes, the first of which has number `n`, with the positions of their nodes: a scope
has for its parent the nearest scope of the row around it, or the scope `parent` around all of the
row. -/
structure Sited (parent : Option Nat) (n : Nat) (scopes : List Scope) (paths : List (List Nat)) :
    Prop where
  length : scopes.length = paths.length
  id : ∀ {i : Nat} {s : Scope}, scopes[i]? = some s → s.id = n + i
  around : ∀ {i : Nat} {s : Scope} {π : List Nat}, scopes[i]? = some s → paths[i]? = some π →
    (s.parent = parent ∧ ∀ ρ ∈ paths, ¬ Above ρ π) ∨
      ∃ j ρ, j < i ∧ paths[j]? = some ρ ∧ s.parent = some (n + j) ∧ NearestAbove paths ρ π

variable {parent : Option Nat} {n : Nat} {xs ys : List Scope} {ps qs : List (List Nat)}

theorem Sited.nil : Sited parent n [] [] := ⟨rfl, by simp, by simp⟩

/-- The row of a part, as a row of the node that has the part at place `k`. -/
theorem Sited.inside (h : Sited parent n xs ps) (k : Nat) :
    Sited parent n xs (ps.map (k :: ·)) := by
  refine ⟨by rw [h.length, List.length_map], h.id, fun {i s π} hs hπ => ?_⟩
  rw [List.getElem?_map, Option.map_eq_some_iff] at hπ
  obtain ⟨π, hπ, rfl⟩ := hπ
  rcases h.around hs hπ with ⟨hp, htop⟩ | ⟨j, ρ, hj, hρ, hp, hnear⟩
  · refine .inl ⟨hp, fun ρ hρ habove => ?_⟩
    obtain ⟨σ, hσ, rfl⟩ := List.mem_map.1 hρ
    exact htop σ hσ (above_cons.1 habove)
  · exact .inr ⟨j, k :: ρ, hj, by rw [List.getElem?_map, hρ, Option.map_some], hp, hnear.cons k⟩

/-- The rows of different parts of a node, no position in one of which leads into another one. -/
theorem Sited.append (hxs : Sited parent n xs ps) (hys : Sited parent (n + xs.length) ys qs)
    (hapart : ∀ ρ ∈ ps, ∀ π ∈ qs, ¬ Above ρ π ∧ ¬ Above π ρ) :
    Sited parent n (xs ++ ys) (ps ++ qs) := by
  refine ⟨by rw [List.length_append, List.length_append, hxs.length, hys.length], ?_, ?_⟩
  · intro i s hs
    rw [List.getElem?_append] at hs
    split at hs
    · exact hxs.id hs
    · rw [hys.id hs]
      omega
  · intro i s π hs hπ
    rw [List.getElem?_append] at hs hπ
    rw [← hxs.length] at hπ
    split at hs
    · next hlt =>
      rw [if_pos hlt] at hπ
      have hps : ∀ σ ∈ ps ++ qs, Above σ π → σ ∈ ps := fun σ hσ habove =>
        (List.mem_append.1 hσ).resolve_right fun hσ =>
          (hapart π (List.mem_of_getElem? hπ) σ hσ).2 habove
      rcases hxs.around hs hπ with ⟨hp, htop⟩ | ⟨j, ρ, hj, hρ, hp, hnear⟩
      · exact .inl ⟨hp, fun ρ hρ habove => htop ρ (hps ρ hρ habove) habove⟩
      · have hj' := (List.getElem?_eq_some_iff.1 hρ).1
        exact .inr ⟨j, ρ, hj, by rw [List.getElem?_append_left hj', hρ], hp,
          hnear.of_subset (List.subset_append_left _ _) hps⟩
    · next hge =>
      rw [if_neg hge] at hπ
      have hqs : ∀ σ ∈ ps ++ qs, Above σ π → σ ∈ qs := fun σ hσ habove =>
        (List.mem_append.1 hσ).resolve_left fun hσ =>
          (hapart σ hσ π (List.mem_of_getElem? hπ)).1 habove
      rcases hys.around hs hπ with ⟨hp, htop⟩ | ⟨j, ρ, hj, hρ, hp, hnear⟩
      · exact .inl ⟨hp, fun ρ hρ habove => htop ρ (hqs ρ hρ habove) habove⟩
      · refine .inr ⟨xs.length + j, ρ, by omega, ?_, by rw [hp, Nat.add_assoc],
          hnear.of_subset (List.subset_append_right _ _) hqs⟩
        rw [hxs.length, List.getElem?_append_right (by omega), Nat.add_sub_cancel_left, hρ]

/-- A scope in front of the row that it is around of. -/
theorem Sited.cons {s : Scope} (hid : s.id = n) (hs : s.parent = parent)
    (hxs : Sited (some n) (n + 1) xs ps) (hnil : [] ∉ ps) :
    Sited parent n (s :: xs) ([] :: ps) := by
  refine ⟨by rw [List.length_cons, List.length_cons, hxs.length], ?_, ?_⟩
  · intro i t ht
    cases i with
    | zero => rw [← Option.some.inj ht, hid, Nat.add_zero]
    | succ i =>
      rw [hxs.id ht]
      omega
  · intro i t π ht hπ
    cases i with
    | zero =>
      obtain rfl : s = t := Option.some.inj ht
      obtain rfl : [] = π := Option.some.inj hπ
      exact .inl ⟨hs, fun ρ _ habove => habove.2 (List.prefix_nil.1 habove.1)⟩
    | succ i =>
      -- Whatever is around a scope of the row, the scope in front is around that too.
      refine .inr ?_
      rcases hxs.around ht hπ with ⟨hp, htop⟩ | ⟨j, ρ, hj, hρ, hp, hnear⟩
      · refine ⟨0, [], by omega, rfl, hp, List.mem_cons_self, ⟨List.nil_prefix, ?_⟩, ?_⟩
        · rintro rfl
          exact hnil (List.mem_of_getElem? hπ)
        · intro σ hσ habove
          rcases List.mem_cons.1 hσ with rfl | hσ
          · exact List.nil_prefix
          · exact absurd habove (htop σ hσ)
      · refine ⟨j + 1, ρ, by omega, hρ, by rw [hp]; congr 1; omega,
          List.mem_cons_of_mem _ hnear.mem, hnear.above, ?_⟩
        intro σ hσ habove
        rcases List.mem_cons.1 hσ with rfl | hσ
        · exact List.nil_prefix
        · exact hnear.nearest σ hσ habove

end Scope

namespace Plan

open ScopeTree (numberAll numberAll_append)
open Scope (Sited)

/-- Several surveys are sited one after another, in the places of their parts. -/
private theorem sited_numberAll_flatMap {g : Partitioning} {reading : Reading}
    {parent : Option Nat} {inherited : List Relation} (n k : Nat) {cs : List (Role × Plan)}
    (h : ∀ c ∈ cs, ∀ n, Sited parent n
      (numberAll parent inherited n (c.2.survey g (c.1.reading reading)).inner) c.2.scopePaths) :
    Sited parent n (numberAll parent inherited n (surveyParts g reading cs).inner)
      ((cs.zipIdx k).flatMap fun c => c.1.2.scopePaths.map (c.2 :: ·)) := by
  rw [inner_surveyParts]
  induction cs generalizing n k with
  | nil => exact .nil
  | cons c cs ih =>
    rw [List.flatMap_cons, List.zipIdx_cons, List.flatMap_cons, numberAll_append]
    refine ((h c List.mem_cons_self n).inside k).append
      (ih _ _ fun c' hc' => h c' (List.mem_cons_of_mem _ hc')) ?_
    intro ρ hρ π hπ
    obtain ⟨is, -, rfl⟩ := List.mem_map.1 hρ
    obtain ⟨d, hd, hπ⟩ := List.mem_flatMap.1 hπ
    obtain ⟨js, -, rfl⟩ := List.mem_map.1 hπ
    have hlt : k < d.2 := List.le_snd_of_mem_zipIdx hd
    constructor <;> intro habove <;> have := (List.cons_prefix_cons.1 habove.1).1 <;> omega

/-- However a survey is numbered, the parent of a scope is the nearest scope around it. -/
theorem sited_numberAll (g : Partitioning) (p : Plan) (reading : Reading) (parent : Option Nat)
    (inherited : List Relation) (n : Nat) :
    Sited parent n (numberAll parent inherited n (p.survey g reading).inner) p.scopePaths := by
  induction p using inductionOnParts generalizing reading parent inherited n with
  | step p ih =>
    rw [scopePaths_eq]
    cases h : p.owner? with
    | none =>
      rw [survey_of_not_owner h, Findings.inner_append, inner_mention]
      exact sited_numberAll_flatMap n 0 fun c hc n => ih c hc _ _ _ n
    | some o =>
      rw [survey_of_owner h]
      simp only [Findings.scope, numberAll, ScopeTree.number, List.append_nil, Option.isSome_some,
        if_true, List.singleton_append]
      refine .cons rfl rfl (sited_numberAll_flatMap _ 0 fun c hc n => ih c hc _ _ _ n) ?_
      simp

theorem sited_scopes (g : Partitioning) (p : Plan) : Sited none 0 (p.scopes g) p.scopePaths :=
  sited_numberAll g p .condition none [] 0

end Plan

/-! ### Walks outwards -/

namespace Scope

/-- The scope whose conditions hold of the rows of this one as well. -/
def around (s : Scope) : Option Nat :=
  match s.owner with
  | .select => none
  | .outerJoin => s.parent

/-- A walk from a scope outwards, in search of what is outstanding. -/
structure Climb where
  /-- The scope to go to, if the walk goes on. -/
  next : Option Nat
  /-- The relations that no scope on the way has tied to a tenant. -/
  left : List Relation

/-- The walk begins with what the scope itself leaves open. -/
def Climb.start (s : Scope) : Climb := ⟨s.around, s.unpinned⟩

/-- One step of a walk, from a scope to the one around it. -/
def Climb.step (scopes : List Scope) (c : Climb) : Climb :=
  match c.next.bind (scopes[·]?) with
  | none => { c with next := none }
  | some s => ⟨s.around, c.left.filter (· ∉ s.pinned)⟩

theorem iterate_step_of_next_eq_none (scopes : List Scope) (rs : List Relation) (k : Nat) :
    (Climb.step scopes)^[k] ⟨none, rs⟩ = ⟨none, rs⟩ :=
  Function.iterate_fixed rfl k

theorem around_eq_of_bare_eq {s t : Scope} (h : s.bare = t.bare) : s.around = t.around := by
  have howner : s.owner = t.owner := congrArg (·.owner) h
  have hparent : s.parent = t.parent := congrArg (·.parent) h
  rw [around, around, howner, hparent]

/-- A walk ends after no more steps than there are scopes in front of the one where it starts. It
drops what the scope inherits, and only the scopes that reach the scope have a say in it. -/
theorem iterate_step {scopes scopes' : List Scope} (hnested : Nested none [] 0 scopes) {n : Nat}
    {s : Scope} (hs : scopes[n]? = some s)
    (hagree : ∀ m, Reaches scopes m n → scopes'[m]?.map bare = scopes[m]?.map bare)
    {k : Nat} (hk : n ≤ k) (rs : List Relation) :
    (Climb.step scopes')^[k] ⟨s.around, rs⟩ = ⟨none, rs.filter (· ∉ s.inherited)⟩ := by
  induction n using Nat.strongRecOn generalizing s k rs with
  | ind n ih =>
    have hend : s.around = none → s.inherited = [] →
        (Climb.step scopes')^[k] ⟨s.around, rs⟩ = ⟨none, rs.filter (· ∉ s.inherited)⟩ := by
      intro haround hinherited
      rw [haround, hinherited, iterate_step_of_next_eq_none]
      simp
    cases ho : s.owner with
    | select => exact hend (by rw [around, ho]) (hnested.select hs ho)
    | outerJoin =>
      rcases hnested.outerJoin hs ho with ⟨hp, hinherited⟩ | ⟨j, t, hj, ht, hp, hinherits⟩
      · exact hend (by rw [around, ho, hp]) hinherited
      · rw [Nat.zero_add] at hp
        have hreaches : ∀ m, Reaches scopes m j → Reaches scopes m n := fun _ =>
          .outerJoin hs ho hp
        obtain ⟨k, rfl⟩ : ∃ k', k = k' + 1 := ⟨k - 1, by omega⟩
        have hstep : Climb.step scopes' ⟨s.around, rs⟩
            = ⟨t.around, rs.filter (· ∉ t.pinned)⟩ := by
          have hbare := hagree j (hreaches j .refl)
          rw [ht, Option.map_some, Option.map_eq_some_iff] at hbare
          obtain ⟨t', ht', hbare⟩ := hbare
          have hpinned : t'.pinned = t.pinned := congrArg (·.pinned) hbare
          rw [around, ho, hp, Climb.step, Option.bind_some, ht']
          simp only [around_eq_of_bare_eq hbare, hpinned]
        rw [Function.iterate_succ_apply, hstep,
          ih j hj ht (fun m hm => hagree m (hreaches m hm)) (by omega), List.filter_filter]
        congr 1
        refine List.filter_congr fun r _ => ?_
        simp [hinherits r, Bool.and_comm]

end Scope

namespace Plan

open Scope (Reaches Climb NearestAbove Above)

variable {g : Partitioning} {p : Plan}

open Classical in
/-- What is outstanding in a scope is what it reads, in this order, without what the scopes tie that
reach it. -/
theorem outstandingAt_eq_filter {n : Nat} {s : Scope} (hs : (p.scopes g)[n]? = some s) :
    Scope.outstandingAt (p.scopes g) n = s.seen.filter fun r =>
      ∀ m s', Reaches (p.scopes g) m n → (p.scopes g)[m]? = some s' → r ∉ s'.pinned := by
  rw [Scope.outstandingAt, hs, Option.elim_some, Scope.outstanding, Scope.unpinned,
    List.filter_filter]
  refine List.filter_congr fun r _ => ?_
  have htied := mem_pinned_or_mem_inherited hs r
  rw [Bool.eq_iff_iff, Bool.and_eq_true, decide_eq_true_iff, decide_eq_true_iff,
    decide_eq_true_iff, and_comm, ← not_or, htied]
  simp only [not_exists, not_and]

open Classical in
/-- The scopes of a plan form a tree, along which an outer join takes over what is tied around it. -/
structure Ancestry (g : Partitioning) (p : Plan) : Prop where
  /-- A visit enters the scopes in their order. -/
  visited : (p.visit g .condition .empty).scopes = (p.scopes g).map Scope.bare
  /-- In the end each scope that was opened is closed. -/
  closed : (p.visit g .condition .empty).stack = []
  /-- There is a position for each scope node of the plan, ... -/
  paths : ∀ path, path ∈ p.scopePaths ↔ ∃ q, p.nodeAt? path = some q ∧ q.owner?.isSome
  /-- ... in the order in which the nodes begin, ... -/
  sorted : p.scopePaths.Pairwise (· < ·)
  /-- ... and one scope for each of them. -/
  length : (p.scopes g).length = p.scopePaths.length
  /-- A scope has the owner that is at its position. -/
  owner : ∀ (n : Nat) (s : Scope) (path : List Nat), (p.scopes g)[n]? = some s →
    p.scopePaths[n]? = some path → ∃ q, p.nodeAt? path = some q ∧ q.owner? = some s.owner
  /-- The scopes are numbered through. -/
  id : ∀ (n : Nat) (s : Scope), (p.scopes g)[n]? = some s → s.id = n
  /-- The parent of a scope is an earlier one, that of the nearest scope node around its node. It has
  none exactly if there is no such node. -/
  parent : ∀ (n : Nat) (s : Scope) (path : List Nat), (p.scopes g)[n]? = some s →
    p.scopePaths[n]? = some path →
      (s.parent = none ∧ ∀ around ∈ p.scopePaths, ¬ Above around path) ∨
        ∃ m around, s.parent = some m ∧ m < n ∧ p.scopePaths[m]? = some around ∧
          NearestAbove p.scopePaths around path
  /-- A walk outwards from a scope ends, with what is outstanding there. Whatever stands in the
  place of scopes that do not reach the scope has no effect. -/
  climb : ∀ (n : Nat) (s : Scope), (p.scopes g)[n]? = some s → ∀ scopes : List Scope,
    (∀ m, Reaches (p.scopes g) m n →
      scopes[m]?.map Scope.bare = (p.scopes g)[m]?.map Scope.bare) →
        ∀ k ≥ n, (Climb.step scopes)^[k] (.start s) = ⟨none, Scope.outstandingAt (p.scopes g) n⟩
  /-- That is what the scope reads, in this order, without what the scopes tie that reach it. -/
  outstanding : ∀ (n : Nat) (s : Scope), (p.scopes g)[n]? = some s →
    Scope.outstandingAt (p.scopes g) n = s.seen.filter fun r =>
      ∀ m s', Reaches (p.scopes g) m n → (p.scopes g)[m]? = some s' → r ∉ s'.pinned
  /-- Past the last scope nothing is outstanding. -/
  beyond : ∀ n, (p.scopes g)[n]? = none → Scope.outstandingAt (p.scopes g) n = []

/-- The scopes of every plan form a tree, and what is outstanding follows the tree. -/
theorem ancestry (g : Partitioning) (p : Plan) : p.Ancestry g where
  visited := scopes_visit_empty g p
  closed := stack_visit g .condition p .empty
  paths _ := mem_scopePaths
  sorted := pairwise_scopePaths p
  length := (sited_scopes g p).length
  owner n s path hs hpath := by
    obtain ⟨q, hq, hrecords⟩ := exists_records hs
    have hat : (p.scopePaths.map fun path => p.nodeAt? path)[n]? = some (p.nodeAt? path) := by
      rw [List.getElem?_map, hpath, Option.map_some]
    rw [map_nodeAt?_scopePaths, List.getElem?_map, hq, Option.map_some] at hat
    exact ⟨q, (Option.some.inj hat).symm, hrecords.owner⟩
  id n s hs := by rw [(sited_scopes g p).id hs, Nat.zero_add]
  parent n s path hs hpath := by
    refine ((sited_scopes g p).around hs hpath).imp_right ?_
    rintro ⟨m, around, hm, haround, hp, hnear⟩
    exact ⟨m, around, by rw [hp, Nat.zero_add], hm, haround, hnear⟩
  climb n s hs scopes hagree k hk := by
    rw [Climb.start, Scope.iterate_step (nested_scopes g p) hs hagree hk, Scope.outstandingAt, hs]
    rfl
  outstanding _ _ := outstandingAt_eq_filter
  beyond n hn := by rw [Scope.outstandingAt, hn, Option.elim_none]

-- A query that is the side of an outer join stands in the scope of the join.
example :
    let items := select { source := some (join .right (table "items") (table "orders") none) }
    let p := select { source := some (join .left (table "orders") (aliased items "i") none) }
    (p.scopes shop).map (·.parent) = [none, some 0, some 1, some 2] := by decide

end Plan

end Tenancy
