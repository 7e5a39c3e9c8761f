import Mathlib.Data.List.Forall2
import Mathlib.Data.Option.Basic
import Tenancy.Proofs.Plan.Parts
import Tenancy.Proofs.Scope.Claims

namespace Tenancy

/-!
# Numbering — the scopes of a plan, one for each of its scope nodes

* `Plan.interior` — what is found inside a scope node, which never depends on where it stands;
* `Scope.Records` — a scope says of a scope node what is found inside it;
* `records_scopes` — the scopes of a plan record its scope nodes, in this order;
* `value_restrict` — a plan is restricted by what its own survey leaves outstanding;
* `Scope.Reaches` — the conditions of a scope reach the rows of the outer joins below it;
* `mem_outstandingAt` — what a scope reads is outstanding unless a scope that reaches it ties it to
  a tenant.
-/

namespace Plan

open Findings (reference equality close)

/-! ### Inside a scope node -/

/-- What is found inside a scope node. -/
def interior (g : Partitioning) (p : Plan) : Findings := surveyParts g .condition p.parts

@[simp] theorem inner_mention (g : Partitioning) (reading : Reading) (p : Plan) :
    (p.mention g reading).inner = [] := by
  rcases mention_cases g reading p with h | ⟨_, _, _, h⟩ | ⟨_, _, h⟩ <;> rw [h]

theorem mention_of_owner {g : Partitioning} {reading : Reading} {p : Plan} {o : Scope.Owner}
    (h : p.owner? = some o) : p.mention g reading = {} := by
  cases p <;> first | rfl | simp [owner?] at h

/-- The parts of a scope node count for the same wherever the node stands. -/
theorem reading_parts_of_owner {p : Plan} {o : Scope.Owner} (h : p.owner? = some o)
    {c : Role × Plan} (hc : c ∈ p.parts) (r r' : Reading) : c.1.reading r = c.1.reading r' := by
  -- No part of such a node inherits what the node counts for.
  have hrole : c.1 = .source ∨ c.1 = .condition ∨ c.1 = .value := by
    cases p with
    | select q =>
      simp only [parts, List.mem_append, List.mem_map] at hc
      rcases hc with (((((⟨_, _, rfl⟩ | ⟨_, _, rfl⟩) | ⟨_, _, rfl⟩) | ⟨_, _, rfl⟩) | ⟨_, _, rfl⟩)
        | ⟨_, _, rfl⟩) | ⟨_, _, rfl⟩ <;> simp
    | join kind l r on =>
      have hkind : kind.isOuter = true := by
        rw [← isSome_owner?_join kind l r on, h, Option.isSome_some]
      simp only [parts, hkind, if_true, List.mem_cons, List.mem_map] at hc
      rcases hc with rfl | rfl | ⟨_, _, rfl⟩ <;> simp
    | _ => simp [owner?] at h
  rcases hrole with hrole | hrole | hrole <;> rw [hrole] <;> rfl

theorem survey_of_owner {g : Partitioning} {p : Plan} {o : Scope.Owner} (h : p.owner? = some o)
    (reading : Reading) : p.survey g reading = Findings.scope o (p.interior g) := by
  have hparts : surveyParts g reading p.parts = p.interior g := by
    rw [interior, surveyParts, surveyParts]
    congr 1
    exact List.map_congr_left fun c hc => by
      rw [reading_parts_of_owner h hc reading .condition]
  rw [survey_eq, h, mention_of_owner h, hparts, Findings.empty_append, close, Option.elim_some]

theorem survey_of_not_owner {g : Partitioning} {p : Plan} (h : p.owner? = none)
    (reading : Reading) :
    p.survey g reading = p.mention g reading ++ surveyParts g reading p.parts := by
  rw [survey_eq, h, close, Option.elim_none]

end Plan

/-! ### Scopes record scope nodes -/

namespace ScopeTree

theorem numberAll_append (parent : Option Nat) (inherited : List Relation) (n : Nat)
    (ts us : List ScopeTree) :
    numberAll parent inherited n (ts ++ us)
      = numberAll parent inherited n ts
        ++ numberAll parent inherited (n + (numberAll parent inherited n ts).length) us := by
  induction ts generalizing n with
  | nil => simp [numberAll]
  | cons t ts ih =>
    simp only [List.cons_append, numberAll, ih, List.append_assoc, List.length_append]
    rw [Nat.add_assoc]

end ScopeTree

/-- In lists that are related place by place, an element has a counterpart. -/
theorem exists_getElem?_of_forall₂ {α β : Type} {R : α → β → Prop} {xs : List α} {ys : List β}
    (h : List.Forall₂ R xs ys) {n : Nat} {x : α} (hx : xs[n]? = some x) :
    ∃ y, ys[n]? = some y ∧ R x y := by
  obtain ⟨hn, rfl⟩ := List.getElem?_eq_some_iff.1 hx
  have hn' : n < ys.length := h.length_eq ▸ hn
  exact ⟨ys[n], List.getElem?_eq_getElem hn', h.get hn hn'⟩

/-- What holds of all elements of a list holds of all counterparts of them. -/
theorem forall_mem_iff_of_forall₂ {α β : Type} {R : α → β → Prop} {P : α → Prop} {Q : β → Prop}
    {xs : List α} {ys : List β} (h : List.Forall₂ R xs ys)
    (hR : ∀ x ∈ xs, ∀ y, R x y → (P x ↔ Q y)) : (∀ x ∈ xs, P x) ↔ ∀ y ∈ ys, Q y := by
  induction h with
  | nil => simp
  | @cons x y xs ys hxy _ ih =>
    rw [List.forall_mem_cons, List.forall_mem_cons, hR x List.mem_cons_self y hxy,
      ih fun x' hx' => hR x' (List.mem_cons_of_mem _ hx')]

/-- Relations of lists place by place compose. -/
theorem forall₂_comp {α β γ : Type} {R : α → β → Prop} {S : β → γ → Prop} {T : α → γ → Prop}
    (hRS : ∀ {x y z}, R x y → S y z → T x z) {xs : List α} {ys : List β} {zs : List γ}
    (h : List.Forall₂ R xs ys) (h' : List.Forall₂ S ys zs) : List.Forall₂ T xs zs := by
  induction h generalizing zs with
  | nil =>
    cases h'
    exact .nil
  | cons hxy _ ih =>
    cases h' with
    | cons hyz h' => exact .cons (hRS hxy hyz) (ih h')

/-- Lists that are related for each element of a list stay so one after another. -/
theorem forall₂_flatMap {α β γ : Type} {R : β → γ → Prop} {f : α → List β} {h : α → List γ}
    {xs : List α} (hxs : ∀ x ∈ xs, List.Forall₂ R (f x) (h x)) :
    List.Forall₂ R (xs.flatMap f) (xs.flatMap h) := by
  induction xs with
  | nil => exact .nil
  | cons x xs ih =>
    refine List.rel_append (hxs x List.mem_cons_self) (ih fun y hy => ?_)
    exact hxs y (List.mem_cons_of_mem _ hy)

/-- A scope says of a scope node what is found inside it. -/
structure Scope.Records (g : Partitioning) (s : Scope) (p : Plan) : Prop where
  owner : p.owner? = some s.owner
  seen : s.seen = (p.interior g).seen.eraseDups
  pinned : s.pinned = (p.interior g).pinned.eraseDups

namespace Plan

open ScopeTree (numberAll numberAll_append)

/-- Several surveys are recorded one after another. -/
private theorem records_numberAll_flatMap {g : Partitioning} {reading : Reading}
    {parent : Option Nat} {inherited : List Relation} (n : Nat) {cs : List (Role × Plan)}
    (h : ∀ c ∈ cs, ∀ n, List.Forall₂ (Scope.Records g)
      (numberAll parent inherited n (c.2.survey g (c.1.reading reading)).inner) c.2.scopeNodes) :
    List.Forall₂ (Scope.Records g)
      (numberAll parent inherited n (surveyParts g reading cs).inner)
      (cs.flatMap (·.2.scopeNodes)) := by
  rw [inner_surveyParts]
  induction cs generalizing n with
  | nil => exact .nil
  | cons c cs ih =>
    rw [List.flatMap_cons, List.flatMap_cons, numberAll_append]
    exact List.rel_append (h c List.mem_cons_self n)
      (ih _ fun c' hc' => h c' (List.mem_cons_of_mem _ hc'))

/-- However a survey is numbered, its scopes record the scope nodes of the plan. -/
theorem records_numberAll (g : Partitioning) (p : Plan) (reading : Reading) (parent : Option Nat)
    (inherited : List Relation) (n : Nat) :
    List.Forall₂ (Scope.Records g)
      (numberAll parent inherited n (p.survey g reading).inner) p.scopeNodes := by
  induction p using inductionOnParts generalizing reading parent inherited n with
  | step p ih =>
    rw [scopeNodes_eq]
    cases h : p.owner? with
    | none =>
      rw [survey_of_not_owner h, Findings.inner_append, inner_mention]
      exact records_numberAll_flatMap n fun c hc n => ih c hc _ _ _ n
    | some o =>
      -- The node comes first, and the scope nodes inside it take the numbers that follow.
      rw [survey_of_owner h]
      simp only [Findings.scope, numberAll, ScopeTree.number, List.append_nil]
      exact .cons ⟨h, rfl, rfl⟩ (records_numberAll_flatMap _ fun c hc n => ih c hc _ _ _ n)

/-- The scopes of a plan record its scope nodes. -/
theorem records_scopes (g : Partitioning) (p : Plan) :
    List.Forall₂ (Scope.Records g) (p.scopes g) p.scopeNodes :=
  records_numberAll g p .condition none [] 0

theorem map_owner_scopes (g : Partitioning) (p : Plan) :
    (p.scopes g).map (·.owner) = p.owners := by
  have h : ((p.scopes g).map (·.owner)).map some = p.owners.map some := by
    rw [← map_owner?_scopeNodes, List.map_map]
    refine List.forall₂_eq_eq_eq ▸ List.forall₂_map_left_iff.2 (List.forall₂_map_right_iff.2 ?_)
    exact (records_scopes g p).imp fun _ _ h => h.owner.symm
  exact List.map_injective_iff.2 (Option.some_injective _) h

theorem exists_records {g : Partitioning} {p : Plan} {n : Nat} {s : Scope}
    (h : (p.scopes g)[n]? = some s) : ∃ q, p.scopeNodes[n]? = some q ∧ s.Records g q :=
  exists_getElem?_of_forall₂ (records_scopes g p) h

/-! ### Restricting a plan by its own survey -/

/-- What is to be enforced on a plan by its own survey. -/
def due (g : Partitioning) (access : Access) (p : Plan) : Restriction :=
  ⟨g, access, Scope.outstandingAt (p.scopes g)⟩

theorem value_restrictWith_of_eq (g : Partitioning) {access : Access}
    (h : access.writeOnly = false) {p : Plan} {scopes : List Scope}
    (hfits : scopes.map (·.owner) = p.owners) :
    (p.restrictWith g scopes access).value
      = .ok (p.impose ⟨g, access, Scope.outstandingAt scopes⟩ 0).value := by
  rw [restrictWith_of_eq scopes g h hfits]

/-- The survey of a plan fits the plan, so restriction never fails. -/
theorem value_restrict (g : Partitioning) {access : Access} (h : access.writeOnly = false)
    (p : Plan) : (p.restrict g access).value = .ok (p.impose (due g access p) 0).value := by
  simp [restrict, h, surveyed, due, value_restrictWith_of_eq g h (map_owner_scopes g p)]

/-- What is reported of a plan restricted by its survey: the scopes, and what is imposed on them. -/
theorem entries_restrict (g : Partitioning) {access : Access} (h : access.writeOnly = false)
    (p : Plan) : (p.restrict g access).entries = Scope.surveyed (p.scopes g)
      ++ (p.impose (due g access p) 0).entries.map Stamped.event := by
  simp [restrict, h, surveyed, due, restrictWith_of_eq (p.scopes g) g h (map_owner_scopes g p)]

theorem value_restrict_writeOnly (g : Partitioning) {access : Access}
    (h : access.writeOnly = true) (p : Plan) : (p.restrict g access).value = .ok p := by
  simp [restrict, h]

end Plan

/-! ### What outer joins inherit -/

namespace Scope

/-- The conditions of scope `m` reach the rows of scope `n`: it is that scope, or the scope around
it where an outer join is in between. -/
inductive Reaches (scopes : List Scope) (m : Nat) : Nat → Prop
  /-- A scope reaches its own rows. -/
  | refl : Reaches scopes m m
  /-- What reaches the scope around an outer join reaches the join. -/
  | outerJoin {n parent : Nat} {s : Scope} : scopes[n]? = some s → s.owner = .outerJoin →
    s.parent = some parent → Reaches scopes m parent → Reaches scopes m n

/-- The scope takes over what the scope `around` it ties to a tenant or takes over itself. -/
def InheritsFrom (s around : Scope) : Prop :=
  ∀ r, r ∈ s.inherited ↔ r ∈ around.pinned ∨ r ∈ around.inherited

/-- A row of scopes, the first of which has number `n`: a `SELECT` inherits nothing, and an outer
join what its parent has, which is an earlier scope of the row or the scope around all of it. -/
structure Nested (parent : Option Nat) (inherited : List Relation) (n : Nat)
    (scopes : List Scope) : Prop where
  select : ∀ {i : Nat} {s : Scope}, scopes[i]? = some s → s.owner = .select → s.inherited = []
  outerJoin : ∀ {i : Nat} {s : Scope}, scopes[i]? = some s → s.owner = .outerJoin →
    (s.parent = parent ∧ s.inherited = inherited) ∨
      ∃ j s', j < i ∧ scopes[j]? = some s' ∧ s.parent = some (n + j) ∧ s.InheritsFrom s'

theorem Nested.append {parent : Option Nat} {inherited : List Relation} {n : Nat}
    {xs ys : List Scope} (hxs : Nested parent inherited n xs)
    (hys : Nested parent inherited (n + xs.length) ys) : Nested parent inherited n (xs ++ ys) := by
  constructor
  · intro i s hi ho
    rw [List.getElem?_append] at hi
    split at hi
    · exact hxs.select hi ho
    · exact hys.select hi ho
  · intro i s hi ho
    rw [List.getElem?_append] at hi
    split at hi
    · next hlt =>
      refine (hxs.outerJoin hi ho).imp_right ?_
      rintro ⟨j, s', hj, hs', hp, hin⟩
      exact ⟨j, s', hj, by rw [List.getElem?_append_left (by omega), hs'], hp, hin⟩
    · next hge =>
      refine (hys.outerJoin hi ho).imp_right ?_
      rintro ⟨j, s', hj, hs', hp, hin⟩
      refine ⟨xs.length + j, s', by omega, ?_, by rw [hp, Nat.add_assoc], hin⟩
      rw [List.getElem?_append_right (by omega), Nat.add_sub_cancel_left, hs']

/-- A scope in front of the row that it is around of. -/
theorem Nested.cons {parent : Option Nat} {inherited around : List Relation} {n : Nat}
    {s : Scope} {xs : List Scope} (hselect : s.owner = .select → s.inherited = [])
    (houter : s.owner = .outerJoin → s.parent = parent ∧ s.inherited = inherited)
    (haround : ∀ r, r ∈ around ↔ r ∈ s.pinned ∨ r ∈ s.inherited)
    (hxs : Nested (some n) around (n + 1) xs) : Nested parent inherited n (s :: xs) := by
  constructor
  · intro i t hi ho
    cases i with
    | zero =>
      obtain rfl : s = t := Option.some.inj hi
      exact hselect ho
    | succ i => exact hxs.select hi ho
  · intro i t hi ho
    cases i with
    | zero =>
      obtain rfl : s = t := Option.some.inj hi
      exact .inl (houter ho)
    | succ i =>
      -- What was around all of the row is the scope in front now.
      refine .inr ?_
      rcases hxs.outerJoin hi ho with ⟨hp, ht⟩ | ⟨j, s', hj, hs', hp, hin⟩
      · exact ⟨0, s, by omega, rfl, hp, fun r => by rw [ht, haround]⟩
      · exact ⟨j + 1, s', by omega, hs', by rw [hp]; congr 1; omega, hin⟩

end Scope

namespace ScopeTree

open Scope (Nested)

mutual

theorem nested_number (parent : Option Nat) (inherited : List Relation) (n : Nat) :
    ∀ t : ScopeTree, Nested parent inherited n (t.number parent inherited n)
  | node .select _ pinned inner =>
    (nested_numberAll (some n) (pinned ++ []) (n + 1) inner).cons (fun _ => rfl) nofun
      (by simp)
  | node .outerJoin _ pinned inner =>
    (nested_numberAll (some n) (pinned ++ inherited) (n + 1) inner).cons nofun
      (fun _ => ⟨rfl, rfl⟩) (by simp)

theorem nested_numberAll (parent : Option Nat) (inherited : List Relation) (n : Nat) :
    ∀ ts : List ScopeTree, Nested parent inherited n (numberAll parent inherited n ts)
  | [] => ⟨by simp [numberAll], by simp [numberAll]⟩
  | t :: ts => by
    rw [numberAll]
    exact (nested_number parent inherited n t).append (nested_numberAll parent inherited _ ts)

end

end ScopeTree

namespace Plan

theorem nested_scopes (g : Partitioning) (p : Plan) : Scope.Nested none [] 0 (p.scopes g) :=
  ScopeTree.nested_numberAll none [] 0 _

/-- A relation is tied to a tenant in a scope, by its own conditions or by inheritance, exactly if
the conditions of a scope that reaches it tie it. -/
theorem mem_pinned_or_mem_inherited {g : Partitioning} {p : Plan} {n : Nat} {s : Scope}
    (hs : (p.scopes g)[n]? = some s) (r : Relation) :
    r ∈ s.pinned ∨ r ∈ s.inherited ↔
      ∃ m s', Scope.Reaches (p.scopes g) m n ∧ (p.scopes g)[m]? = some s' ∧ r ∈ s'.pinned := by
  have hnested := nested_scopes g p
  -- A scope has a greater number than the one around it.
  induction n using Nat.strongRecOn generalizing s with
  | ind n ih =>
    constructor
    · rintro (hr | hr)
      · exact ⟨n, s, .refl, hs, hr⟩
      cases ho : s.owner with
      | select => simp [hnested.select hs ho] at hr
      | outerJoin =>
        rcases hnested.outerJoin hs ho with ⟨-, hnil⟩ | ⟨j, s', hj, hs', hp, hin⟩
        · simp [hnil] at hr
        · obtain ⟨m, s'', hm, hs'', hr⟩ := (ih j hj hs').1 ((hin r).1 hr)
          rw [Nat.zero_add] at hp
          exact ⟨m, s'', .outerJoin hs ho hp hm, hs'', hr⟩
    · rintro ⟨m, s'', hm, hs'', hr⟩
      cases hm with
      | refl =>
        obtain rfl : s'' = s := Option.some.inj (hs''.symm.trans hs)
        exact .inl hr
      | @outerJoin _ parent t ht ho hp hm =>
        obtain rfl : t = s := Option.some.inj (ht.symm.trans hs)
        rcases hnested.outerJoin hs ho with ⟨hnone, -⟩ | ⟨j, s', hj, hs', hp', hin⟩
        · simp [hp] at hnone
        · obtain rfl : parent = j := by simpa [hp] using hp'
          exact .inr ((hin r).2 ((ih parent hj hs').2 ⟨m, s'', hm, hs'', hr⟩))

/-- What a scope reads is outstanding unless the conditions of a scope that reaches it tie it to a
tenant. -/
theorem mem_outstandingAt {g : Partitioning} {p : Plan} {n : Nat} {s : Scope}
    (hs : (p.scopes g)[n]? = some s) (r : Relation) :
    r ∈ Scope.outstandingAt (p.scopes g) n ↔ r ∈ s.seen ∧
      ¬ ∃ m s', Scope.Reaches (p.scopes g) m n ∧ (p.scopes g)[m]? = some s' ∧ r ∈ s'.pinned := by
  rw [← mem_pinned_or_mem_inherited hs, Scope.outstandingAt, hs]
  simp only [Scope.outstanding, Scope.unpinned, Option.elim_some, List.mem_filter,
    decide_eq_true_eq]
  tauto

theorem mem_seen_of_mem_outstandingAt {scopes : List Scope} {n : Nat} {r : Relation}
    (h : r ∈ Scope.outstandingAt scopes n) : ∃ s, scopes[n]? = some s ∧ r ∈ s.seen := by
  unfold Scope.outstandingAt at h
  cases hs : scopes[n]? with
  | none => simp [hs] at h
  | some s =>
    rw [hs] at h
    exact ⟨s, rfl, List.mem_of_mem_filter (List.mem_of_mem_filter h)⟩

/-- Only tenant relations are outstanding. -/
theorem covers_of_mem_outstandingAt {g : Partitioning} {p : Plan} {n : Nat} {r : Relation}
    (h : r ∈ Scope.outstandingAt (p.scopes g) n) : g.covers r.table := by
  obtain ⟨s, hs, hseen⟩ := mem_seen_of_mem_outstandingAt h
  obtain ⟨q, _, hrecords⟩ := exists_records hs
  rw [hrecords.seen, List.mem_eraseDups, interior, seen_surveyParts] at hseen
  obtain ⟨c, _, hc⟩ := List.mem_flatMap.1 hseen
  exact covers_of_mem_seen hc

end Plan

end Tenancy
