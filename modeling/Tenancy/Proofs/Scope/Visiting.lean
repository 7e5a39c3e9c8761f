import Tenancy.Proofs.Scope.Numbering

namespace Tenancy

/-!
# Visiting — the scopes of a plan, opened and closed on a stack

* `Visit` — the scopes entered so far, and a stack of those that are not left yet;
* `Plan.visit` — a plan read in one pass, in which a node writes into the innermost open scope;
* `Visit.absorb` — the findings of a survey written into a visit all at once;
* `visit_eq_absorb` — reading a plan has the effect of absorbing its findings;
* `scopes_visit_empty`, `stack_visit` — a visit enters the scopes of the plan in their order, and
  leaves each that it has entered.
-/

/-! ### Open and closed scopes -/

/-- The relations with `r` at the end, unless it is among them. -/
def addNew (rs : List Relation) (r : Relation) : List Relation := if r ∈ rs then rs else rs ++ [r]

/-- A plan as it is being read. -/
@[ext]
structure Visit where
  /-- The scopes entered so far. -/
  scopes : List Scope
  /-- The numbers of the scopes that are still open, the innermost first. -/
  stack : List Nat
  /-- Only a scope that has been entered is open. -/
  entered : ∀ n ∈ stack, n < scopes.length

/-- Before anything is read no scope has been entered. -/
def Visit.empty : Visit := ⟨[], [], List.forall_mem_nil _⟩

/-- The scope with the findings written into it. -/
def Scope.take (f : Findings) (s : Scope) : Scope :=
  { s with seen := f.seen.foldl addNew s.seen, pinned := f.pinned.foldl addNew s.pinned }

/-- The scope as a visit leaves it, which passes nothing on to the scopes inside. -/
def Scope.bare (s : Scope) : Scope := { s with inherited := [] }

namespace Visit

/-- Opens a scope in the innermost open one. -/
def enter (owner : Scope.Owner) (v : Visit) : Visit where
  scopes := v.scopes ++ [{ id := v.scopes.length, owner, parent := v.stack.head? }]
  stack := v.scopes.length :: v.stack
  entered n hn := by
    rw [List.length_append, List.length_singleton]
    rcases List.mem_cons.1 hn with rfl | hn
    · omega
    · have := v.entered n hn
      omega

/-- Closes the innermost open scope. -/
def leave (v : Visit) : Visit where
  scopes := v.scopes
  stack := v.stack.tail
  entered n hn := v.entered n (List.mem_of_mem_tail hn)

/-- Writes into the innermost open scope, if there is one. -/
def note (f : Scope → Scope) (v : Visit) : Visit where
  scopes := v.stack.head?.elim v.scopes (v.scopes.modify · f)
  stack := v.stack
  entered n hn := by
    have := v.entered n hn
    cases v.stack.head? <;> simpa

/-- Notes a relation as read. -/
def see (r : Relation) : Visit → Visit := note fun s => { s with seen := addNew s.seen r }

/-- Notes a relation as tied to a tenant. -/
def pin (r : Relation) : Visit → Visit := note fun s => { s with pinned := addNew s.pinned r }

/-- Notes a reference to a relation. -/
def refer (g : Partitioning) (reading : Reading) (r : Relation) (v : Visit) : Visit :=
  if reading.reads && g.covers r.table then v.see r else v

/-- Notes an equality with `left` on its left. -/
def equate (g : Partitioning) (reading : Reading) (left : Plan) (v : Visit) : Visit :=
  match left with
  | .column c => if reading.binds && Findings.isKey g c then v.pin c.relation else v
  | _ => v

end Visit

namespace Plan

mutual

/-- The visit `v` continued with a plan that counts for `reading`. -/
def visit (g : Partitioning) (reading : Reading) : Plan → Visit → Visit
  | table t, v => v.refer g reading ⟨t, none⟩
  | aliased p a, v =>
    match p with
    | table t => v.refer g reading ⟨t, some a⟩
    | _ => p.visit g reading v
  | column c, v => v.refer g reading c.relation
  | literal _, v | param _, v | raw _, v => v
  | call _ ps, v | tuple ps, v | and ps, v => visitAll g reading ps v
  | equal l r, v => r.visit g reading (l.visit g reading (v.equate g reading l))
  | compare _ l r, v | union _ l r, v => r.visit g reading (l.visit g reading v)
  | or l r, v => r.visit g reading.loose (l.visit g reading.loose v)
  | not p, v => p.visit g reading.loose v
  | group p, v | existence p, v => p.visit g reading v
  | select ⟨ps, source, ws, gs, vs, having, os, _, _⟩, v =>
    let v := v.enter .select
    let v := visitOption g .source source v
    let v := visitAll g .value ps v
    let v := visitAll g .condition ws v
    let v := visitAll g .condition gs v
    let v := visitAll g .condition vs v
    let v := visitOption g .condition having v
    let v := visitAll g .value os v
    v.leave
  | join kind l r on, v =>
    if kind.isOuter then
      let v := v.enter .outerJoin
      let v := l.visit g .source v
      let v := r.visit g .source v
      let v := visitOption g .condition on v
      v.leave
    else
      let v := l.visit g reading v
      let v := r.visit g reading v
      visitOption g .condition on v
  | update target assignments ws, v =>
    visitAll g .condition ws (visitAssignments g assignments (target.visit g .condition v))
  | delete target ws, v => visitAll g .condition ws (target.visit g .condition v)
  | tenantKey k _, v | keyLink k _, v => v.pin k.relation

/-- The visit continued with a list, one plan after another. -/
def visitAll (g : Partitioning) (reading : Reading) : List Plan → Visit → Visit
  | [], v => v
  | p :: ps, v => visitAll g reading ps (p.visit g reading v)

/-- The visit continued with an optional part. -/
def visitOption (g : Partitioning) (reading : Reading) : Option Plan → Visit → Visit
  | none, v => v
  | some p, v => p.visit g reading v

/-- The visit continued with the values of assignments. -/
def visitAssignments (g : Partitioning) : List (String × Plan) → Visit → Visit
  | [], v => v
  | (_, p) :: rest, v => visitAssignments g rest (p.visit g .value v)

end

end Plan

/-! ### Findings all at once -/

/-- Elements are added once, after those that are there. -/
theorem foldl_addNew (xs rs : List Relation) :
    rs.foldl addNew xs = xs ++ (rs.filter (· ∉ xs)).eraseDups := by
  induction rs generalizing xs with
  | nil => simp
  | cons r rs ih =>
    rw [List.foldl_cons, ih, addNew]
    by_cases hr : r ∈ xs
    · simp [hr]
    · have hfilter : rs.filter (· ∉ xs ++ [r]) = (rs.filter (· ∉ xs)).filter (!· == r) := by
        rw [List.filter_filter]
        refine List.filter_congr fun r' _ => ?_
        rw [Bool.beq_eq_decide_eq]; simp [and_comm]
      rw [if_neg hr, hfilter, List.filter_cons_of_pos (by simpa using hr), List.eraseDups_cons,
        List.append_assoc, List.singleton_append]

theorem foldl_addNew_nil (rs : List Relation) : rs.foldl addNew [] = rs.eraseDups := by
  simp [foldl_addNew]

theorem modify_append_left {α : Type} {xs : List α} (ys : List α) {n : Nat} (h : n < xs.length)
    (f : α → α) : (xs ++ ys).modify n f = xs.modify n f ++ ys := by
  induction xs generalizing n with
  | nil => simp at h
  | cons x xs ih =>
    cases n with
    | zero => rfl
    | succ n => simp [ih (Nat.lt_of_succ_lt_succ h)]

namespace ScopeTree

mutual

/-- What is inherited shows in no other field. -/
theorem map_bare_number (parent : Option Nat) (xs ys : List Relation) (n : Nat) :
    ∀ t : ScopeTree,
      (t.number parent xs n).map Scope.bare = (t.number parent ys n).map Scope.bare
  | node .select .. => rfl
  | node .outerJoin _ pinned inner => by
    rw [number, number, List.map_cons, List.map_cons,
      map_bare_numberAll (some n) (pinned ++ xs) (pinned ++ ys) (n + 1) inner]
    rfl

theorem map_bare_numberAll (parent : Option Nat) (xs ys : List Relation) (n : Nat) :
    ∀ ts : List ScopeTree,
      (numberAll parent xs n ts).map Scope.bare = (numberAll parent ys n ts).map Scope.bare
  | [] => rfl
  | t :: ts => by
    have ht := map_bare_number parent xs ys n t
    have hlength : (t.number parent xs n).length = (t.number parent ys n).length := by
      simpa using congrArg List.length ht
    rw [numberAll, numberAll, List.map_append, List.map_append, ht, hlength,
      map_bare_numberAll parent xs ys _ ts]

end

end ScopeTree

namespace Visit

open ScopeTree (numberAll)

theorem scopes_note (f : Scope → Scope) (v : Visit) :
    (v.note f).scopes = v.stack.head?.elim v.scopes (v.scopes.modify · f) := rfl

@[simp] theorem length_note (f : Scope → Scope) (v : Visit) :
    (v.note f).scopes.length = v.scopes.length := by
  rw [scopes_note]
  cases v.stack.head? <;> simp

theorem note_id (v : Visit) : v.note id = v := by
  ext1
  · rw [scopes_note]
    cases v.stack.head? <;> simp
  · rfl

theorem note_note (f f' : Scope → Scope) (v : Visit) : (v.note f).note f' = v.note (f' ∘ f) := by
  ext1
  · rw [scopes_note, scopes_note, scopes_note, show (v.note f).stack = v.stack from rfl]
    cases v.stack.head? <;> simp [List.modify_modify_eq]
  · rfl

/-- A note goes into a scope that is open, and not into those that have been left. -/
theorem scopes_note_of_append {v w : Visit} (hstack : w.stack = v.stack) {xs : List Scope}
    (hscopes : w.scopes = v.scopes ++ xs) (f : Scope → Scope) :
    (w.note f).scopes = (v.note f).scopes ++ xs := by
  rw [scopes_note, scopes_note, hstack, hscopes]
  cases h : v.stack.head? with
  | none => rfl
  | some n => exact modify_append_left xs (v.entered n (List.mem_of_mem_head? h)) f

/-- A note in a scope that has just been entered goes into that scope. -/
theorem scopes_note_enter (owner : Scope.Owner) (f : Scope → Scope) (v : Visit) :
    ((v.enter owner).note f).scopes
      = v.scopes ++ [f { id := v.scopes.length, owner, parent := v.stack.head? }] := by
  rw [scopes_note]
  simp [enter, List.modify_eq_take_cons_drop]

/-- The visit after what the findings report: the innermost open scope takes what they read and
tie, and their scopes are entered and left. -/
def absorb (f : Findings) (v : Visit) : Visit where
  scopes := (v.note (Scope.take f)).scopes
    ++ (numberAll v.stack.head? [] v.scopes.length f.inner).map Scope.bare
  stack := v.stack
  entered n hn := by
    have := (v.note (Scope.take f)).entered n hn
    rw [List.length_append]
    omega

theorem scopes_absorb (f : Findings) (v : Visit) :
    (v.absorb f).scopes = (v.note (Scope.take f)).scopes
      ++ (numberAll v.stack.head? [] v.scopes.length f.inner).map Scope.bare := rfl

theorem stack_absorb (f : Findings) (v : Visit) : (v.absorb f).stack = v.stack := rfl

/-- Findings without scopes are taken by the innermost open scope. -/
theorem absorb_of_inner_eq_nil {f : Findings} (h : f.inner = []) (v : Visit) :
    v.absorb f = v.note (Scope.take f) := by
  ext1
  · rw [scopes_absorb, h, numberAll, List.map_nil, List.append_nil]
  · rfl

@[simp] theorem absorb_empty (v : Visit) : v.absorb {} = v :=
  (absorb_of_inner_eq_nil rfl v).trans v.note_id

/-- Findings are absorbed one after another. -/
@[simp] theorem absorb_append (f f' : Findings) (v : Visit) :
    v.absorb (f ++ f') = (v.absorb f).absorb f' := by
  have htake : Scope.take (f ++ f') = Scope.take f' ∘ Scope.take f := by
    funext s
    simp [Scope.take]
  have hnote := scopes_note_of_append (v := v.note (Scope.take f)) (w := v.absorb f) rfl rfl
    (Scope.take f')
  ext1
  · rw [scopes_absorb, scopes_absorb, hnote, note_note, ← htake, stack_absorb,
      Findings.inner_append, ScopeTree.numberAll_append, List.map_append, List.append_assoc,
      scopes_absorb, List.length_append, length_note, List.length_map]
  · rfl

/-- Findings in a scope of their own are absorbed between its beginning and its end. -/
@[simp] theorem absorb_scope (owner : Scope.Owner) (f : Findings) (v : Visit) :
    v.absorb (.scope owner f) = ((v.enter owner).absorb f).leave := by
  have hempty : v.note (Scope.take (.scope owner f)) = v := v.note_id
  have hleave : ((v.enter owner).absorb f).leave.scopes = ((v.enter owner).absorb f).scopes := rfl
  have hlength : (v.enter owner).scopes.length = v.scopes.length + 1 := by simp [enter]
  ext1
  · rw [scopes_absorb, hempty, hleave, scopes_absorb, scopes_note_enter, hlength,
      List.append_assoc]
    -- A scope hands on what it ties, which does not show in the scopes inside.
    cases owner <;>
      simp only [Findings.scope, numberAll, ScopeTree.number, List.append_nil, List.map_cons,
        List.singleton_append, Scope.bare, Scope.take, foldl_addNew_nil] <;>
      rw [ScopeTree.map_bare_numberAll _ f.pinned []] <;> rfl
  · rfl

theorem absorb_reference (g : Partitioning) (reading : Reading) (r : Relation) (v : Visit) :
    v.absorb (Findings.reference g reading r) = v.refer g reading r := by
  rw [Findings.reference, refer]
  split
  · exact absorb_of_inner_eq_nil rfl v
  · exact v.absorb_empty

theorem absorb_equality (g : Partitioning) (reading : Reading) (left : Plan) (v : Visit) :
    v.absorb (Findings.equality g reading left) = v.equate g reading left := by
  cases left with
  | column c =>
    rw [Findings.equality, equate]
    split
    · exact absorb_of_inner_eq_nil rfl v
    · exact v.absorb_empty
  | _ => exact v.absorb_empty

end Visit

/-! ### Reading a plan -/

namespace Plan

open Visit

mutual

/-- Reading a plan has the effect of absorbing its findings. -/
theorem visit_eq_absorb (g : Partitioning) (reading : Reading) :
    ∀ (p : Plan) (v : Visit), p.visit g reading v = v.absorb (p.survey g reading)
  | table t, v => by rw [visit, survey, absorb_reference]
  | aliased p a, v => by
    cases p with
    | table t => rw [visit, survey, absorb_reference]
    | _ => rw [visit, survey, visit_eq_absorb] <;> simp
  | column c, v => by rw [visit, survey, absorb_reference]
  | literal _, v | param _, v | raw _, v => by simp [visit, survey]
  | call _ ps, v | tuple ps, v | and ps, v => by rw [visit, survey, visitAll_eq_absorb]
  | equal l r, v => by
    simp [visit, survey, visit_eq_absorb g reading l, visit_eq_absorb g reading r, absorb_equality]
  | compare _ l r, v | union _ l r, v => by
    simp [visit, survey, visit_eq_absorb g reading l, visit_eq_absorb g reading r]
  | or l r, v => by
    simp [visit, survey, visit_eq_absorb g reading.loose l, visit_eq_absorb g reading.loose r]
  | not p, v => by rw [visit, survey, visit_eq_absorb]
  | group p, v | existence p, v => by rw [visit, survey, visit_eq_absorb]
  | select ⟨ps, source, ws, gs, vs, having, os, _, _⟩, v => by
    simp [visit, survey, visitAll_eq_absorb g _ ps, visitOption_eq_absorb g _ source,
      visitAll_eq_absorb g _ ws, visitAll_eq_absorb g _ gs, visitAll_eq_absorb g _ vs,
      visitOption_eq_absorb g _ having, visitAll_eq_absorb g _ os]
  | join kind l r on, v => by
    simp only [visit, survey]
    split <;>
      simp [visit_eq_absorb g _ l, visit_eq_absorb g _ r, visitOption_eq_absorb g _ on]
  | update target assignments ws, v => by
    simp [visit, survey, visit_eq_absorb g _ target, visitAssignments_eq_absorb g assignments,
      visitAll_eq_absorb g _ ws]
  | delete target ws, v => by
    simp [visit, survey, visit_eq_absorb g _ target, visitAll_eq_absorb g _ ws]
  | tenantKey k _, v | keyLink k _, v => by
    rw [visit, survey]
    exact (absorb_of_inner_eq_nil (f := { pinned := [k.relation] }) rfl v).symm

theorem visitAll_eq_absorb (g : Partitioning) (reading : Reading) :
    ∀ (ps : List Plan) (v : Visit), visitAll g reading ps v = v.absorb (surveyAll g reading ps)
  | [], v => v.absorb_empty.symm
  | p :: ps, v => by
    rw [visitAll, surveyAll, absorb_append, visit_eq_absorb g reading p,
      visitAll_eq_absorb g reading ps]

theorem visitOption_eq_absorb (g : Partitioning) (reading : Reading) :
    ∀ (p : Option Plan) (v : Visit),
      visitOption g reading p v = v.absorb (surveyOption g reading p)
  | none, v => v.absorb_empty.symm
  | some p, v => by rw [visitOption, surveyOption, visit_eq_absorb g reading p]

theorem visitAssignments_eq_absorb (g : Partitioning) :
    ∀ (ps : List (String × Plan)) (v : Visit),
      visitAssignments g ps v = v.absorb (surveyAssignments g ps)
  | [], v => v.absorb_empty.symm
  | (_, p) :: rest, v => by
    rw [visitAssignments, surveyAssignments, absorb_append, visit_eq_absorb g .value p,
      visitAssignments_eq_absorb g rest]

end

/-- Whatever is read, the scopes that were open are open again afterwards, and no other ones. -/
theorem stack_visit (g : Partitioning) (reading : Reading) (p : Plan) (v : Visit) :
    (p.visit g reading v).stack = v.stack := by
  rw [visit_eq_absorb, stack_absorb]

/-- A visit enters the scopes of the plan, in their order. -/
theorem scopes_visit_empty (g : Partitioning) (p : Plan) :
    (p.visit g .condition .empty).scopes = (p.scopes g).map Scope.bare := by
  rw [visit_eq_absorb]
  rfl

end Plan

end Tenancy
