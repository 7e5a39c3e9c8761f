import Tenancy.Scope.Owners
import Tenancy.Scope.Restrict

namespace Tenancy

/-!
# Claims — restriction with the numbers of the owners known in advance

Restriction claims recorded scopes as it goes along, and can stop in the middle of a plan. What it
does can be told beforehand, from the owners of the plan and those of the scopes.

* `Plan.impose` — the plan with what each scope needs added, each owner given its number;
* `Scope.refusal?`, `Scope.mismatch?` — the first place where the owners of a plan and of recorded
  scopes part;
* `upTo` — what is left of a computation that an error stops at such a place;
* `Claims` — claiming the scopes of some owners comes to imposing on them;
* `claims_constrain` — it does so for every plan;
* `restrictWith_eq` — restriction imposes everything, or stops at the first place.
-/

/-! ### Known numbers -/

/-- An event, with the number of scopes that had begun by then. -/
structure Stamped where
  /-- The number of scopes that had begun. -/
  begun : Nat
  /-- The event. -/
  event : Event
  deriving Repr, DecidableEq

namespace Plan

/-- A plan with the events on the way to it, stamped. -/
abbrev Imposed := Logged Stamped

/-- Stamps every event of a computation. -/
def stamp {α : Type} (begun : Nat) (x : Audited α) : Imposed α := x.mapEntries (⟨begun, ·⟩)

mutual

/-- The plan with the conditions of each scope added at its owner; its first owner has number
`n`. -/
def impose (e : Restriction) (n : Nat) : Plan → Imposed Plan
  | table t => return table t
  | column c => return column c
  | literal v => return literal v
  | param k => return param k
  | raw s => return raw s
  | tenantKey k v => return tenantKey k v
  | keyLink k o => return keyLink k o
  | aliased p a => return aliased (← p.impose e n) a
  | not p => return not (← p.impose e n)
  | group p => return group (← p.impose e n)
  | existence p => return existence (← p.impose e n)
  | call f ps => return call f (← imposeAll e n ps)
  | tuple ps => return tuple (← imposeAll e n ps)
  | and ps => return and (← imposeAll e n ps)
  | equal l r => return equal (← l.impose e n) (← r.impose e (n + l.owners.length))
  | compare op l r => return compare op (← l.impose e n) (← r.impose e (n + l.owners.length))
  | or l r => return or (← l.impose e n) (← r.impose e (n + l.owners.length))
  | union all l r => return union all (← l.impose e n) (← r.impose e (n + l.owners.length))
  | select ⟨ps, source, ws, gs, vs, having, os, limit, offset⟩ => do
    -- The numbers of the first owners of the clauses, in the order of `owners`.
    let n₁ := n + 1
    let n₂ := n₁ + (ownersOption source).length
    let n₃ := n₂ + (ownersAll ps).length
    let n₄ := n₃ + (ownersAll ws).length
    let n₅ := n₄ + (ownersAll gs).length
    let n₆ := n₅ + (ownersAll vs).length
    let n₇ := n₆ + (ownersOption having).length
    let stop := n₇ + (ownersAll os).length
    let source ← imposeOption e n₁ source
    let ps ← imposeAll e n₂ ps
    let ws ← imposeAll e n₃ ws
    let gs ← imposeAll e n₄ gs
    let vs ← imposeAll e n₅ vs
    let having ← imposeOption e n₆ having
    let os ← imposeAll e n₇ os
    -- The scopes within are complete now; what this one needs comes last.
    stamp stop (.writeAll (e.report n))
    let source ← stamp stop (source.mapM (linkAll e.partitioning (e.linkKeys n)))
    return select ⟨ps, source, addWheres (e.keyConditions n) ws, gs, vs, having, os, limit, offset⟩
  | join kind l r on => do
    if kind.isOuter then
      -- The join has the number `n` itself.
      let n₁ := n + 1
      let n₂ := n₁ + l.owners.length
      let n₃ := n₂ + r.owners.length
      let stop := n₃ + (ownersOption on).length
      let l ← l.impose e n₁
      let r ← r.impose e n₂
      let on ← imposeOption e n₃ on
      stamp stop (.writeAll (e.report n))
      let (l, r) ← stamp stop (linkSides e.partitioning (e.linkKeys n) (l, r))
      return join kind l r (addOn (e.keyConditions n) on)
    else
      -- The join owns no scope: what its sides read belongs to the scope around it.
      let n₁ := n + l.owners.length
      let n₂ := n₁ + r.owners.length
      let l ← l.impose e n
      let r ← r.impose e n₁
      let on ← imposeOption e n₂ on
      return join kind l r on
  | update target assignments ws => do
    let n₁ := n + target.owners.length
    let n₂ := n₁ + (ownersAssignments assignments).length
    return update (← target.impose e n) (← imposeAssignments e n₁ assignments)
      (← imposeAll e n₂ ws)
  | delete target ws =>
    return delete (← target.impose e n) (← imposeAll e (n + target.owners.length) ws)

/-- The conditions added in a list, one plan after another. -/
def imposeAll (e : Restriction) (n : Nat) : List Plan → Imposed (List Plan)
  | [] => return []
  | p :: ps => return (← p.impose e n) :: (← imposeAll e (n + p.owners.length) ps)

/-- The conditions added in an optional part. -/
def imposeOption (e : Restriction) (n : Nat) : Option Plan → Imposed (Option Plan)
  | none => return none
  | some p => return some (← p.impose e n)

/-- The conditions added in the values of assignments. -/
def imposeAssignments (e : Restriction) (n : Nat) :
    List (String × Plan) → Imposed (List (String × Plan))
  | [] => return []
  | (c, p) :: rest =>
    return (c, ← p.impose e n) :: (← imposeAssignments e (n + p.owners.length) rest)

end

end Plan

/-! ### Where a run stops -/

namespace Scope

/-- The first place, counted from `n`, where the owners of recorded scopes and those of a plan
part. -/
def mismatch? (n : Nat) : List Owner → List Owner → Option ScopeError
  | [], [] => none
  | [], found :: _ => some (.missing n found)
  | recorded, [] => some (.unconsumed recorded.length)
  | expected :: recorded, found :: owners =>
    if expected = found then mismatch? (n + 1) recorded owners
    else some (.unrecognized n expected found)

/-- The first place, counted from `n`, where an owner does not find a recorded scope of its own
kind. Scopes that are left over do not matter. -/
def refusal? (n : Nat) : List Owner → List Owner → Option ScopeError
  | _, [] => none
  | [], found :: _ => some (.missing n found)
  | expected :: recorded, found :: owners =>
    if expected = found then refusal? (n + 1) recorded owners
    else some (.unrecognized n expected found)

/-- Was the event written before the error stopped the run? An error at a scope stops the run
before that scope begins; scopes that are left over are noticed at the end. -/
def precedes (error : ScopeError) (e : Stamped) : Bool :=
  match error with
  | .unrecognized n .. | .missing n _ => e.begun ≤ n
  | _ => true

end Scope

/-- A computation up to an error that stops it, if there is one. -/
def upTo {α : Type} (error? : Option ScopeError) (x : Plan.Imposed α) :
    Audited (Except ScopeError α) :=
  match error? with
  | none => ⟨x.entries.map (·.event), .ok x.value⟩
  | some error => ⟨(x.entries.filter (Scope.precedes error)).map (·.event), .error error⟩

namespace Scope

theorem refusal?_nil (n : Nat) (recorded : List Owner) : refusal? n recorded [] = none := by
  cases recorded <;> rfl

theorem refusal?_append (n : Nat) (recorded os os' : List Owner) :
    refusal? n recorded (os ++ os')
      = (refusal? n recorded os).or (refusal? (n + os.length) (recorded.drop os.length) os') := by
  induction os generalizing n recorded with
  | nil => cases recorded <;> rfl
  | cons o os ih =>
    cases recorded with
    | nil => rfl
    | cons expected recorded =>
      rw [List.cons_append, refusal?, refusal?]
      split
      · rw [ih, List.length_cons, List.drop_succ_cons, Nat.add_assoc, Nat.add_comm 1]
      · rfl

/-- Owners and scopes part where an owner is refused, or where there is nothing but scopes left. -/
theorem mismatch?_eq (n : Nat) (recorded owners : List Owner) :
    mismatch? n recorded owners = (refusal? n recorded owners).or
      (if owners.length < recorded.length then
        some (.unconsumed (recorded.length - owners.length)) else none) := by
  induction owners generalizing n recorded with
  | nil => cases recorded <;> rfl
  | cons found owners ih =>
    cases recorded with
    | nil => rfl
    | cons expected recorded =>
      rw [mismatch?, refusal?]
      split
      · rw [ih, List.length_cons, List.length_cons, Nat.add_sub_add_right]
        simp only [Nat.add_lt_add_iff_right]
      · rfl

theorem mismatch?_self (n : Nat) (os : List Owner) : mismatch? n os os = none := by
  induction os generalizing n with
  | nil => rfl
  | cons o os ih => rw [mismatch?, if_pos rfl, ih]

/-- The place of a refusal is among the places of the owners, and what is written before an error
there is what has been written before that place begins. -/
theorem exists_place_of_refusal? {n : Nat} {recorded owners : List Owner} {error : ScopeError}
    (h : refusal? n recorded owners = some error) :
    ∃ i, n ≤ i ∧ i < n + owners.length ∧ ∀ e, precedes error e = decide (e.begun ≤ i) := by
  induction owners generalizing n recorded with
  | nil => cases recorded <;> cases h
  | cons found owners ih =>
    rw [List.length_cons]
    cases recorded with
    | nil =>
      cases h
      exact ⟨n, by omega, by omega, fun _ => rfl⟩
    | cons expected recorded =>
      rw [refusal?] at h
      split at h
      · obtain ⟨i, hlow, hhigh, hprecedes⟩ := ih h
        exact ⟨i, by omega, by omega, hprecedes⟩
      · cases h
        exact ⟨n, by omega, by omega, fun _ => rfl⟩

end Scope

theorem upTo_none {α : Type} (x : Plan.Imposed α) :
    upTo none x = ⟨x.entries.map (·.event), .ok x.value⟩ := rfl

theorem upTo_some {α : Type} (error : ScopeError) (x : Plan.Imposed α) : upTo (some error) x
    = ⟨(x.entries.filter (Scope.precedes error)).map (·.event), .error error⟩ := rfl

/-- When scopes are left over, all has been written. -/
theorem upTo_unconsumed {α : Type} (m : Nat) (x : Plan.Imposed α) :
    upTo (some (.unconsumed m)) x = ⟨x.entries.map (·.event), .error (.unconsumed m)⟩ := by
  have hall : x.entries.filter (Scope.precedes (.unconsumed m)) = x.entries :=
    List.filter_eq_self.2 fun _ _ => rfl
  rw [upTo_some, hall]

/-! ### Claiming step by step -/

namespace Claiming

section

variable {α β : Type} {x : ExceptT ScopeError Audited α} {f : α → ExceptT ScopeError Audited β}
  {es : List Event} {a : α} {error : ScopeError}

/-- After a computation that has not been stopped, the next one goes on. -/
theorem run_bind_of_ok (h : x.run = ⟨es, .ok a⟩) :
    (x >>= f).run = ⟨es ++ (f a).run.entries, (f a).run.value⟩ := by
  show (x.run >>= _ : Audited _) = _
  rw [h]
  rfl

/-- After a computation that has been stopped, there is nothing more. -/
theorem run_bind_of_error (h : x.run = ⟨es, .error error⟩) :
    (x >>= f).run = ⟨es, .error error⟩ := by
  show (x.run >>= _ : Audited _) = _
  rw [h]
  show (⟨es ++ [], _⟩ : Audited _) = _
  rw [List.append_nil]
  rfl

end

variable {α : Type} {n : Nat}

theorem run_audit (x : Audited α) :
    ((audit x).run n).run = ⟨x.entries, .ok (x.value, n)⟩ := by
  show (⟨(x.entries ++ []) ++ [], _⟩ : Audited _) = _
  rw [List.append_nil, List.append_nil]
  rfl

theorem run_claim_of_none {scopes : List Scope} (h : scopes[n]? = none) (owner : Scope.Owner) :
    ((Scope.claim scopes owner).run n).run = ⟨[], .error (.missing n owner)⟩ := by
  simp only [Scope.claim, StateT.run_bind, StateT.run_get, StateT.run_set, pure_bind, h]
  rfl

theorem run_claim_of_some {scopes : List Scope} {s : Scope} (h : scopes[n]? = some s)
    (owner : Scope.Owner) : ((Scope.claim scopes owner).run n).run = ⟨[],
      if s.owner = owner then .ok (n, n + 1) else .error (.unrecognized n s.owner owner)⟩ := by
  simp only [Scope.claim, StateT.run_bind, StateT.run_get, StateT.run_set, pure_bind, h]
  split <;> rfl

end Claiming

/-- The computation `x` claims the scopes of `owners`, the first of which has number `n`. It does
what `y` does, which knows the numbers, but stops at the first owner that is refused. -/
structure Claims (scopes : List Scope) {α : Type} (n : Nat) (owners : List Scope.Owner)
    (x : Claiming α) (y : Plan.Imposed α) : Prop where
  /-- What is done. -/
  run : (x.run n).run = upTo (Scope.refusal? n ((scopes.map (·.owner)).drop n) owners)
    ((·, n + owners.length) <$> y)
  /-- When it is done. -/
  begun : ∀ e ∈ y.entries, n ≤ e.begun ∧ e.begun ≤ n + owners.length

namespace Claims

variable {scopes : List Scope} {α β : Type} {n : Nat} {os os' : List Scope.Owner}
  {x : Claiming α} {y : Plan.Imposed α}

theorem pure (a : α) : Claims scopes n [] (Pure.pure a) (Pure.pure a) where
  run := by
    rw [Scope.refusal?_nil]
    rfl
  begun := nofun

/-- What claims nothing is done when the owners before it have begun. -/
theorem audit (x : Audited α) : Claims scopes n [] (Claiming.audit x) (Plan.stamp n x) where
  run := by
    rw [Scope.refusal?_nil, Claiming.run_audit]
    simp [upTo, Plan.stamp, Function.comp_def]
  begun e he := by
    obtain ⟨_, _, rfl⟩ := List.mem_map.1 he
    exact ⟨Nat.le_refl n, Nat.le_refl n⟩

/-- What is written before a later claim is refused stays written. -/
theorem filter_precedes_of_later (hx : Claims scopes n os x y) {recorded : List Scope.Owner}
    {error : ScopeError} (h : Scope.refusal? (n + os.length) recorded os' = some error) :
    y.entries.filter (Scope.precedes error) = y.entries := by
  obtain ⟨i, hi, -, hprecedes⟩ := Scope.exists_place_of_refusal? h
  refine List.filter_eq_self.2 fun e he => ?_
  have hbegun := hx.begun e he
  rw [hprecedes, decide_eq_true_eq]
  omega

/-- Nothing is written after an earlier claim has been refused. -/
theorem filter_precedes_of_earlier (hx : Claims scopes (n + os.length) os' x y)
    {recorded : List Scope.Owner} {error : ScopeError}
    (h : Scope.refusal? n recorded os = some error) :
    y.entries.filter (Scope.precedes error) = [] := by
  obtain ⟨i, -, hi, hprecedes⟩ := Scope.exists_place_of_refusal? h
  refine List.filter_eq_nil_iff.2 fun e he => ?_
  have hbegun := hx.begun e he
  rw [hprecedes, decide_eq_true_eq]
  omega

/-- Claims are made one after another. -/
theorem bind {f : α → Claiming β} {h : α → Plan.Imposed β} (hx : Claims scopes n os x y)
    (hf : Claims scopes (n + os.length) os' (f y.value) (h y.value)) :
    Claims scopes n (os ++ os') (x >>= f) (y >>= h) where
  run := by
    rw [Scope.refusal?_append, List.drop_drop]
    have hrun := hx.run
    cases hrefused : Scope.refusal? n ((scopes.map (·.owner)).drop n) os with
    | some error =>
      rw [hrefused, upTo_some] at hrun
      rw [StateT.run_bind, Claiming.run_bind_of_error hrun, Option.some_or, upTo_some]
      simp [hf.filter_precedes_of_earlier hrefused]
    | none =>
      rw [hrefused, upTo_none, Logged.value_map] at hrun
      rw [StateT.run_bind, Claiming.run_bind_of_ok hrun, hf.run, Option.none_or]
      cases hrefused' : Scope.refusal? (n + os.length)
          ((scopes.map (·.owner)).drop (n + os.length)) os' with
      | some error =>
        rw [upTo_some, upTo_some]
        simp [hx.filter_precedes_of_later hrefused']
      | none =>
        rw [upTo_none, upTo_none, List.length_append]
        simp [Nat.add_assoc]
  begun e he := by
    rw [List.length_append]
    rcases List.mem_append.1 he with he | he
    · have hbegun := hx.begun e he
      omega
    · have hbegun := hf.begun e he
      omega

/-- What is done after all claims needs no owners of its own. -/
theorem bind_last {f : α → Claiming β} {h : α → Plan.Imposed β} (hx : Claims scopes n os x y)
    (hf : Claims scopes (n + os.length) [] (f y.value) (h y.value)) :
    Claims scopes n os (x >>= f) (y >>= h) := by
  have hbind := hx.bind hf
  rwa [List.append_nil] at hbind

theorem map (f : α → β) (hx : Claims scopes n os x y) :
    Claims scopes n os (x >>= fun a => Pure.pure (f a)) (y >>= fun a => Pure.pure (f a)) :=
  hx.bind_last (.pure (f y.value))

/-- An owner claims one scope, and learns its number by that. -/
theorem claim (owner : Scope.Owner) :
    Claims scopes n [owner] (Scope.claim scopes owner) (Pure.pure n) where
  run := by
    cases h : scopes[n]? with
    | none =>
      have hdrop : (scopes.map (·.owner)).drop n = [] := by
        rw [List.drop_eq_nil_iff, List.length_map]
        exact List.getElem?_eq_none_iff.1 h
      rw [Claiming.run_claim_of_none h, hdrop]
      rfl
    | some s =>
      have hdrop : (scopes.map (·.owner)).drop n
          = s.owner :: (scopes.map (·.owner)).drop (n + 1) := by
        rw [List.drop_eq_getElem?_toList_append, List.getElem?_map, h]
        rfl
      rw [Claiming.run_claim_of_some h, hdrop, Scope.refusal?, Scope.refusal?_nil]
      split <;> rfl
  begun := nofun

/-- What is done after a claim knows the number of the scope. -/
theorem claim_bind {owner : Scope.Owner} {f : Nat → Claiming α}
    (hf : Claims scopes (n + 1) os (f n) y) :
    Claims scopes n (owner :: os) (Scope.claim scopes owner >>= f) y :=
  (claim owner).bind (h := fun _ => y) hf

end Claims

/-! ### Plans -/

namespace Plan

variable (e : Restriction) (scopes : List Scope)

mutual

/-- Every plan claims the scopes of its owners, and has imposed on it what they need. -/
theorem claims_constrain : ∀ (p : Plan) (n : Nat),
    Claims scopes n p.owners (p.constrain e scopes) (p.impose e n)
  | table _, _ | column _, _ | literal _, _ | param _, _ | raw _, _ | tenantKey .., _
  | keyLink .., _ => .pure _
  | aliased p _, n | not p, n | group p, n | existence p, n => (claims_constrain p n).map _
  | call _ ps, n | tuple ps, n | and ps, n => (claims_constrainAll ps n).map _
  | equal l r, n | compare _ l r, n | or l r, n | union _ l r, n =>
    (claims_constrain l n).bind ((claims_constrain r _).map _)
  | select ⟨ps, source, ws, gs, vs, having, os, limit, offset⟩, n => by
    rw [owners]
    simp only [List.append_assoc]
    exact .claim_bind <| .bind (claims_constrainOption source _) <|
      .bind (claims_constrainAll ps _) <| .bind (claims_constrainAll ws _) <|
      .bind (claims_constrainAll gs _) <| .bind (claims_constrainAll vs _) <|
      .bind (claims_constrainOption having _) <| .bind_last (claims_constrainAll os _) <|
      .bind_last (.audit _) <| .bind_last (.audit _) <| .pure _
  | join kind l r on, n => by
    by_cases hkind : kind.isOuter = true
    · rw [owners, constrain, impose, if_pos hkind, if_pos hkind, if_pos hkind]
      simp only [List.append_assoc, List.cons_append, List.nil_append]
      exact .claim_bind <| .bind (claims_constrain l _) <| .bind (claims_constrain r _) <|
        .bind_last (claims_constrainOption on _) <| .bind_last (.audit _) <|
        .bind_last (.audit _) <| .pure _
    · rw [owners, constrain, impose, if_neg hkind, if_neg hkind, if_neg hkind]
      simp only [List.append_assoc, List.nil_append]
      exact .bind (claims_constrain l _) <| .bind (claims_constrain r _) <|
        .bind_last (claims_constrainOption on _) <| .pure _
  | update target assignments ws, n => by
    rw [owners, List.append_assoc]
    exact .bind (claims_constrain target n) <|
      .bind (claims_constrainAssignments assignments _) <| (claims_constrainAll ws _).map _
  | delete target ws, n => .bind (claims_constrain target n) ((claims_constrainAll ws _).map _)

theorem claims_constrainAll : ∀ (ps : List Plan) (n : Nat),
    Claims scopes n (ownersAll ps) (constrainAll e scopes ps) (imposeAll e n ps)
  | [], _ => .pure _
  | p :: ps, n => (claims_constrain p n).bind ((claims_constrainAll ps _).map _)

theorem claims_constrainOption : ∀ (p : Option Plan) (n : Nat),
    Claims scopes n (ownersOption p) (constrainOption e scopes p) (imposeOption e n p)
  | none, _ => .pure _
  | some p, n => (claims_constrain p n).map _

theorem claims_constrainAssignments : ∀ (ps : List (String × Plan)) (n : Nat),
    Claims scopes n (ownersAssignments ps) (constrainAssignments e scopes ps)
      (imposeAssignments e n ps)
  | [], _ => .pure _
  | (_, p) :: rest, n => (claims_constrain p n).bind ((claims_constrainAssignments rest _).map _)

end

/-- **Restriction imposes what each scope needs, or stops where owners and scopes part.** -/
theorem restrictWith_eq (g : Partitioning) {access : Access} (h : access.writeOnly = false)
    (p : Plan) : p.restrictWith g scopes access
      = upTo (Scope.mismatch? 0 (scopes.map (·.owner)) p.owners)
          (p.impose ⟨g, access, Scope.outstandingAt scopes⟩ 0) := by
  have hrun := (claims_constrain ⟨g, access, Scope.outstandingAt scopes⟩ scopes p 0).run
  rw [List.drop_zero, Nat.zero_add] at hrun
  rw [Scope.mismatch?_eq, List.length_map]
  rw [restrictWith, if_neg (by simp [h])]
  cases hrefused : Scope.refusal? 0 (scopes.map (·.owner)) p.owners with
  | some error =>
    rw [hrefused, upTo_some] at hrun
    rw [Claiming.run_bind_of_error hrun, Option.some_or, upTo_some]
    simp
  | none =>
    rw [hrefused, upTo_none] at hrun
    rw [Claiming.run_bind_of_ok hrun, Option.none_or]
    by_cases hleft : p.owners.length < scopes.length
    · rw [if_pos hleft, upTo_unconsumed]
      simp [hleft]
    · rw [if_neg hleft, upTo_none]
      simp [hleft]

/-- Scopes that have the owners of a plan fit the plan. -/
theorem restrictWith_of_eq (g : Partitioning) {access : Access} (h : access.writeOnly = false)
    {p : Plan} (hfits : scopes.map (·.owner) = p.owners) : p.restrictWith g scopes access
      = ⟨(p.impose ⟨g, access, Scope.outstandingAt scopes⟩ 0).entries.map (·.event),
          .ok (p.impose ⟨g, access, Scope.outstandingAt scopes⟩ 0).value⟩ := by
  rw [restrictWith_eq scopes g h p, hfits, Scope.mismatch?_self, upTo_none]

end Plan

end Tenancy
