import Tenancy.Proofs.Restrict.Imposing

namespace Tenancy

/-!
# Settling — restriction without numbers

A restriction finds what a scope needs under the number of the scope. The same can be said without
numbers: what a scope node needs is read off its parts and off what the scopes around it tie to a
tenant.

* `Plan.leftOpen`, `Plan.tiedInside` — what a scope node needs, and what its parts are told of;
* `Plan.settle` — a plan with what each scope node needs added at the node;
* `value_impose_eq_settle` — imposing the scopes of a plan settles it, whatever its first number is;
* `value_restrict_eq_settle` — restricting a plan settles it.
-/

namespace Plan

open ScopeTree (numberAll numberAll_append)

/-- What a node takes over of the relations that the scopes around it tie to a tenant. A `SELECT`
takes over nothing. -/
def takesOver (inherited : List Relation) : Plan → List Relation
  | select _ => []
  | _ => inherited

/-- The relations that the scopes around the parts of a node tie to a tenant, where those around
the node tie `inherited`. -/
def tiedInside (g : Partitioning) (inherited : List Relation) (p : Plan) : List Relation :=
  p.owner?.elim inherited fun _ => (p.interior g).pinned ++ p.takesOver inherited

/-- The relations that a scope node leaves open, where the scopes around it tie `inherited`. -/
def leftOpen (g : Partitioning) (inherited : List Relation) (p : Plan) : List Relation :=
  ((p.interior g).seen.eraseDups.filter (· ∉ (p.interior g).pinned.eraseDups)).filter
    (· ∉ p.takesOver inherited)

/-- The plan surveyed by `g` and restricted by `g'`, where the scopes around it tie `inherited`.
Each scope node is given what it leaves open, once its parts are done. -/
def settle (g g' : Partitioning) (access : Access) : List Relation → Plan → Plan :=
  pass (fun inherited p => p.tiedInside g inherited)
    fun inherited p p' => p'.enforce ⟨g', access, fun _ => p.leftOpen g inherited⟩ 0

theorem settle_eq (g g' : Partitioning) (access : Access) (inherited : List Relation) (p : Plan) :
    p.settle g g' access inherited
      = (p.mapParts (settle g g' access (p.tiedInside g inherited))).enforce
          ⟨g', access, fun _ => p.leftOpen g inherited⟩ 0 :=
  pass_eq _ _ _ p

/-- Where there is no scope, nothing is settled. -/
theorem settle_of_owners_eq_nil (g g' : Partitioning) (access : Access) (inherited : List Relation)
    {p : Plan} (h : p.owners = []) : p.settle g g' access inherited = p := by
  induction p using inductionOnParts generalizing inherited with
  | step p ih =>
    rw [owners_eq, List.append_eq_nil_iff, List.flatMap_eq_nil_iff] at h
    obtain ⟨howner, hparts⟩ := h
    have howner : p.owner? = none := by simpa using howner
    have hsame : p.mapParts (settle g g' access (p.tiedInside g inherited))
        = p.mapParts fun c => c :=
      mapParts_congr fun c hc => ih c hc _ (hparts c hc)
    rw [settle_eq, hsame, mapParts_id, enforce_of_not_owner _ _ howner]

@[simp] theorem takesOver_mapParts (f : Plan → Plan) (inherited : List Relation) (p : Plan) :
    (p.mapParts f).takesOver inherited = p.takesOver inherited := by
  cases p <;> rfl

/-- Enforcing at a node reads what is outstanding in one scope only. -/
theorem enforce_congr {e : Restriction} {n : Nat} {rs : List Relation} (h : e.outstanding n = rs)
    (p : Plan) :
    p.enforce e n = p.enforce ⟨e.partitioning, e.access, fun _ => rs⟩ 0 := by
  subst h
  cases p <;> rfl

/-- Of each scope in a row, the first of which has number `n`, the restriction asks what the scope
leaves outstanding. -/
def AsksFor (e : Restriction) (n : Nat) (scopes : List Scope) : Prop :=
  ∀ i s, scopes[i]? = some s → e.outstanding (n + i) = s.outstanding

theorem AsksFor.append {e : Restriction} {n : Nat} {xs ys : List Scope}
    (h : AsksFor e n (xs ++ ys)) : AsksFor e n xs ∧ AsksFor e (n + xs.length) ys := by
  constructor
  · intro i s hi
    refine h i s ?_
    rw [List.getElem?_append_left (List.getElem?_eq_some_iff.1 hi).1, hi]
  · intro i s hi
    rw [Nat.add_assoc]
    refine h _ s ?_
    rw [List.getElem?_append_right (by omega), Nat.add_sub_cancel_left, hi]

theorem length_numberAll (g : Partitioning) (p : Plan) (reading : Reading) (parent : Option Nat)
    (inherited : List Relation) (n : Nat) :
    (numberAll parent inherited n (p.survey g reading).inner).length = p.owners.length := by
  rw [(records_numberAll g p reading parent inherited n).length_eq, length_scopeNodes]

/-- The scope of a node comes first, and those inside it take over what the node ties. -/
theorem numberAll_scope {p : Plan} {o : Scope.Owner} (ho : p.owner? = some o) (f : Findings)
    (parent : Option Nat) (inherited : List Relation) (n : Nat) :
    numberAll parent inherited n (Findings.scope o f).inner
      = { id := n, owner := o, parent, seen := f.seen.eraseDups, pinned := f.pinned.eraseDups,
          inherited := p.takesOver inherited }
        :: numberAll (some n) (f.pinned ++ p.takesOver inherited) (n + 1) f.inner := by
  have htakes : p.takesOver inherited = match o with
      | .select => []
      | .outerJoin => inherited := by
    cases p with
    | select q =>
      obtain rfl : Scope.Owner.select = o := Option.some.inj ho
      rfl
    | join kind l r on =>
      cases hkind : kind.isOuter <;> simp only [owner?, hkind] at ho
      · simp at ho
      · obtain rfl : Scope.Owner.outerJoin = o := by simpa using ho
        rfl
    | _ => simp [owner?] at ho
  rw [htakes, Findings.scope, numberAll, numberAll, List.append_nil]
  cases o <;> rfl

/-- The parts of a node stand in the same scopes, one part after another. -/
private theorem imposeParts_eq_settle {e : Restriction} {g : Partitioning} {reading : Reading}
    {parent : Option Nat} {inherited : List Relation} {n : Nat} {cs : List (Role × Plan)}
    (ih : ∀ c ∈ cs, ∀ (reading : Reading) (n : Nat),
      AsksFor e n (numberAll parent inherited n (c.2.survey g reading).inner) →
      (c.2.impose e n).value = c.2.settle g e.partitioning e.access inherited)
    (h : AsksFor e n (numberAll parent inherited n (surveyParts g reading cs).inner)) :
    (imposeParts e n cs).map (·.2)
      = cs.map fun c => c.2.settle g e.partitioning e.access inherited := by
  induction cs generalizing n with
  | nil => rfl
  | cons c cs ihcs =>
    rw [surveyParts_cons, Findings.inner_append, numberAll_append] at h
    obtain ⟨hc, hcs⟩ := h.append
    rw [length_numberAll] at hcs
    rw [imposeParts, List.map_cons, List.map_cons, ih c List.mem_cons_self _ n hc,
      ihcs (fun c' hc' => ih c' (List.mem_cons_of_mem _ hc')) hcs]

/-- Imposing what the scopes of a plan leave outstanding settles the plan, whatever stands around it
and whatever its first number is. -/
theorem value_impose_eq_settle {e : Restriction} {g : Partitioning} (p : Plan) (reading : Reading)
    (parent : Option Nat) (inherited : List Relation) (n : Nat)
    (h : AsksFor e n (numberAll parent inherited n (p.survey g reading).inner)) :
    (p.impose e n).value = p.settle g e.partitioning e.access inherited := by
  induction p using inductionOnParts generalizing reading parent inherited n with
  | step p ih =>
    have hbelow : ∀ {reading : Reading} {parent : Option Nat} {inherited : List Relation},
        AsksFor e (n + p.owner?.toList.length) (numberAll parent inherited
          (n + p.owner?.toList.length) (surveyParts g reading p.parts).inner) →
        p.imposeBelow e n = p.mapParts (settle g e.partitioning e.access inherited) := by
      intro reading parent inherited h
      rw [← mapParts_id (p.imposeBelow e n)]
      refine mapParts_imposeBelow e n ?_
      rw [parts_imposeBelow]
      exact imposeParts_eq_settle (fun c hc reading n => ih c hc reading parent inherited n) h
    rw [value_impose, settle_eq]
    cases ho : p.owner? with
    | none =>
      have howner : ∀ f, (p.mapParts f).owner? = none := fun f => by rw [owner?_mapParts, ho]
      rw [survey_of_not_owner ho, Findings.inner_append, inner_mention] at h
      rw [hbelow (by rw [ho]; exact h), enforce_of_not_owner _ _ (howner _),
        enforce_of_not_owner _ _ (howner _), tiedInside, ho, Option.elim_none]
    | some o =>
      rw [survey_of_owner ho, numberAll_scope ho] at h
      -- The node has number `n` itself, and its scope leaves open what it is given.
      have hhead : e.outstanding n = p.leftOpen g inherited := h 0 _ rfl
      have htail : AsksFor e (n + 1) (numberAll (some n)
          ((p.interior g).pinned ++ p.takesOver inherited) (n + 1) (p.interior g).inner) := by
        intro i s hi
        rw [Nat.add_right_comm]
        exact h (i + 1) s hi
      rw [hbelow (by rw [ho]; exact htail), tiedInside, ho, Option.elim_some, enforce_congr hhead]

/-- Restricting a plan settles it. Around a whole plan there is no scope. -/
theorem value_restrict_eq_settle (g : Partitioning) {access : Access}
    (h : access.writeOnly = false) (p : Plan) :
    (p.restrict g access).value = .ok (p.settle g g access []) := by
  rw [value_restrict g h]
  refine congrArg Except.ok (value_impose_eq_settle p .condition none [] 0 ?_)
  intro i s hs
  have hscope : (p.scopes g)[i]? = some s := hs
  simp [due, Scope.outstandingAt, hscope]

end Plan

end Tenancy
