import Tenancy.Proofs.Plan.Marks
import Tenancy.Proofs.Scope.Numbering

namespace Tenancy

/-!
# Pairing — recorded scopes fit a plan exactly if both have the same owners

The owners of a plan claim the scopes that have been recorded, one after another, in the order in
which they begin. The first claim that fails ends the restriction, and so does a scope that nobody
has claimed.

* `Scope.PartAt` — the first place where two rows of owners part;
* `Scope.partingError` — what is wrong there;
* `value_restrictWith_of_partAt` — restriction stops with this error;
* `restrictWith_pairs_scopes` — a survey of a plan always fits the plan, and a survey of another one
  fits it exactly if the owners are the same.
-/

namespace Scope

/-- Place `i` is the first where two rows of owners part: they agree before it, and at it they have
different owners, or one of them has ended. -/
structure PartAt (recorded found : List Owner) (i : Nat) : Prop where
  before : recorded.take i = found.take i
  here : recorded[i]? ≠ found[i]?

/-- What is wrong at a place where the row of recorded owners and that of a plan part, with what
each has there. If the plan has ended, `remaining` scopes are left over. -/
def partingError (place remaining : Nat) : Option Owner → Option Owner → ScopeError
  | some expected, some found => .unrecognized place expected found
  | none, some found => .missing place found
  | _, none => .unconsumed remaining

/-- Past an owner that both rows have, the rows part where the rests of them do. -/
theorem partAt_cons {x y : Owner} {xs ys : List Owner} {i : Nat} :
    PartAt (x :: xs) (y :: ys) (i + 1) ↔ x = y ∧ PartAt xs ys i := by
  constructor
  · rintro ⟨hbefore, hhere⟩
    simp only [List.take_succ_cons, List.cons.injEq] at hbefore
    exact ⟨hbefore.1, hbefore.2, by simpa using hhere⟩
  · rintro ⟨rfl, hbefore, hhere⟩
    exact ⟨by rw [List.take_succ_cons, List.take_succ_cons, hbefore], by simpa using hhere⟩

/-- Two rows part somewhere unless they are the same. -/
theorem exists_partAt {xs ys : List Owner} (h : xs ≠ ys) : ∃ i, PartAt xs ys i := by
  induction xs generalizing ys with
  | nil =>
    cases ys with
    | nil => exact absurd rfl h
    | cons y ys => exact ⟨0, rfl, by simp⟩
  | cons x xs ih =>
    cases ys with
    | nil => exact ⟨0, rfl, by simp⟩
    | cons y ys =>
      by_cases hxy : x = y
      · obtain ⟨i, hi⟩ := ih fun hrest => h (by rw [hxy, hrest])
        exact ⟨i + 1, partAt_cons.2 ⟨hxy, hi⟩⟩
      · exact ⟨0, rfl, by simpa using hxy⟩

/-- The run along two rows stops at the first place where they part. Its places count from `n`. -/
theorem mismatch?_of_partAt {recorded found : List Owner} {i : Nat} (h : PartAt recorded found i)
    (n : Nat) : mismatch? n recorded found
      = some (partingError (n + i) (recorded.length - found.length) recorded[i]? found[i]?) := by
  induction i generalizing recorded found n with
  | zero =>
    have hhere := h.here
    -- The rows part at their very start, and there are not two ends of rows there.
    cases recorded with
    | nil =>
      cases found with
      | nil => exact absurd rfl hhere
      | cons o owners => rfl
    | cons expected recorded =>
      cases found with
      | nil => rfl
      | cons o owners =>
        have hne : expected ≠ o := by simpa using hhere
        rw [mismatch?, if_neg hne]
        rfl
  | succ i ih =>
    have hbefore := h.before
    have hhere := h.here
    cases recorded with
    | nil => cases found <;> simp at hbefore hhere
    | cons expected recorded =>
      cases found with
      | nil => simp at hbefore
      | cons o owners =>
        obtain ⟨rfl, hrest⟩ := partAt_cons.1 h
        rw [mismatch?, if_pos rfl, ih hrest (n + 1), List.length_cons, List.length_cons,
          Nat.add_sub_add_right, List.getElem?_cons_succ, List.getElem?_cons_succ, Nat.add_assoc,
          Nat.add_comm 1]

end Scope

namespace Plan

theorem value_restrictWith_of_partAt (g : Partitioning) {access : Access}
    (hw : access.writeOnly = false) {p : Plan} {scopes : List Scope} {i : Nat}
    (h : Scope.PartAt (scopes.map (·.owner)) p.owners i) :
    (p.restrictWith g scopes access).value
      = .error (Scope.partingError i (scopes.length - p.owners.length)
          (scopes.map (·.owner))[i]? p.owners[i]?) := by
  have hmismatch := Scope.mismatch?_of_partAt h 0
  rw [Nat.zero_add, List.length_map] at hmismatch
  rw [restrictWith_eq scopes g hw p, hmismatch, upTo_some]

/-- **Surveys and restrictions pair up, and what does not fit is reported exactly.** The owners of
a plan are the kinds of those of its nodes that own a scope, as they are read, and the scopes of its
survey have just these owners, so restriction never fails. The scopes of another plan, surveyed and
imposed by any partitionings, fit a plan exactly if both plans have the same owners. Otherwise the
owners part at a first place, and the error says what each plan has there. -/
theorem restrictWith_pairs_scopes (g : Partitioning) (p : Plan) :
    p.owners = p.nodes.filterMap owner? ∧
    (p.scopes g).map (·.owner) = p.owners ∧
    (∀ access, ∃ q, (p.restrict g access).value = .ok q) ∧
    ∀ (g' : Partitioning) (p' : Plan) (access : Access), access.writeOnly = false →
      ((∃ q, (p.restrictWith g (p'.scopes g') access).value = .ok q) ↔ p.owners = p'.owners) ∧
      (p.owners ≠ p'.owners → ∃ i, Scope.PartAt p'.owners p.owners i) ∧
      ∀ i, Scope.PartAt p'.owners p.owners i →
        (p.restrictWith g (p'.scopes g') access).value
          = .error (Scope.partingError i (p'.owners.length - p.owners.length)
              p'.owners[i]? p.owners[i]?) := by
  refine ⟨owners_eq_filterMap p, map_owner_scopes g p, fun access => ?_, fun g' p' access hw => ?_⟩
  · cases hw : access.writeOnly with
    | true => exact ⟨_, value_restrict_writeOnly g hw p⟩
    | false => exact ⟨_, value_restrict g hw p⟩
  · have howners := map_owner_scopes g' p'
    have hlength : (p'.scopes g').length = p'.owners.length := by
      rw [← howners, List.length_map]
    have herror : ∀ i, Scope.PartAt p'.owners p.owners i →
        (p.restrictWith g (p'.scopes g') access).value
          = .error (Scope.partingError i (p'.owners.length - p.owners.length)
              p'.owners[i]? p.owners[i]?) := by
      intro i hi
      rw [← howners] at hi
      rw [value_restrictWith_of_partAt g hw hi, howners, hlength]
    refine ⟨⟨?_, fun heq => ?_⟩, fun hne => Scope.exists_partAt (Ne.symm hne), herror⟩
    · -- A run that answers has met no place where the owners part.
      rintro ⟨q, hq⟩
      by_contra hne
      obtain ⟨i, hi⟩ := Scope.exists_partAt (Ne.symm hne)
      rw [herror i hi] at hq
      cases hq
    · exact ⟨_, value_restrictWith_of_eq g hw (howners.trans heq.symm)⟩

/-- Orders, each with its items if it has any. -/
def ordersPerhapsItems : Plan :=
  select { source := some (join .left (table "orders") (table "items") none) }

/-- Orders with items, in a subquery. -/
def ordersInside : Plan := select { source := some (aliased (select {}) "o") }

/-- Scopes of one plan are refused for another, in each of the three ways. -/
theorem restrictWith_refuses_other_scopes :
    (ordersInside.restrictWith shop (ordersPerhapsItems.scopes shop) {}).value
        = .error (.unrecognized 1 .outerJoin .select) ∧
      (ordersPerhapsItems.restrictWith shop ((select {}).scopes shop) {}).value
        = .error (.missing 1 .outerJoin) ∧
      ((select {}).restrictWith shop (ordersPerhapsItems.scopes shop) {}).value
        = .error (.unconsumed 1) :=
  ⟨((restrictWith_pairs_scopes shop ordersInside).2.2.2 shop ordersPerhapsItems {} rfl).2.2 1
      ⟨rfl, by decide⟩,
    ((restrictWith_pairs_scopes shop ordersPerhapsItems).2.2.2 shop (select {}) {} rfl).2.2 1
      ⟨rfl, by decide⟩,
    ((restrictWith_pairs_scopes shop (select {})).2.2.2 shop ordersPerhapsItems {} rfl).2.2 1
      ⟨rfl, by decide⟩⟩

end Plan

end Tenancy
