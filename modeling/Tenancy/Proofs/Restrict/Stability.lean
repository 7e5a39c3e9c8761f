import Tenancy.Proofs.Restrict.ScopeNodes

namespace Tenancy

/-!
# Stability — restricting a restricted plan changes nothing

* `Plan.Numbered` — what holds of each scope node with its number;
* `numbered_impose` — what enforcing establishes at a scope node and linking keeps holds of every
  scope node of a restricted plan;
* `Plan.Satisfied` — a scope node for which a restriction asks nothing more;
* `impose_of_satisfied` — where every scope node is satisfied, nothing is imposed;
* `restrict_complete_and_idempotent` — a plan restricted to a tenant has nothing outstanding, and no
  second restriction changes it.
-/

namespace Plan

/-! ### Scope nodes with their numbers -/

/-- `P` holds of each node with its number, the first of which is `n`. -/
def Numbered (P : Nat → Plan → Prop) (n : Nat) : List Plan → Prop
  | [] => True
  | p :: ps => P n p ∧ Numbered P (n + 1) ps

section

variable {P : Nat → Plan → Prop}

theorem numbered_append {n : Nat} {ps qs : List Plan} :
    Numbered P n (ps ++ qs) ↔ Numbered P n ps ∧ Numbered P (n + ps.length) qs := by
  induction ps generalizing n with
  | nil => simp [Numbered]
  | cons p ps ih =>
    simp only [List.cons_append, Numbered, ih, List.length_cons, and_assoc]
    rw [Nat.add_assoc, Nat.add_comm 1]

theorem Numbered.get {n i : Nat} {ps : List Plan} (h : Numbered P n ps) {p : Plan}
    (hp : ps[i]? = some p) : P (n + i) p := by
  induction ps generalizing n i with
  | nil => simp at hp
  | cons q qs ih =>
    cases i with
    | zero =>
      obtain rfl : q = p := by simpa using hp
      exact h.1
    | succ i =>
      have := ih h.2 hp
      rwa [Nat.add_right_comm] at this

theorem Numbered.imp {Q : Nat → Plan → Prop} {n : Nat} {ps : List Plan} (h : Numbered P n ps)
    (hPQ : ∀ n p, P n p → Q n p) : Numbered Q n ps := by
  induction ps generalizing n with
  | nil => trivial
  | cons p ps ih => exact ⟨hPQ n p h.1, ih h.2⟩

theorem numbered_of_getElem? {n : Nat} {ps : List Plan}
    (h : ∀ i p, ps[i]? = some p → P (n + i) p) : Numbered P n ps := by
  induction ps generalizing n with
  | nil => trivial
  | cons p ps ih =>
    refine ⟨h 0 p rfl, ih fun i q hq => ?_⟩
    rw [Nat.add_right_comm]
    exact h (i + 1) q hq

/-- The scope nodes of parts, one part after another. -/
theorem numbered_cons_parts {n : Nat} {c : Role × Plan} {cs : List (Role × Plan)} :
    Numbered P n ((c :: cs).flatMap (·.2.scopeNodes)) ↔
      Numbered P n c.2.scopeNodes ∧
        Numbered P (n + c.2.owners.length) (cs.flatMap (·.2.scopeNodes)) := by
  rw [List.flatMap_cons, numbered_append, length_scopeNodes]

/-- The scope nodes of a plan: itself, if it owns a scope, and those of its parts. -/
theorem numbered_scopeNodes {n : Nat} {p : Plan} :
    Numbered P n p.scopeNodes ↔ (p.owner?.isSome → P n p) ∧
      Numbered P (n + p.owner?.toList.length) (p.parts.flatMap (·.2.scopeNodes)) := by
  rw [scopeNodes_eq, numbered_append]
  cases p.owner? <;> simp [Numbered]

/-- What holds of all that comes from numbered nodes holds of nodes with these numbers. -/
private theorem numbered_of_forall₂ {e : Restriction} {n : Nat} {ps qs : List Plan}
    (h : List.Forall₂ (ComesFrom e) (ps.zipIdx n) qs)
    (hP : ∀ p ∈ ps, ∀ i q, ComesFrom e (p, i) q → P i q) : Numbered P n qs := by
  induction ps generalizing n qs with
  | nil =>
    cases h
    trivial
  | cons p ps ih =>
    rw [List.zipIdx_cons] at h
    cases h with
    | cons hpq h =>
      exact ⟨hP p List.mem_cons_self n _ hpq,
        ih h fun p' hp' => hP p' (List.mem_cons_of_mem _ hp')⟩

variable {e : Restriction}

/-- What enforcing establishes at a scope node and linking keeps holds of every scope node of a
restricted plan. -/
theorem numbered_impose
    (hlink : ∀ (n : Nat) (p : Plan) (key : Column), p.owner?.isSome → P n p →
      P n (p.link e.partitioning key).value)
    (henforce : ∀ (n : Nat) (p : Plan), p.owner?.isSome → P n (p.enforce e n))
    (n : Nat) (p : Plan) :
    Numbered P n (p.impose e n).value.scopeNodes := by
  refine numbered_of_forall₂ (scopeNodes_impose e n p) fun q hq i q' h => ?_
  have ho : q.owner?.isSome := (List.mem_filter.1 hq).2
  refine h.induction ho ?_ fun q key => hlink i q key
  rw [value_impose]
  exact henforce i _ (by rwa [(sameNode_imposeBelow e i q).owner?_eq])

end

/-! ### Nothing more to ask -/

/-- Every link that scope `n` needs is in the trees of the node. -/
def AllLinked (e : Restriction) (n : Nat) (p : Plan) : Prop :=
  ∀ t ∈ p.trees, ∀ k ∈ e.linkKeys n, t.Linked e.partitioning k

/-- The restriction asks nothing more of the node for scope `n`. -/
def Satisfied (e : Restriction) (n : Nat) (p : Plan) : Prop :=
  e.keyConditions n = [] ∧ p.AllLinked e n

theorem enforce_of_satisfied {e : Restriction} {n : Nat} {p : Plan} (h : p.Satisfied e n) :
    p.enforce e n = p := by
  obtain ⟨hconditions, hlinked⟩ := h
  cases p with
  | select q =>
    have hsource : q.source.map (fun s => (linkAll e.partitioning (e.linkKeys n) s).value)
        = q.source := by
      cases hs : q.source with
      | none => rfl
      | some s => rw [Option.map_some, linkAll_of_linked (hlinked s (by simp [trees, hs]))]
    rw [enforce, hconditions, addWheres_nil, hsource]
  | join kind l r on =>
    rw [enforce, hconditions, addOn_nil, linkAll_of_linked (hlinked l (by simp [trees])),
      linkAll_of_linked (hlinked r (by simp [trees])), ite_self]
  | _ => rfl

private theorem imposeParts_of_satisfied {e : Restriction} {n : Nat} {cs : List (Role × Plan)}
    (ih : ∀ c ∈ cs, ∀ n, Numbered (Satisfied e) n c.2.scopeNodes → (c.2.impose e n).value = c.2)
    (h : Numbered (Satisfied e) n (cs.flatMap (·.2.scopeNodes))) : imposeParts e n cs = cs := by
  induction cs generalizing n with
  | nil => rfl
  | cons c cs ihcs =>
    rw [numbered_cons_parts] at h
    rw [imposeParts, ih c List.mem_cons_self n h.1,
      ihcs (fun c' hc' => ih c' (List.mem_cons_of_mem _ hc')) h.2]

/-- Where every scope node is satisfied, nothing is imposed. -/
theorem impose_of_satisfied {e : Restriction} {n : Nat} {p : Plan}
    (h : Numbered (Satisfied e) n p.scopeNodes) : (p.impose e n).value = p := by
  induction p using inductionOnParts generalizing n with
  | step p ih =>
    rw [numbered_scopeNodes] at h
    have hparts := parts_imposeBelow e n p
    rw [imposeParts_of_satisfied ih h.2] at hparts
    rw [value_impose, (sameNode_imposeBelow e n p).eq_of_parts hparts]
    cases ho : p.owner? with
    | none => exact enforce_of_not_owner e n ho
    | some o => exact enforce_of_satisfied (h.1 (by simp [ho]))

/-- Where there is no scope, nothing is imposed. -/
theorem impose_of_owners_eq_nil (e : Restriction) (n : Nat) {p : Plan} (h : p.owners = []) :
    (p.impose e n).value = p :=
  impose_of_satisfied (by rw [scopeNodes_eq_nil h]; trivial)

theorem imposeAll_of_owners_eq_nil (e : Restriction) (n : Nat) {ps : List Plan}
    (h : ∀ p ∈ ps, p.owners = []) : (imposeAll e n ps).value = ps := by
  induction ps generalizing n with
  | nil => rfl
  | cons p ps ih =>
    simp only [imposeAll, Logged.value_bind, Logged.value_pure]
    rw [impose_of_owners_eq_nil e n (h p List.mem_cons_self),
      ih _ fun q hq => h q (List.mem_cons_of_mem _ hq)]

/-! ### What a restriction leaves behind -/

theorem allLinked_link {e : Restriction} {n : Nat} {p : Plan} (key : Column)
    (h : p.AllLinked e n) : (p.link e.partitioning key).value.AllLinked e n := by
  cases p with
  | join kind l r on =>
    intro t ht k hk
    rw [value_link_join] at ht
    simp only [trees, List.mem_cons, List.not_mem_nil, or_false] at ht
    rcases ht with rfl | rfl
    · exact (h l (by simp [trees]) k hk).link
    · exact (h r (by simp [trees]) k hk).link
  | _ => exact h

theorem allLinked_enforce {e : Restriction} {n : Nat} {p : Plan} (ho : p.owner?.isSome) :
    (p.enforce e n).AllLinked e n := by
  intro t ht k hk
  cases p with
  | select q =>
    simp only [enforce, trees, Option.mem_toList, Option.map_eq_some_iff] at ht
    obtain ⟨s, _, rfl⟩ := ht
    exact linked_linkAll hk s
  | join kind l r on =>
    rw [isSome_owner?_join] at ho
    simp only [enforce, if_pos ho, trees, List.mem_cons, List.not_mem_nil, or_false] at ht
    rcases ht with rfl | rfl
    · exact linked_linkAll hk l
    · exact linked_linkAll hk r
  | _ => simp [owner?] at ho

/-- A restricted plan has every link that its scopes need. -/
theorem allLinked_impose (e : Restriction) (n : Nat) (p : Plan) :
    Numbered (fun n p => AllLinked e n p) n (p.impose e n).value.scopeNodes :=
  numbered_impose (fun _ _ key _ h => allLinked_link key h) (fun _ _ ho => allLinked_enforce ho) n p

/-- What was outstanding in scope `n` is tied to a tenant inside the node. -/
def Pins (e : Restriction) (n : Nat) (p : Plan) : Prop :=
  ∀ r ∈ e.outstanding n, e.partitioning.covers r.table →
    r ∈ (p.interior e.partitioning).pinned

theorem pins_link {e : Restriction} {n : Nat} {p : Plan} (key : Column) (ho : p.owner?.isSome)
    (h : p.Pins e n) : (p.link e.partitioning key).value.Pins e n := by
  intro r hr hcovers
  obtain ⟨o, ho⟩ := Option.isSome_iff_exists.1 ho
  exact (grows_link key p).pinned_interior ho ((owner?_link _ key p).trans ho) (h r hr hcovers)

theorem mem_keyConditions {e : Restriction} {t : Tenant} (ht : e.access.tenant = some t) {n : Nat}
    {r : Relation} (hr : r ∈ e.outstanding n) (hcovers : e.partitioning.covers r.table) :
    ∃ p, e.partitioning.of? r.table = some p ∧ p.keyCondition r t ∈ e.keyConditions n := by
  obtain ⟨p, hp⟩ := Option.isSome_iff_exists.1 hcovers
  refine ⟨p, hp, List.mem_filterMap.2 ⟨r, hr, ?_⟩⟩
  simp [hp, ht]

theorem pins_enforce {e : Restriction} {t : Tenant} (ht : e.access.tenant = some t) {n : Nat}
    {p : Plan} (ho : p.owner?.isSome) : (p.enforce e n).Pins e n := by
  intro r hr hcovers
  -- The condition for `r` is one of those that are added, and it ties `r`.
  obtain ⟨part, _, hmem⟩ := mem_keyConditions ht hr hcovers
  have hpinned : r ∈ (e.keyConditions n).flatMap fun c =>
      (c.survey e.partitioning .condition).pinned :=
    List.mem_flatMap.2 ⟨_, hmem, by simp [Partition.keyCondition, survey, Relation.column]⟩
  rw [interior, pinned_surveyParts, List.mem_flatMap]
  cases p with
  | select q =>
    obtain ⟨w, hw, hr⟩ := List.mem_flatMap.1
      (((adds_addWheres _ q.wheres).mem_flatMap (throughAnd_pinned _ _) r).2 (.inr hpinned))
    exact ⟨(.condition, w), by simp [enforce, parts, hw], hr⟩
  | join kind l r' on =>
    rw [isSome_owner?_join] at ho
    obtain ⟨w, hw, hr⟩ := List.mem_flatMap.1
      (((adds_addOn _ on).mem_flatMap (throughAnd_pinned _ _) r).2 (.inr hpinned))
    exact ⟨(.condition, w), by simpa [enforce, parts, ho] using hw, hr⟩
  | _ => simp [owner?] at ho

/-- A plan restricted to a tenant ties what was outstanding to the tenant, in the scope where it
was outstanding. -/
theorem pins_impose {e : Restriction} {t : Tenant} (ht : e.access.tenant = some t) (n : Nat)
    (p : Plan) : Numbered (fun n p => Pins e n p) n (p.impose e n).value.scopeNodes :=
  numbered_impose (fun _ _ key ho h => pins_link key ho h) (fun _ _ ho => pins_enforce ht ho) n p

/-! ### Restricting twice -/

/-- In a plan restricted to a tenant nothing is outstanding. -/
theorem outstandingAt_impose (g : Partitioning) (access : Access) {t : Tenant}
    (ht : access.tenant = some t) (p : Plan) (n : Nat) :
    Scope.outstandingAt ((p.impose (due g access p) 0).value.scopes g) n = [] := by
  set q := (p.impose (due g access p) 0).value with hq
  rw [List.eq_nil_iff_forall_not_mem]
  intro r hr
  -- What is outstanding now was outstanding before, so a condition ties it in this very scope.
  have hsubset := (grows_impose (due g access p) 0 p).outstandingAt_subset n hr
  cases hs : (q.scopes g)[n]? with
  | none => simp [Scope.outstandingAt, hs] at hr
  | some s =>
    obtain ⟨m, hm, hrecords⟩ := exists_records hs
    have hpins : m.Pins (due g access p) n := by
      simpa using (pins_impose ht 0 p).get hm
    have hcovers := covers_of_mem_outstandingAt hr
    simp only [Scope.outstandingAt, hs, Option.elim_some, Scope.outstanding, Scope.unpinned,
      List.mem_filter, decide_eq_true_eq] at hr
    refine hr.1.2 ?_
    rw [hrecords.pinned, List.mem_eraseDups]
    exact hpins r hsubset hcovers

/-- Restricting once more for the same tenant, for another one, for none or in write-only mode
changes nothing where nothing is outstanding. -/
theorem restrict_of_outstandingAt_eq_nil {g : Partitioning} {p : Plan}
    (h : ∀ n, Scope.outstandingAt (p.scopes g) n = []) (access : Access) :
    (p.restrict g access).value = .ok p := by
  cases hw : access.writeOnly with
  | true => exact value_restrict_writeOnly g hw p
  | false =>
    rw [value_restrict g hw, impose_of_satisfied]
    refine numbered_of_getElem? fun n q _ => ⟨?_, fun t _ k hk => ?_⟩
    · simp [Restriction.keyConditions, due, h]
    · simp [Restriction.linkKeys, due, h] at hk

/-- Restricting a plan without a tenant a second time changes nothing. -/
theorem impose_impose {g : Partitioning} {access : Access} (ht : access.tenant = none) (p : Plan) :
    let q := (p.impose (due g access p) 0).value
    (q.impose (due g access q) 0).value = q := by
  intro q
  -- The second restriction needs no link that the first one has not added.
  have hsubset : ∀ n, (due g access q).linkKeys n ⊆ (due g access p).linkKeys n := fun n =>
    List.filterMap_subset _ ((grows_impose (due g access p) 0 p).outstandingAt_subset n)
  refine impose_of_satisfied ((allLinked_impose (due g access p) 0 p).imp fun n q hq => ?_)
  refine ⟨?_, fun t htree k hk => hq t htree k (hsubset n hk)⟩
  simp [Restriction.keyConditions, due, ht]

/-- **Restriction is complete and idempotent.** A plan restricted to a tenant has nothing
outstanding in any scope, and no second restriction changes it, whatever its access is. Without a
tenant links are all that is added, and a second restriction adds none. -/
theorem restrict_complete_and_idempotent (g : Partitioning) (p : Plan) :
    (∀ t : Tenant, ∃ q, (p.restrict g ⟨some t, false⟩).value = .ok q ∧
      (∀ n, Scope.outstandingAt (q.scopes g) n = []) ∧
      ∀ access, (q.restrict g access).value = .ok q) ∧
    (∃ q, (p.restrict g ⟨none, false⟩).value = .ok q ∧
      (q.restrict g ⟨none, false⟩).value = .ok q) := by
  constructor
  · intro t
    have hnone := outstandingAt_impose g ⟨some t, false⟩ rfl p
    exact ⟨_, value_restrict g rfl p, hnone, restrict_of_outstandingAt_eq_nil hnone⟩
  · refine ⟨_, value_restrict g rfl p, ?_⟩
    rw [value_restrict g rfl, impose_impose rfl]

end Plan

end Tenancy
