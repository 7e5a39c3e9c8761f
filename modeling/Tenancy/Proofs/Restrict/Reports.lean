import Mathlib.Data.List.Perm.Basic
import Tenancy.Proofs.Restrict.Placement
import Tenancy.Proofs.Restrict.Sites

namespace Tenancy

/-!
# Reports — what is reported while conditions are added to a plan

* `Event.isAddition`, `Event.PicksAdditions` — the events that report conditions that are added;
* `Plan.reports` — the events of imposing, in order;
* `Plan.enforceReports`, `reports_eq` — those of one scope node stand behind those of its parts;
* `filter_pinsAt_reports` — the tenant conditions reported for a scope are those of its own report;
* `isTargetPinned_of_mem_reports` — no target is reported while conditions are imposed;
* `Plan.linkEvents` — the events that would report the links of a plan;
* `perm_linkEvents_link`, `perm_linkEvents_linkAll`, `perm_linkEvents_enforce` — linking reports
  every link that it adds;
* `perm_linkEvents_impose` — and so does imposing.

Tenant conditions are reported for a scope as a whole, before they are put in their places, and
links one by one where they are added.
-/

namespace Event

/-- Does the event report a tenant condition of a scope? -/
def isKeyPinned : Event → Bool
  | keyPinned .. => true
  | _ => false

/-- Does the event report a tenant condition of scope `n`? -/
def pinsAt (n : Nat) : Event → Bool
  | keyPinned m .. => m == n
  | _ => false

/-- Does the event report a link? -/
def isKeyLinked : Event → Bool
  | keyLinked .. => true
  | _ => false

/-- Does the event report the tenant condition for the target of a mutation? -/
def isTargetPinned : Event → Bool
  | targetPinned .. => true
  | _ => false

/-- Does the event report a condition that is added? -/
def isAddition (ev : Event) : Bool := ev.isKeyPinned || ev.isKeyLinked || ev.isTargetPinned

theorem isAddition_eq_false_iff {ev : Event} : ev.isAddition = false ↔
    ev.isKeyPinned = false ∧ ev.isKeyLinked = false ∧ ev.isTargetPinned = false := by
  simp [isAddition, and_assoc]

theorem pinsAt_eq_false {ev : Event} (h : ev.isKeyPinned = false) (n : Nat) :
    ev.pinsAt n = false := by
  cases ev <;> first | rfl | simp [isKeyPinned] at h

/-- An event reports one kind of condition. -/
theorem eq_false_of_isKeyLinked {ev : Event} (h : ev.isKeyLinked = true) :
    ev.isKeyPinned = false ∧ ev.isTargetPinned = false := by
  cases ev <;> first | exact ⟨rfl, rfl⟩ | simp [isKeyLinked] at h

/-- Only events are picked that report conditions that are added. -/
def PicksAdditions (pick : Event → Bool) : Prop := ∀ ev, ev.isAddition = false → pick ev = false

theorem picksAdditions_pinsAt (n : Nat) : PicksAdditions (pinsAt n) := fun _ h =>
  pinsAt_eq_false (isAddition_eq_false_iff.1 h).1 n

theorem picksAdditions_isKeyPinned : PicksAdditions isKeyPinned := fun _ h =>
  (isAddition_eq_false_iff.1 h).1

theorem picksAdditions_isKeyLinked : PicksAdditions isKeyLinked := fun _ h =>
  (isAddition_eq_false_iff.1 h).2.1

theorem picksAdditions_isTargetPinned : PicksAdditions isTargetPinned := fun _ h =>
  (isAddition_eq_false_iff.1 h).2.2

/-- Where no addition is reported, none is picked. -/
theorem PicksAdditions.filter_eq_nil {pick : Event → Bool} (hpick : PicksAdditions pick)
    {evs : List Event} (h : ∀ ev ∈ evs, ev.isAddition = false) : evs.filter pick = [] := by
  rw [List.filter_eq_nil_iff]
  intro ev hev
  rw [hpick ev (h ev hev)]
  exact Bool.false_ne_true

end Event

open Event (pinsAt isKeyPinned isKeyLinked isTargetPinned)

namespace Plan

/-! ### Reports of plans -/

/-- What is reported while conditions are imposed on a plan whose first owner has number `n`. -/
def reports (e : Restriction) (n : Nat) (p : Plan) : List Event :=
  (p.impose e n).entries.map Stamped.event

/-- What is reported of parts, one after another. -/
def reportsParts (e : Restriction) (n : Nat) (cs : List (Role × Plan)) : List Event :=
  (numberParts n cs).flatMap fun c => c.2.2.reports e c.1

/-- What linking reports at one scope node, which has number `n`. -/
def linkReports (e : Restriction) (n : Nat) : Plan → List Event
  | select q => q.source.toList.flatMap fun s => (linkAll e.partitioning (e.linkKeys n) s).entries
  | join kind l r _ =>
    if kind.isOuter then (linkSides e.partitioning (e.linkKeys n) (l, r)).entries else []
  | _ => []

/-- What is reported of one scope node, which has number `n`, once its parts are done. -/
def enforceReports (e : Restriction) (n : Nat) (p : Plan) : List Event :=
  (if p.owner?.isSome then e.report n else []) ++ p.linkReports e n

section

variable (e : Restriction) (n : Nat)

theorem reportsParts_nil : reportsParts e n [] = [] := rfl

theorem reportsParts_cons (c : Role × Plan) (cs : List (Role × Plan)) :
    reportsParts e n (c :: cs)
      = c.2.reports e n ++ reportsParts e (n + c.2.owners.length) cs := by
  rw [reportsParts, numberParts, List.flatMap_cons, reportsParts]

theorem reportsParts_append (cs ds : List (Role × Plan)) :
    reportsParts e n (cs ++ ds)
      = reportsParts e n cs ++ reportsParts e (n + (cs.flatMap (·.2.owners)).length) ds := by
  induction cs generalizing n with
  | nil => rfl
  | cons c cs ih =>
    rw [List.cons_append, reportsParts_cons, ih, reportsParts_cons, List.flatMap_cons,
      List.length_append, Nat.add_assoc, List.append_assoc]

theorem reportsParts_map (ρ : Role) (ps : List Plan) :
    reportsParts e n (ps.map (ρ, ·)) = (imposeAll e n ps).entries.map Stamped.event := by
  induction ps generalizing n with
  | nil => rfl
  | cons p ps ih => simp [reportsParts_cons, imposeAll, ih, reports]

theorem entries_imposeAll_toList (p : Option Plan) :
    (imposeAll e n p.toList).entries = (imposeOption e n p).entries := by
  cases p <;> simp [imposeAll, imposeOption]

theorem reportsParts_assignments (ps : List (String × Plan)) :
    reportsParts e n (ps.map fun a => (.value, a.2))
      = (imposeAssignments e n ps).entries.map Stamped.event := by
  induction ps generalizing n with
  | nil => rfl
  | cons p ps ih => simp [reportsParts_cons, imposeAssignments, ih, reports]

theorem entries_mapM_linkAll (g : Partitioning) (keys : List Column) (source : Option Plan) :
    (source.mapM (linkAll g keys)).entries
      = source.toList.flatMap fun s => (linkAll g keys s).entries := by
  cases source <;> simp

/-- What is reported of a node is what is reported of its parts, and then what is reported of the
node itself. -/
theorem reports_eq (p : Plan) :
    p.reports e n = reportsParts e (n + p.owner?.toList.length) p.parts
      ++ (p.imposeBelow e n).enforceReports e n := by
  cases p with
  | select q =>
    simp [reports, impose, parts, owner?, reportsParts_append, reportsParts_map,
      entries_imposeAll_toList, entries_mapM_linkAll, imposeBelow, enforceReports, linkReports,
      stamp, Function.comp_def, ownersAll_eq, ownersOption_eq, List.flatMap_map, Nat.add_assoc]
  | join kind l r on =>
    by_cases h : kind.isOuter <;>
      simp [reports, impose, parts, owner?, reportsParts_cons, reportsParts_map,
        entries_imposeAll_toList, imposeBelow, enforceReports, linkReports, stamp, h,
        Function.comp_def]
  | update t as ws =>
    simp [reports, impose, parts, owner?, reportsParts_cons, reportsParts_append, reportsParts_map,
      reportsParts_assignments, imposeBelow, enforceReports, linkReports, ownersAssignments_eq,
      List.flatMap_map]
  | _ =>
    simp [reports, impose, parts, owner?, reportsParts_nil, reportsParts_cons, reportsParts_map,
      imposeBelow, enforceReports, linkReports]

/-- Only scope nodes are reported on. -/
theorem enforceReports_of_not_owner {p : Plan} (h : p.owner? = none) :
    p.enforceReports e n = [] := by
  rw [enforceReports, h, Option.isSome_none, if_neg Bool.false_ne_true, List.nil_append]
  cases p with
  | select q => simp [owner?] at h
  | join kind l r on =>
    have hkind : kind.isOuter = false := by
      rw [← isSome_owner?_join kind l r on, h, Option.isSome_none]
    rw [linkReports, hkind, if_neg Bool.false_ne_true]
  | _ => rfl

end

/-! ### What linking reports -/

section

variable (g : Partitioning)

theorem entries_link_join (key : Column) (kind : JoinKind) (l r : Plan)
    (on : Option Plan) : ((join kind l r on).link g key).entries
      = (l.link g key).entries ++ ((r.link g key).entries
        ++ (missingLink? g key (l.link g key).value (r.link g key).value on).toList.map
          fun other => .keyLinked key other.relation) := by
  simp only [link, Logged.entries_bind]
  cases missingLink? g key (l.link g key).value (r.link g key).value on <;> simp

/-- Linking reports links and nothing else. -/
theorem isKeyLinked_of_mem_entries_link (key : Column) (p : Plan) :
    ∀ ev ∈ (p.link g key).entries, ev.isKeyLinked = true := by
  induction p using link.induct with
  | case1 kind l r on ihl ihr =>
    intro ev hev
    rw [entries_link_join, List.mem_append, List.mem_append, List.mem_map] at hev
    rcases hev with hev | hev | ⟨other, -, rfl⟩
    · exact ihl ev hev
    · exact ihr ev hev
    · rfl
  | case2 p h => simp [link_of_not_join g key h]

theorem entries_linkAll_cons (k : Column) (ks : List Column) (p : Plan) :
    (linkAll g (k :: ks) p).entries
      = (p.link g k).entries ++ (linkAll g ks (p.link g k).value).entries := by
  rw [linkAll, List.foldlM_cons, Logged.entries_bind, linkAll]

theorem entries_linkSides_cons (k : Column) (ks : List Column) (l r : Plan) :
    (linkSides g (k :: ks) (l, r)).entries
      = (l.link g k).entries ++ (r.link g k).entries
        ++ (linkSides g ks ((l.link g k).value, (r.link g k).value)).entries := by
  rw [linkSides, List.foldlM_cons, Logged.entries_bind, linkSides]
  simp

theorem isKeyLinked_of_mem_entries_linkAll (ks : List Column) (p : Plan) :
    ∀ ev ∈ (linkAll g ks p).entries, ev.isKeyLinked = true := by
  induction ks generalizing p with
  | nil => exact fun ev hev => absurd hev List.not_mem_nil
  | cons k ks ih =>
    rw [entries_linkAll_cons]
    exact fun ev hev => (List.mem_append.1 hev).elim (isKeyLinked_of_mem_entries_link g k p ev)
      (ih _ ev)

theorem isKeyLinked_of_mem_entries_linkSides (ks : List Column) (l r : Plan) :
    ∀ ev ∈ (linkSides g ks (l, r)).entries, ev.isKeyLinked = true := by
  induction ks generalizing l r with
  | nil => exact fun ev hev => absurd hev List.not_mem_nil
  | cons k ks ih =>
    rw [entries_linkSides_cons]
    intro ev hev
    rcases List.mem_append.1 hev with hev | hev
    · exact (List.mem_append.1 hev).elim (isKeyLinked_of_mem_entries_link g k l ev)
        (isKeyLinked_of_mem_entries_link g k r ev)
    · exact ih _ _ ev hev

end

theorem isKeyLinked_of_mem_linkReports (e : Restriction) (n : Nat) (p : Plan) :
    ∀ ev ∈ p.linkReports e n, ev.isKeyLinked = true := by
  cases p with
  | select q =>
    intro ev hev
    obtain ⟨s, -, hev⟩ := List.mem_flatMap.1 hev
    exact isKeyLinked_of_mem_entries_linkAll _ _ s ev hev
  | join kind l r on =>
    rw [linkReports]
    split
    · exact isKeyLinked_of_mem_entries_linkSides _ _ l r
    · exact fun ev hev => absurd hev List.not_mem_nil
  | _ => exact fun ev hev => absurd hev List.not_mem_nil

/-! ### Tenant conditions -/

end Plan

namespace Restriction

variable (e : Restriction)

/-- The report on a scope reports its tenant conditions, and no other additions. -/
theorem mem_report_cases {n : Nat} {ev : Event} (h : ev ∈ e.report n) :
    (∃ key t, ev = .keyPinned n key t) ∨ ev.isAddition = false := by
  obtain ⟨r, -, hr⟩ := List.mem_flatMap.1 h
  rw [reportOn] at hr
  cases hpart : e.partitioning.of? r.table with
  | none =>
    rw [hpart, List.mem_singleton] at hr
    exact .inr (hr ▸ rfl)
  | some part =>
    cases ht : e.access.tenant with
    | none => simp [hpart, ht] at hr
    | some t =>
      simp only [hpart, ht, List.mem_append, List.mem_singleton] at hr
      rcases hr with hr | hr
      · rw [Partition.unsuited] at hr
        split at hr
        · simp at hr
        · exact .inr (List.mem_singleton.1 hr ▸ rfl)
      · exact .inl ⟨_, _, hr⟩

theorem filter_isKeyLinked_report (n : Nat) : (e.report n).filter isKeyLinked = [] := by
  rw [List.filter_eq_nil_iff]
  intro ev hev
  rcases e.mem_report_cases hev with ⟨key, t, rfl⟩ | h
  · exact Bool.false_ne_true
  · simp [Event.picksAdditions_isKeyLinked ev h]

theorem filter_pinsAt_report (n k : Nat) :
    (e.report n).filter (pinsAt k) = if k = n then (e.report k).filter isKeyPinned else [] := by
  split
  · next hk =>
    subst hk
    refine List.filter_congr fun ev hev => ?_
    rcases e.mem_report_cases hev with ⟨key, t, rfl⟩ | h
    · simp [pinsAt, isKeyPinned]
    · rw [Event.picksAdditions_isKeyPinned ev h, Event.picksAdditions_pinsAt k ev h]
  · next hk =>
    rw [List.filter_eq_nil_iff]
    intro ev hev
    rcases e.mem_report_cases hev with ⟨key, t, rfl⟩ | h
    · simpa [pinsAt] using Ne.symm hk
    · simp [Event.picksAdditions_pinsAt k ev h]

end Restriction

namespace Plan

variable (e : Restriction)

theorem filter_pinsAt_enforceReports (n k : Nat) {p : Plan} (ho : p.owner?.isSome) :
    (p.enforceReports e n).filter (pinsAt k)
      = if k = n then (e.report k).filter isKeyPinned else [] := by
  have hlinks : (p.linkReports e n).filter (pinsAt k) = [] := by
    rw [List.filter_eq_nil_iff]
    intro ev hev
    have hlinked := isKeyLinked_of_mem_linkReports e n p ev hev
    simp [Event.pinsAt_eq_false (Event.eq_false_of_isKeyLinked hlinked).1]
  rw [enforceReports, if_pos ho, List.filter_append, hlinks, List.append_nil,
    e.filter_pinsAt_report]

private theorem filter_pinsAt_reportsParts {k : Nat} {cs : List (Role × Plan)} (n : Nat)
    (h : ∀ c ∈ cs, ∀ n, (c.2.reports e n).filter (pinsAt k)
      = if n ≤ k ∧ k < n + c.2.owners.length then (e.report k).filter isKeyPinned else []) :
    (reportsParts e n cs).filter (pinsAt k)
      = if n ≤ k ∧ k < n + (cs.flatMap (·.2.owners)).length
        then (e.report k).filter isKeyPinned else [] := by
  induction cs generalizing n with
  | nil =>
    rw [if_neg (by simp)]
    rfl
  | cons c cs ih =>
    rw [reportsParts_cons, List.filter_append, h c List.mem_cons_self,
      ih _ fun c' hc' => h c' (List.mem_cons_of_mem _ hc'), List.flatMap_cons, List.length_append]
    -- The scope is one of the first part, or of the parts behind it, or of none.
    by_cases hfirst : k < n + c.2.owners.length
    · rw [if_neg (c := n + c.2.owners.length ≤ k ∧ _) (by omega), List.append_nil]
      exact if_congr (by omega) rfl rfl
    · rw [if_neg (c := n ≤ k ∧ k < n + c.2.owners.length) (by omega), List.nil_append]
      exact if_congr (by omega) rfl rfl

/-- A tenant condition is reported for a scope exactly if it is in the report on this scope, which
is written once. -/
theorem filter_pinsAt_reports (n k : Nat) (p : Plan) :
    (p.reports e n).filter (pinsAt k)
      = if n ≤ k ∧ k < n + p.owners.length then (e.report k).filter isKeyPinned else [] := by
  induction p using inductionOnParts generalizing n with
  | step p ih =>
    rw [reports_eq, List.filter_append, filter_pinsAt_reportsParts e _ ih, owners_eq,
      List.length_append]
    cases ho : p.owner? with
    | none =>
      have hnone :=
        enforceReports_of_not_owner e n ((sameNode_imposeBelow e n p).owner?_eq.trans ho)
      rw [hnone, List.filter_nil, List.append_nil]
      simp
    | some o =>
      have hsome : (p.imposeBelow e n).owner?.isSome := by
        rw [(sameNode_imposeBelow e n p).owner?_eq, ho, Option.isSome_some]
      rw [filter_pinsAt_enforceReports e n k hsome, Option.toList_some, List.length_singleton]
      -- The node itself has the first of the numbers.
      by_cases hk : k = n
      · rw [if_pos hk, if_neg (by omega), if_pos (by omega), List.nil_append]
      · rw [if_neg hk, List.append_nil]
        exact if_congr (by omega) rfl rfl

/-- While conditions are imposed no target is reported. -/
theorem isTargetPinned_of_mem_reports {n : Nat} {p : Plan} {ev : Event}
    (hev : ev ∈ p.reports e n) : ev.isTargetPinned = false := by
  induction p using inductionOnParts generalizing n with
  | step p ih =>
    rw [reports_eq, enforceReports, List.mem_append, List.mem_append] at hev
    rcases hev with hparts | hreport | hlinks
    · obtain ⟨c, hc, hparts⟩ := List.mem_flatMap.1 hparts
      exact ih c.2 (snd_mem_of_mem_numberParts hc) hparts
    · split at hreport
      · rcases e.mem_report_cases hreport with ⟨key, t, rfl⟩ | h
        · rfl
        · exact Event.picksAdditions_isTargetPinned ev h
      · exact absurd hreport List.not_mem_nil
    · exact (Event.eq_false_of_isKeyLinked (isKeyLinked_of_mem_linkReports e n _ ev hlinks)).2

/-! ### Links -/

/-- The event that reports the node if it is a link. -/
def linkEvent? : Plan → Option Event
  | keyLink key other => some (.keyLinked key other.relation)
  | _ => none

/-- The events that report the links of a plan, wherever they stand, as they are read. -/
def linkEvents (p : Plan) : List Event := p.nodes.filterMap linkEvent?

theorem linkEvent?_eq_none {p : Plan} (h : p.isLink = false) : p.linkEvent? = none := by
  cases p <;> first | rfl | simp [isLink] at h

theorem linkEvents_eq {p : Plan} (h : p.isLink = false) :
    p.linkEvents = p.parts.flatMap (·.2.linkEvents) := by
  rw [linkEvents, nodes_eq, List.filterMap_cons, linkEvent?_eq_none h, List.filterMap_flatMap]
  rfl

theorem throughAnd_linkEvents : ThroughAnd linkEvents := fun ps => by
  rw [linkEvents_eq rfl, parts, List.flatMap_map]

theorem linkEvents_join (kind : JoinKind) (l r : Plan) (on : Option Plan) :
    (join kind l r on).linkEvents
      = l.linkEvents ++ (r.linkEvents ++ on.toList.flatMap linkEvents) := by
  rw [linkEvents_eq rfl, parts, List.flatMap_cons, List.flatMap_cons, List.flatMap_map]

section

variable (g : Partitioning)

/-- Linking reports the links that it adds. -/
theorem perm_linkEvents_link (key : Column) (p : Plan) :
    (p.link g key).value.linkEvents.Perm ((p.link g key).entries ++ p.linkEvents) := by
  induction p using link.induct with
  | case1 kind l r on ihl ihr =>
    have hon : (linkedOn g key (l.link g key).value (r.link g key).value on).toList.flatMap
          linkEvents
        = on.toList.flatMap linkEvents
          ++ (missingLink? g key (l.link g key).value (r.link g key).value on).toList.map
            fun other => .keyLinked key other.relation := by
      rw [linkedOn]
      cases missingLink? g key (l.link g key).value (r.link g key).value on with
      | none => simp
      | some other => exact throughAnd_linkEvents.flatMap_addCondition on (keyLink key other)
    rw [value_link_join, linkEvents_join, linkEvents_join, entries_link_join, hon,
      List.perm_iff_count]
    intro ev
    have hl := ihl.count_eq ev
    have hr := ihr.count_eq ev
    simp only [List.count_append] at hl hr ⊢
    omega
  | case2 p h =>
    rw [link_of_not_join g key h]
    exact .refl _

theorem perm_linkEvents_linkAll (ks : List Column) (p : Plan) :
    (linkAll g ks p).value.linkEvents.Perm ((linkAll g ks p).entries ++ p.linkEvents) := by
  induction ks generalizing p with
  | nil => exact .refl _
  | cons k ks ih =>
    rw [value_linkAll_cons, entries_linkAll_cons, List.perm_iff_count]
    intro ev
    have hfirst := (perm_linkEvents_link g k p).count_eq ev
    have hrest := (ih (p.link g k).value).count_eq ev
    simp only [List.count_append] at hfirst hrest ⊢
    omega

theorem perm_linkEvents_linkSides (ks : List Column) (l r : Plan) :
    ((linkAll g ks l).value.linkEvents ++ (linkAll g ks r).value.linkEvents).Perm
      ((linkSides g ks (l, r)).entries ++ (l.linkEvents ++ r.linkEvents)) := by
  induction ks generalizing l r with
  | nil => exact .refl _
  | cons k ks ih =>
    rw [value_linkAll_cons, value_linkAll_cons, entries_linkSides_cons, List.perm_iff_count]
    intro ev
    have hl := (perm_linkEvents_link g k l).count_eq ev
    have hr := (perm_linkEvents_link g k r).count_eq ev
    have hrest := (ih (l.link g k).value (r.link g k).value).count_eq ev
    simp only [List.count_append] at hl hr hrest ⊢
    omega

end

/-- Tenant conditions are no links. -/
theorem linkEvents_of_mem_keyConditions {e : Restriction} {n : Nat} {c : Plan}
    (hc : c ∈ e.keyConditions n) : c.linkEvents = [] := by
  obtain ⟨_, _, rfl⟩ := eq_tenantKey_of_mem_keyConditions hc
  rfl

theorem filter_isKeyLinked_enforceReports (e : Restriction) (n : Nat) (p : Plan) :
    (p.enforceReports e n).filter isKeyLinked = p.linkReports e n := by
  have hreport : (if p.owner?.isSome then e.report n else []).filter isKeyLinked = [] := by
    split
    · exact e.filter_isKeyLinked_report n
    · rfl
  rw [enforceReports, List.filter_append, hreport, List.nil_append,
    List.filter_eq_self.2 (isKeyLinked_of_mem_linkReports e n p)]

/-- Enforcing at a scope node reports the links that it adds. -/
theorem perm_linkEvents_enforce (e : Restriction) (n : Nat) (p : Plan) :
    (p.enforce e n).linkEvents.Perm (p.linkReports e n ++ p.linkEvents) := by
  cases p with
  | select q =>
    have hwheres := (adds_addWheres (e.keyConditions n) q.wheres).flatMap_eq throughAnd_linkEvents
      fun _ => linkEvents_of_mem_keyConditions
    rw [enforce, linkReports, linkEvents_eq rfl, linkEvents_eq (p := select q) rfl]
    simp only [parts, List.flatMap_append, List.flatMap_map, hwheres]
    cases hs : q.source with
    | none => simp
    | some s =>
      have hlink := perm_linkEvents_linkAll e.partitioning (e.linkKeys n) s
      simp only [Option.map_some, Option.toList_some, List.flatMap_singleton, List.append_assoc]
      rw [← List.append_assoc (linkAll e.partitioning (e.linkKeys n) s).entries]
      exact hlink.append_right _
  | join kind l r on =>
    rw [enforce, linkReports]
    split
    · have hon := (adds_addOn (e.keyConditions n) on).flatMap_eq throughAnd_linkEvents
        fun _ => linkEvents_of_mem_keyConditions
      have hlink := perm_linkEvents_linkSides e.partitioning (e.linkKeys n) l r
      rw [linkEvents_join, linkEvents_join, hon]
      simpa only [List.append_assoc] using hlink.append_right (on.toList.flatMap linkEvents)
    · exact .refl _
  | _ => exact .refl _

private theorem perm_linkEvents_imposeParts {e : Restriction} {cs : List (Role × Plan)} (n : Nat)
    (h : ∀ c ∈ cs, ∀ n, (c.2.impose e n).value.linkEvents.Perm
      ((c.2.reports e n).filter isKeyLinked ++ c.2.linkEvents)) :
    ((imposeParts e n cs).flatMap (·.2.linkEvents)).Perm
      ((reportsParts e n cs).filter isKeyLinked ++ cs.flatMap (·.2.linkEvents)) := by
  induction cs generalizing n with
  | nil => exact .refl _
  | cons c cs ih =>
    rw [imposeParts, reportsParts_cons, List.flatMap_cons, List.flatMap_cons, List.filter_append,
      List.perm_iff_count]
    intro ev
    have hfirst := (h c List.mem_cons_self n).count_eq ev
    have hrest := (ih (n + c.2.owners.length) fun c' hc' =>
      h c' (List.mem_cons_of_mem _ hc')).count_eq ev
    simp only [List.count_append] at hfirst hrest ⊢
    omega

/-- Imposing reports the links that it adds. -/
theorem perm_linkEvents_impose (e : Restriction) (n : Nat) (p : Plan) :
    (p.impose e n).value.linkEvents.Perm
      ((p.reports e n).filter isKeyLinked ++ p.linkEvents) := by
  induction p using inductionOnParts generalizing n with
  | step p ih =>
    cases hlink : p.isLink with
    | true =>
      cases p with
      | keyLink key other => exact .refl _
      | _ => simp [isLink] at hlink
    | false =>
      have hbelow : (p.imposeBelow e n).isLink = false := by
        cases p <;> first | rfl | exact hlink
      have henforce := perm_linkEvents_enforce e n (p.imposeBelow e n)
      have hparts := perm_linkEvents_imposeParts (n + p.owner?.toList.length) ih
      rw [linkEvents_eq hbelow, parts_imposeBelow] at henforce
      rw [value_impose, reports_eq, List.filter_append, filter_isKeyLinked_enforceReports,
        linkEvents_eq hlink, List.perm_iff_count]
      intro ev
      have hnode := henforce.count_eq ev
      have hbelow := hparts.count_eq ev
      simp only [List.count_append] at hnode hbelow ⊢
      omega

end Plan

end Tenancy
