import Tenancy.Proofs.Restrict.Imposing

namespace Tenancy

/-!
# Growth — a restricted plan ties more to tenants and reads the same

* `Scope.Grows` — a scope that reads the same, with at least as much tied to a tenant;
* `Findings.Grows` — the same of all scopes in a survey, however they are numbered;
* `Plan.Grows` — the same of a plan, wherever it stands;
* `grows_link`, `grows_enforce`, `grows_impose` — linking, enforcing and imposing let a plan grow;
* `owners_impose` — none of them adds a scope or takes one away.
-/

/-- A scope that reads the same, with at least as much tied to a tenant. -/
structure Scope.Grows (s s' : Scope) : Prop where
  owner : s'.owner = s.owner
  parent : s'.parent = s.parent
  seen : s'.seen = s.seen
  pinned : s.pinned ⊆ s'.pinned
  inherited : s.inherited ⊆ s'.inherited

theorem Scope.Grows.trans {s s' s'' : Scope} (h : s.Grows s') (h' : s'.Grows s'') : s.Grows s'' :=
  ⟨h'.owner.trans h.owner, h'.parent.trans h.parent, h'.seen.trans h.seen,
    List.Subset.trans h.pinned h'.pinned, List.Subset.trans h.inherited h'.inherited⟩

/-- What is outstanding in a scope that has grown was outstanding before. -/
theorem Scope.Grows.outstanding_subset {s s' : Scope} (h : s.Grows s') :
    s'.outstanding ⊆ s.outstanding := by
  intro r hr
  simp only [outstanding, unpinned, List.mem_filter, decide_eq_true_eq, h.seen] at hr ⊢
  exact ⟨⟨hr.1.1, fun hp => hr.1.2 (h.pinned hp)⟩, fun hi => hr.2 (h.inherited hi)⟩

namespace ScopeTree

/-- However the trees are numbered, each scope grows into its counterpart. -/
def GrowAll (ts ts' : List ScopeTree) : Prop :=
  ∀ (parent : Option Nat) {inherited inherited' : List Relation} (n : Nat),
    inherited ⊆ inherited' →
    List.Forall₂ Scope.Grows (numberAll parent inherited n ts) (numberAll parent inherited' n ts')

theorem GrowAll.nil : GrowAll [] [] := fun _ _ _ _ _ => by simp [numberAll]

theorem GrowAll.append {ts ts' us us' : List ScopeTree} (hts : GrowAll ts ts')
    (hus : GrowAll us us') : GrowAll (ts ++ us) (ts' ++ us') := by
  intro parent inherited inherited' n hin
  rw [numberAll_append, numberAll_append, (hts parent n hin).length_eq]
  exact List.rel_append (hts parent n hin) (hus parent _ hin)

/-- A tree grows when more is tied to a tenant at its root and the trees inside grow. -/
theorem GrowAll.node {owner : Scope.Owner} {seen pinned pinned' : List Relation}
    {inner inner' : List ScopeTree} (hpinned : pinned ⊆ pinned') (hinner : GrowAll inner inner') :
    GrowAll [node owner seen pinned inner] [node owner seen pinned' inner'] := by
  intro parent inherited inherited' n hin
  have hroot : pinned.eraseDups ⊆ pinned'.eraseDups := fun r hr => by
    rw [List.mem_eraseDups] at hr ⊢
    exact hpinned hr
  simp only [numberAll, number, List.append_nil]
  -- A `SELECT` hands down what it ties itself, an outer join also what it inherits.
  cases owner with
  | select =>
    refine .cons ⟨rfl, rfl, rfl, hroot, List.Subset.refl _⟩ (hinner _ _ ?_)
    exact List.append_subset.2 ⟨List.subset_append_of_subset_left _ hpinned, by simp⟩
  | outerJoin =>
    refine .cons ⟨rfl, rfl, rfl, hroot, hin⟩ (hinner _ _ ?_)
    exact List.append_subset.2 ⟨List.subset_append_of_subset_left _ hpinned,
      List.subset_append_of_subset_right _ hin⟩

mutual

private theorem growAll_refl_tree : ∀ t : ScopeTree, GrowAll [t] [t]
  | .node _ _ pinned inner => .node (List.Subset.refl pinned) (growAll_refl inner)

/-- Trees grow into themselves: what is inherited is the same or more. -/
theorem growAll_refl : ∀ ts : List ScopeTree, GrowAll ts ts
  | [] => .nil
  | t :: ts => (growAll_refl_tree t).append (growAll_refl ts)

end

theorem GrowAll.trans {ts us vs : List ScopeTree} (h : GrowAll ts us) (h' : GrowAll us vs) :
    GrowAll ts vs := fun parent _ _ n hin =>
  forall₂_comp (fun hs hs' => hs.trans hs') (h parent n hin) (h' parent n (List.Subset.refl _))

end ScopeTree

/-! ### Findings -/

/-- The same is read, at least as much is tied to a tenant, and the scopes inside grow. -/
structure Findings.Grows (f f' : Findings) : Prop where
  seen : f'.seen = f.seen
  pinned : f.pinned ⊆ f'.pinned
  inner : ScopeTree.GrowAll f.inner f'.inner

namespace Findings

theorem Grows.refl (f : Findings) : f.Grows f :=
  ⟨rfl, List.Subset.refl _, ScopeTree.growAll_refl _⟩

theorem Grows.trans {f f' f'' : Findings} (h : f.Grows f') (h' : f'.Grows f'') : f.Grows f'' :=
  ⟨h'.seen.trans h.seen, List.Subset.trans h.pinned h'.pinned, h.inner.trans h'.inner⟩

theorem Grows.append {f f' h h' : Findings} (hf : f.Grows f') (hh : h.Grows h') :
    (f ++ h).Grows (f' ++ h') where
  seen := by rw [seen_append, seen_append, hf.seen, hh.seen]
  pinned := List.append_subset.2
    ⟨List.subset_append_of_subset_left _ hf.pinned, List.subset_append_of_subset_right _ hh.pinned⟩
  inner := hf.inner.append hh.inner

theorem Grows.close {f f' : Findings} (h : f.Grows f') (o : Option Scope.Owner) :
    (close o f).Grows (close o f') := by
  cases o with
  | none => exact h
  | some o =>
    refine ⟨rfl, List.Subset.refl _, ?_⟩
    simp only [Findings.close, Option.elim_some, Findings.scope, h.seen]
    exact .node h.pinned h.inner

end Findings

namespace Plan

/-! ### Plans -/

/-- A plan that reads the same, with at least as much tied to a tenant, wherever it stands. -/
def Grows (g : Partitioning) (p p' : Plan) : Prop :=
  ∀ reading, (p.survey g reading).Grows (p'.survey g reading)

variable {g : Partitioning}

theorem Grows.refl (p : Plan) : p.Grows g p := fun _ => .refl _

theorem Grows.trans {p p' p'' : Plan} (h : p.Grows g p') (h' : p'.Grows g p'') : p.Grows g p'' :=
  fun reading => (h reading).trans (h' reading)

/-- Parts that grow one by one. -/
theorem surveyParts_grows {cs cs' : List (Role × Plan)}
    (h : List.Forall₂ (fun c c' => c'.1 = c.1 ∧ c.2.Grows g c'.2) cs cs') (reading : Reading) :
    (surveyParts g reading cs).Grows (surveyParts g reading cs') := by
  induction h with
  | nil => exact .refl _
  | cons h _ ih =>
    simp only [surveyParts, List.map_cons, Findings.concat_cons, h.1]
    exact (h.2 _).append ih

/-- A node of the same kind whose parts are surveyed to more. -/
theorem grows_of_parts {p p' : Plan} (howner : p'.owner? = p.owner?)
    (hmention : ∀ reading, p'.mention g reading = p.mention g reading)
    (hparts : ∀ reading, (surveyParts g reading p.parts).Grows (surveyParts g reading p'.parts)) :
    p.Grows g p' := by
  intro reading
  rw [survey_eq, survey_eq, howner, hmention]
  exact ((Findings.Grows.refl _).append (hparts reading)).close _

/-! ### Adding conditions -/

section

variable {cs ps ps' : List Plan} (h : Adds cs ps ps') (hcs : ∀ c ∈ cs, c.isSynthetic = true)
include h hcs

theorem Adds.owners_eq : ps'.flatMap owners = ps.flatMap owners :=
  h.flatMap_eq throughAnd_owners fun c hc => owners_of_isSynthetic (hcs c hc)

theorem Adds.grows (ρ : Role) (reading : Reading) :
    (surveyParts g reading (ps.map (ρ, ·))).Grows (surveyParts g reading (ps'.map (ρ, ·))) := by
  have hseen := h.flatMap_eq (throughAnd_seen g (ρ.reading reading)) fun c hc =>
    seen_of_isSynthetic (hcs c hc) g _
  have hpinned := h.mem_flatMap (throughAnd_pinned g (ρ.reading reading))
  have hinner := h.flatMap_eq (throughAnd_inner g (ρ.reading reading)) fun c hc =>
    inner_of_isSynthetic (hcs c hc) g _
  -- The added conditions read nothing and hold no scope; all they do is tie relations.
  constructor
  · simpa only [seen_surveyParts, List.flatMap_map] using hseen
  · intro r hr
    simp only [pinned_surveyParts, List.flatMap_map] at hr ⊢
    exact (hpinned r).2 (.inl hr)
  · simp only [inner_surveyParts, List.flatMap_map, hinner]
    exact ScopeTree.growAll_refl _

end

theorem isSynthetic_missingLink? (key : Column) (l r : Plan) (on : Option Plan) :
    ∀ c ∈ (missingLink? g key l r on).toList.map (keyLink key), c.isSynthetic = true := by
  intro c hc
  obtain ⟨other, _, rfl⟩ := List.mem_map.1 hc
  rfl

/-- What a scope is given are tenant conditions for relations that are outstanding there. -/
theorem exists_outstanding_of_mem_keyConditions {e : Restriction} {n : Nat} {c : Plan}
    (hc : c ∈ e.keyConditions n) : ∃ r ∈ e.outstanding n, ∃ part t,
      e.partitioning.of? r.table = some part ∧ c = part.keyCondition r t := by
  obtain ⟨r, hr, hkey⟩ := List.mem_filterMap.1 hc
  cases hp : e.partitioning.of? r.table <;> cases ht : e.access.tenant <;>
    simp [hp, ht] at hkey
  exact ⟨r, hr, _, _, hp, hkey.symm⟩

theorem eq_tenantKey_of_mem_keyConditions {e : Restriction} {n : Nat} {c : Plan}
    (hc : c ∈ e.keyConditions n) : ∃ key value, c = tenantKey key value := by
  obtain ⟨r, -, part, t, -, rfl⟩ := exists_outstanding_of_mem_keyConditions hc
  exact ⟨_, _, rfl⟩

theorem isSynthetic_keyConditions (e : Restriction) (n : Nat) :
    ∀ c ∈ e.keyConditions n, c.isSynthetic = true := by
  intro c hc
  obtain ⟨_, _, rfl⟩ := eq_tenantKey_of_mem_keyConditions hc
  rfl

/-! ### Linking -/

theorem grows_link (key : Column) (p : Plan) : p.Grows g (p.link g key).value := by
  induction p using link.induct with
  | case1 kind l r on ihl ihr =>
    rw [value_link_join]
    refine grows_of_parts rfl (fun _ => rfl) fun reading => ?_
    simp only [parts, surveyParts_cons]
    refine (ihl _).append ((ihr _).append ?_)
    exact (adds_linkedOn g key _ _ on).grows (isSynthetic_missingLink? key _ _ on) _ _
  | case2 p h =>
    rw [link_of_not_join g key h]
    exact .refl p

theorem owners_link (key : Column) (p : Plan) : (p.link g key).value.owners = p.owners := by
  induction p using link.induct with
  | case1 kind l r on ihl ihr =>
    have hon := (adds_linkedOn g key (l.link g key).value (r.link g key).value on).owners_eq
      (isSynthetic_missingLink? key _ _ on)
    rw [value_link_join, owners_eq, owners_eq (join kind l r on)]
    simp only [parts, List.flatMap_cons, List.flatMap_map, ihl, ihr, hon]
    rfl
  | case2 p h => rw [link_of_not_join g key h, Logged.value_pure]

theorem grows_linkAll (keys : List Column) (p : Plan) : p.Grows g (linkAll g keys p).value :=
  linkAll_induction (.refl p) fun k _ q hq => hq.trans (grows_link k q)

theorem owners_linkAll (keys : List Column) (p : Plan) :
    (linkAll g keys p).value.owners = p.owners :=
  linkAll_induction (motive := fun q => q.owners = p.owners) rfl fun k _ q hq => by
    rw [owners_link, hq]

/-! ### Enforcing and imposing -/

theorem owner?_enforce (e : Restriction) (n : Nat) (p : Plan) :
    (p.enforce e n).owner? = p.owner? := by
  cases p with
  | join kind l r on => by_cases h : kind.isOuter <;> simp [enforce, owner?, h]
  | _ => rfl

theorem grows_enforce (e : Restriction) (n : Nat) (p : Plan) :
    p.Grows e.partitioning (p.enforce e n) := by
  have hcs := isSynthetic_keyConditions e n
  cases p with
  | select q =>
    refine grows_of_parts rfl (fun _ => rfl) fun reading => ?_
    have hsource : (surveyParts e.partitioning reading (q.source.toList.map (.source, ·))).Grows
        (surveyParts e.partitioning reading ((q.source.map fun s =>
          (linkAll e.partitioning (e.linkKeys n) s).value).toList.map (.source, ·))) := by
      cases q.source with
      | none => exact .refl _
      | some s => exact (grows_linkAll _ s _).append (.refl _)
    simp only [enforce, parts, surveyParts_append]
    exact (((((hsource.append (.refl _)).append ((adds_addWheres _ q.wheres).grows hcs _ _)).append
      (.refl _)).append (.refl _)).append (.refl _)).append (.refl _)
  | join kind l r on =>
    rw [enforce]
    split
    · refine grows_of_parts rfl (fun _ => rfl) fun reading => ?_
      simp only [parts, surveyParts_cons]
      exact (grows_linkAll _ l _).append ((grows_linkAll _ r _).append
        ((adds_addOn _ on).grows hcs _ _))
    · exact .refl _
  | _ => exact .refl _

theorem owners_enforce (e : Restriction) (n : Nat) (p : Plan) :
    (p.enforce e n).owners = p.owners := by
  have hcs := isSynthetic_keyConditions e n
  rw [owners_eq, owner?_enforce, owners_eq p]
  congr 1
  cases p with
  | select q =>
    have hws := (adds_addWheres _ q.wheres).owners_eq hcs
    cases hs : q.source <;> simp [enforce, parts, List.flatMap_map, hws, hs, owners_linkAll]
  | join kind l r on =>
    have hon := (adds_addOn _ on).owners_eq hcs
    by_cases h : kind.isOuter <;>
      simp [enforce, parts, List.flatMap_map, hon, h, owners_linkAll]
  | _ => rfl

private theorem owners_imposeParts (e : Restriction) (n : Nat) {cs : List (Role × Plan)}
    (h : ∀ c ∈ cs, ∀ n, (c.2.impose e n).value.owners = c.2.owners) :
    (imposeParts e n cs).flatMap (·.2.owners) = cs.flatMap (·.2.owners) := by
  induction cs generalizing n with
  | nil => rfl
  | cons c cs ih =>
    rw [imposeParts, List.flatMap_cons, List.flatMap_cons, h c List.mem_cons_self,
      ih _ fun c' hc' => h c' (List.mem_cons_of_mem _ hc')]

/-- Imposing adds no scope and takes none away. -/
theorem owners_impose (e : Restriction) (n : Nat) (p : Plan) :
    (p.impose e n).value.owners = p.owners := by
  induction p using inductionOnParts generalizing n with
  | step p ih =>
    rw [value_impose, owners_enforce, owners_eq, (sameNode_imposeBelow e n p).owner?_eq,
      parts_imposeBelow, owners_imposeParts e _ ih, ← owners_eq]

private theorem grows_imposeParts (e : Restriction) (n : Nat) {cs : List (Role × Plan)}
    (h : ∀ c ∈ cs, ∀ n, c.2.Grows e.partitioning (c.2.impose e n).value) :
    List.Forall₂ (fun c c' : Role × Plan => c'.1 = c.1 ∧ c.2.Grows e.partitioning c'.2) cs
      (imposeParts e n cs) := by
  induction cs generalizing n with
  | nil => exact .nil
  | cons c cs ih =>
    exact .cons ⟨rfl, h c List.mem_cons_self n⟩
      (ih _ fun c' hc' => h c' (List.mem_cons_of_mem _ hc'))

/-- Whatever is imposed, the plan grows. -/
theorem grows_impose (e : Restriction) (n : Nat) (p : Plan) :
    p.Grows e.partitioning (p.impose e n).value := by
  induction p using inductionOnParts generalizing n with
  | step p ih =>
    have hsame := sameNode_imposeBelow e n p
    have hbelow : p.Grows e.partitioning (p.imposeBelow e n) :=
      grows_of_parts hsame.owner?_eq (hsame.mention_eq _) fun reading => by
        rw [parts_imposeBelow]
        exact surveyParts_grows (grows_imposeParts e _ ih) reading
    rw [value_impose]
    exact hbelow.trans (grows_enforce e n _)

/-- The scopes of a plan grow into those of a plan that has grown. -/
theorem Grows.scopes {p p' : Plan} (h : p.Grows g p') :
    List.Forall₂ Scope.Grows (p.scopes g) (p'.scopes g) :=
  (h .condition).inner none 0 (List.Subset.refl _)

/-- In a plan that has grown the same scopes reach one another. -/
theorem Grows.reaches_iff {p p' : Plan} (h : p.Grows g p') {m n : Nat} :
    Scope.Reaches (p'.scopes g) m n ↔ Scope.Reaches (p.scopes g) m n := by
  constructor
  · intro hreaches
    induction hreaches with
    | refl => exact .refl
    | outerJoin hs' ho hp _ ih =>
      obtain ⟨s, hs, hgrows⟩ := exists_getElem?_of_forall₂ h.scopes.flip hs'
      exact .outerJoin hs (hgrows.owner.symm.trans ho) (hgrows.parent.symm.trans hp) ih
  · intro hreaches
    induction hreaches with
    | refl => exact .refl
    | outerJoin hs ho hp _ ih =>
      obtain ⟨s', hs', hgrows⟩ := exists_getElem?_of_forall₂ h.scopes hs
      exact .outerJoin hs' (hgrows.owner.trans ho) (hgrows.parent.trans hp) ih

/-- Inside a scope node that has grown at least as much is tied to a tenant. -/
theorem Grows.pinned_interior {p p' : Plan} (h : p.Grows g p') {o : Scope.Owner}
    (ho : p.owner? = some o) (ho' : p'.owner? = some o) :
    (p.interior g).pinned ⊆ (p'.interior g).pinned := by
  have hroot := (h .condition).inner none 0 (List.Subset.refl [])
  rw [survey_of_owner ho, survey_of_owner ho'] at hroot
  simp only [Findings.scope, ScopeTree.numberAll, ScopeTree.number, List.append_nil,
    List.forall₂_cons] at hroot
  intro r hr
  exact List.mem_eraseDups.1 (hroot.1.pinned (List.mem_eraseDups.2 hr))

/-- What is outstanding in a plan that has grown was outstanding before. -/
theorem Grows.outstandingAt_subset {p p' : Plan} (h : p.Grows g p') (n : Nat) :
    Scope.outstandingAt (p'.scopes g) n ⊆ Scope.outstandingAt (p.scopes g) n := by
  unfold Scope.outstandingAt
  cases hs' : (p'.scopes g)[n]? with
  | none => exact List.nil_subset _
  | some s' =>
    obtain ⟨s, hs, hgrows⟩ := exists_getElem?_of_forall₂ h.scopes.flip hs'
    rw [hs]
    exact hgrows.outstanding_subset

end Plan

end Tenancy
