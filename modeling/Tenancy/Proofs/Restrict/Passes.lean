import Tenancy.Proofs.Restrict.Growth

namespace Tenancy

/-!
# Passes over restricted plans — what a pass does not see, restriction does not change

* `mapParts_imposeBelow_of_forall` — a pass over the parts takes no notice of imposing on them;
* `MissesLinks`, `MissesLinks.rewriteUp_linkAll` — a pass that sees no link takes no notice of
  linking;
* `rewriteUp_impose` — a pass that does not see what is enforced at a node takes no notice of
  imposing;
* `throughAnd_rewriteUp`, `keepsAnd_rewriteUp` — a pass that keeps conjunctions goes through them;
* `Plan.conjunctsBut`, `Adds.conjunctsBut_map_rewriteUp` — conjuncts but for some that have been
  added.
-/

namespace Plan

theorem map_imposeParts {h h' : Plan → Plan} (e : Restriction) (n : Nat) {cs : List (Role × Plan)}
    (hcs : ∀ c ∈ cs, ∀ n, h (c.2.impose e n).value = h' c.2) :
    (imposeParts e n cs).map (fun c => h c.2) = cs.map fun c => h' c.2 := by
  induction cs generalizing n with
  | nil => rfl
  | cons c cs ih =>
    rw [imposeParts, List.map_cons, List.map_cons, hcs c List.mem_cons_self,
      ih _ fun c' hc' => hcs c' (List.mem_cons_of_mem _ hc')]

/-- What is done to the parts after imposing can be done without. -/
theorem mapParts_imposeBelow_of_forall {h h' : Plan → Plan} (e : Restriction) (n : Nat) {p : Plan}
    (hparts : ∀ c ∈ p.parts, ∀ n, h (c.2.impose e n).value = h' c.2) :
    (p.imposeBelow e n).mapParts h = p.mapParts h' := by
  refine mapParts_imposeBelow e n ?_
  rw [parts_imposeBelow]
  exact map_imposeParts e _ hparts

variable {f : Plan → Plan}

theorem rewriteUp_join (kind : JoinKind) (l r : Plan) (on : Option Plan) :
    (join kind l r on).rewriteUp f
      = f (join kind (l.rewriteUp f) (r.rewriteUp f) (on.map (rewriteUp f))) := by
  rw [rewriteUp_eq, mapParts]

/-- A pass that tells no join from the join with one more link. -/
def MissesLinks (f : Plan → Plan) : Prop :=
  ∀ kind l r on key other, (join kind l r (addCondition on (keyLink key other))).rewriteUp f
    = (join kind l r on).rewriteUp f

theorem MissesLinks.rewriteUp_link (hf : MissesLinks f) (g : Partitioning) (key : Column)
    (p : Plan) : (p.link g key).value.rewriteUp f = p.rewriteUp f := by
  induction p using link.induct with
  | case1 kind l r on ihl ihr =>
    have hon : ∀ l' r', (join kind l r (linkedOn g key l' r' on)).rewriteUp f
        = (join kind l r on).rewriteUp f := by
      intro l' r'
      rw [linkedOn]
      cases missingLink? g key l' r' on with
      | none => rfl
      | some other => exact hf kind l r on key other
    rw [value_link_join, rewriteUp_join, ihl, ihr, ← rewriteUp_join (f := f), hon]
  | case2 p h => rw [link_of_not_join g key h, Logged.value_pure]

theorem MissesLinks.rewriteUp_linkAll (hf : MissesLinks f) (g : Partitioning) (keys : List Column)
    (p : Plan) : (linkAll g keys p).value.rewriteUp f = p.rewriteUp f :=
  linkAll_induction (motive := fun q => q.rewriteUp f = p.rewriteUp f) rfl fun k _ q hq => by
    rw [hf.rewriteUp_link, hq]

/-- A pass that does not see what is enforced at a node does not see what is imposed on a plan. -/
theorem rewriteUp_impose {e : Restriction}
    (hf : ∀ (n : Nat) (p : Plan), (p.enforce e n).rewriteUp f = p.rewriteUp f) (n : Nat)
    (p : Plan) : (p.impose e n).value.rewriteUp f = p.rewriteUp f := by
  induction p using inductionOnParts generalizing n with
  | step p ih =>
    rw [value_impose, hf, rewriteUp_eq, mapParts_imposeBelow_of_forall e n ih,
      ← rewriteUp_eq (f := f)]

/-! ### Passes that keep conjunctions -/

/-- A pass that keeps conjunctions goes through them. -/
theorem throughAnd_rewriteUp (hf : ∀ ps, f (and ps) = and ps) (keep : Plan → Bool) :
    ThroughAnd fun p => (p.rewriteUp f).conjuncts.filter keep := fun ps => by
  simp only [rewriteUp_eq f (and ps), mapParts, hf, throughAnd_conjuncts.apply_and,
    List.flatMap_map, List.filter_flatMap]

/-- The conjuncts of several conditions, without those that `drop` picks. -/
def conjunctsBut (drop : Plan → Bool) (ps : List Plan) : List Plan :=
  (ps.flatMap conjuncts).filter (!drop ·)

/-- Where a pass leaves nothing of what has been added but what is dropped, the rest is what it
was. -/
theorem Adds.conjunctsBut_map_rewriteUp {cs ps ps' : List Plan} (h : Adds cs ps ps')
    (hf : ∀ ps, f (and ps) = and ps) {drop : Plan → Bool}
    (hcs : ∀ c ∈ cs, (c.rewriteUp f).conjuncts.filter (!drop ·) = []) :
    conjunctsBut drop (ps'.map (rewriteUp f)) = conjunctsBut drop (ps.map (rewriteUp f)) := by
  simp only [conjunctsBut, List.flatMap_map, List.filter_flatMap]
  exact h.flatMap_eq (throughAnd_rewriteUp hf _) hcs

theorem keepsAnd_rewriteUp (hand : ∀ ps, f (and ps) = and ps)
    (hisAnd : ∀ p, (f p).isAnd = p.isAnd) : KeepsAnd (rewriteUp f) where
  and ps := by rw [rewriteUp_eq, mapParts, hand]
  isAnd p := by
    rw [rewriteUp_eq, hisAnd]
    cases p <;> rfl

end Plan

end Tenancy
