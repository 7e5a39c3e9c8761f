import Tenancy.Plan.Basic

namespace Tenancy

/-!
# Structural equality of plans is decidable

* `Plan.same` — the comparison, with companions for lists, options and assignments;
* `Plan.same_iff` — it answers `true` exactly on equal plans, which gives `DecidableEq Plan`.
-/

namespace Plan

mutual

/-- Are two plans built alike? -/
def same : Plan → Plan → Bool
  | table t, table t' => t == t'
  | aliased p a, aliased p' a' => p.same p' && a == a'
  | column c, column c' => decide (c = c')
  | literal v, literal v' => decide (v = v')
  | param n, param n' => n == n'
  | raw s, raw s' => s == s'
  | call f ps, call f' ps' => f == f' && sameAll ps ps'
  | tuple ps, tuple ps' => sameAll ps ps'
  | equal l r, equal l' r' => l.same l' && r.same r'
  | compare o l r, compare o' l' r' => decide (o = o') && l.same l' && r.same r'
  | and ps, and ps' => sameAll ps ps'
  | or l r, or l' r' => l.same l' && r.same r'
  | not p, not p' => p.same p'
  | group p, group p' => p.same p'
  | existence p, existence p' => p.same p'
  | select ⟨ps, s, ws, gs, vs, h, os, l, o⟩, select ⟨ps', s', ws', gs', vs', h', os', l', o'⟩ =>
    sameAll ps ps' && sameOption s s' && sameAll ws ws' && sameAll gs gs' && sameAll vs vs'
      && sameOption h h' && sameAll os os' && l == l' && o == o'
  | union a l r, union a' l' r' => a == a' && l.same l' && r.same r'
  | join k l r c, join k' l' r' c' =>
    decide (k = k') && l.same l' && r.same r' && sameOption c c'
  | update t as ws, update t' as' ws' =>
    t.same t' && sameAssignments as as' && sameAll ws ws'
  | delete t ws, delete t' ws' => t.same t' && sameAll ws ws'
  | tenantKey k v, tenantKey k' v' => decide (k = k') && decide (v = v')
  | keyLink k o, keyLink k' o' => decide (k = k') && decide (o = o')
  | _, _ => false

/-- Are two lists of plans built alike? -/
def sameAll : List Plan → List Plan → Bool
  | [], [] => true
  | p :: ps, q :: qs => p.same q && sameAll ps qs
  | _, _ => false

/-- Are two optional plans built alike? -/
def sameOption : Option Plan → Option Plan → Bool
  | none, none => true
  | some p, some q => p.same q
  | _, _ => false

/-- Are two lists of assignments built alike? -/
def sameAssignments : List (String × Plan) → List (String × Plan) → Bool
  | [], [] => true
  | (c, p) :: ps, (d, q) :: qs => c == d && p.same q && sameAssignments ps qs
  | _, _ => false

end

mutual

/-- The comparison answers `true` exactly on equal plans. -/
theorem same_iff : ∀ p q : Plan, p.same q = true ↔ p = q
  | table _, q | column _, q | literal _, q | param _, q | raw _, q | tenantKey .., q
  | keyLink .., q => by cases q <;> simp [same]
  | aliased p _, q | not p, q | group p, q | existence p, q => by
    cases q <;> simp [same, same_iff p]
  | equal l r, q | or l r, q | compare _ l r, q | union _ l r, q => by
    cases q <;> simp [same, same_iff l, same_iff r, and_assoc]
  | call _ ps, q | tuple ps, q | and ps, q => by cases q <;> simp [same, sameAll_iff ps]
  | select ⟨ps, s, ws, gs, vs, h, os, l, o⟩, q => by
    cases q with
    | select q =>
      obtain ⟨⟩ := q
      simp [same, sameAll_iff ps, sameOption_iff s, sameAll_iff ws, sameAll_iff gs, sameAll_iff vs,
        sameOption_iff h, sameAll_iff os, and_assoc]
    | _ => simp [same]
  | join _ l r c, q => by
    cases q <;> simp [same, same_iff l, same_iff r, sameOption_iff c, and_assoc]
  | update t as ws, q => by
    cases q <;> simp [same, same_iff t, sameAssignments_iff as, sameAll_iff ws, and_assoc]
  | delete t ws, q => by cases q <;> simp [same, same_iff t, sameAll_iff ws]

/-- The comparison of lists answers `true` exactly on equal ones. -/
theorem sameAll_iff : ∀ ps qs : List Plan, sameAll ps qs = true ↔ ps = qs
  | [], qs => by cases qs <;> simp [sameAll]
  | p :: ps, qs => by cases qs <;> simp [sameAll, same_iff p, sameAll_iff ps]

/-- The comparison of options answers `true` exactly on equal ones. -/
theorem sameOption_iff : ∀ p q : Option Plan, sameOption p q = true ↔ p = q
  | none, q => by cases q <;> simp [sameOption]
  | some p, q => by cases q <;> simp [sameOption, same_iff p]

/-- The comparison of assignments answers `true` exactly on equal ones. -/
theorem sameAssignments_iff :
    ∀ ps qs : List (String × Plan), sameAssignments ps qs = true ↔ ps = qs
  | [], qs => by cases qs <;> simp [sameAssignments]
  | (c, p) :: ps, qs => by
    rcases qs with _ | ⟨⟨d, q⟩, qs⟩ <;> simp [sameAssignments, same_iff p, sameAssignments_iff ps]

end

instance : DecidableEq Plan := fun p q => decidable_of_iff _ (same_iff p q)

end Plan

end Tenancy
