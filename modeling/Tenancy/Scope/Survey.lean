import Tenancy.Event
import Tenancy.Plan.Basic

namespace Tenancy

/-!
# Survey — which tenant relations a plan reads, and which it ties to a tenant itself

* `Reading` — what a part of a plan counts for: as a source, as a condition or as a value;
* `Findings` — what a part of a plan contributes to the scope around it, and the scopes within;
* `Plan.survey` — the findings of a plan;
* `Plan.scopes` — the scopes of a plan, numbered in the order in which they begin.

A survey is compositional: the findings of a node are those of its parts one after another, and a
`SELECT` or an outer join closes a scope over the findings of its parts.
-/

/-- What a part of a plan counts for. -/
structure Reading where
  /-- Are the tables found here read by the scope around? -/
  reads : Bool
  /-- Does an equality found here hold of every row of the scope around? -/
  binds : Bool
  deriving Repr, DecidableEq

namespace Reading

/-- The `FROM` clause and the sides of an outer join. -/
def source : Reading := ⟨true, true⟩

/-- The clauses `WHERE`, `ON`, `GROUP BY`, `WINDOW` and `HAVING`. -/
def condition : Reading := ⟨false, true⟩

/-- Projections, `ORDER BY` and assigned values. -/
def value : Reading := ⟨false, false⟩

/-- What stands under `OR` and `NOT` holds of no row for sure. -/
def loose (r : Reading) : Reading := { r with binds := false }

end Reading

/-- A scope with the scopes inside it. -/
inductive ScopeTree
  /-- The relations read and tied to a tenant are listed as they occur, with repetitions. -/
  | node (owner : Scope.Owner) (seen pinned : List Relation) (inner : List ScopeTree)
  deriving Repr

/-- What a part of a plan contributes to the scope around it. -/
structure Findings where
  /-- The tenant relations it reads, as they occur. -/
  seen : List Relation := []
  /-- The relations it ties to a tenant, as they occur. -/
  pinned : List Relation := []
  /-- The scopes within it. -/
  inner : List ScopeTree := []
  deriving Repr

namespace Findings

/-- The findings of two parts, one after the other. -/
def append (f g : Findings) : Findings :=
  ⟨f.seen ++ g.seen, f.pinned ++ g.pinned, f.inner ++ g.inner⟩

instance : Append Findings := ⟨append⟩

@[simp] theorem seen_append (f g : Findings) : (f ++ g).seen = f.seen ++ g.seen := rfl

@[simp] theorem pinned_append (f g : Findings) : (f ++ g).pinned = f.pinned ++ g.pinned := rfl

@[simp] theorem inner_append (f g : Findings) : (f ++ g).inner = f.inner ++ g.inner := rfl

/-- A scope of its own, which contributes nothing to the scope around it. -/
def scope (owner : Scope.Owner) (f : Findings) : Findings :=
  { inner := [.node owner f.seen f.pinned f.inner] }

/-- A reference to a relation. It is read if the place counts and its table is a tenant table. -/
def reference (g : Partitioning) (reading : Reading) (r : Relation) : Findings :=
  if reading.reads && g.covers r.table then { seen := [r] } else {}

/-- Is the column the partition key of its relation's table? -/
def isKey (g : Partitioning) (c : Column) : Bool :=
  (g.of? c.relation.table).any (·.column == c.name)

/-- An equality with `left` on its left. It ties a relation to a tenant if it holds of every row
and `left` is the relation's partition key. -/
def equality (g : Partitioning) (reading : Reading) (left : Plan) : Findings :=
  match left with
  | .column c => if reading.binds && isKey g c then { pinned := [c.relation] } else {}
  | _ => {}

end Findings

namespace Plan

open Findings (reference equality)

mutual

/-- The findings of a plan that counts for `reading` in the scope around it. -/
def survey (g : Partitioning) (reading : Reading) : Plan → Findings
  | table t => reference g reading ⟨t, none⟩
  | aliased p a =>
    match p with
    -- An alias of a table is one relation, and the bare table is not another one.
    | table t => reference g reading ⟨t, some a⟩
    | _ => p.survey g reading
  | column c => reference g reading c.relation
  | literal _ | param _ | raw _ => {}
  | call _ ps | tuple ps | and ps => surveyAll g reading ps
  | equal l r => equality g reading l ++ l.survey g reading ++ r.survey g reading
  | compare _ l r | union _ l r => l.survey g reading ++ r.survey g reading
  | or l r => l.survey g reading.loose ++ r.survey g reading.loose
  | not p => p.survey g reading.loose
  | group p | existence p => p.survey g reading
  | select ⟨ps, source, ws, gs, vs, having, os, _, _⟩ =>
    .scope .select <|
      surveyOption g .source source ++ surveyAll g .value ps ++ surveyAll g .condition ws
        ++ surveyAll g .condition gs ++ surveyAll g .condition vs
        ++ surveyOption g .condition having ++ surveyAll g .value os
  | join kind l r on =>
    if kind.isOuter then
      .scope .outerJoin <|
        l.survey g .source ++ r.survey g .source ++ surveyOption g .condition on
    else
      l.survey g reading ++ r.survey g reading ++ surveyOption g .condition on
  | update target assignments ws =>
    target.survey g .condition ++ surveyAssignments g assignments ++ surveyAll g .condition ws
  | delete target ws => target.survey g .condition ++ surveyAll g .condition ws
  | tenantKey k _ | keyLink k _ => { pinned := [k.relation] }

/-- The findings of a list, one plan after another. -/
def surveyAll (g : Partitioning) (reading : Reading) : List Plan → Findings
  | [] => {}
  | p :: ps => p.survey g reading ++ surveyAll g reading ps

/-- The findings of an optional part. -/
def surveyOption (g : Partitioning) (reading : Reading) : Option Plan → Findings
  | none => {}
  | some p => p.survey g reading

/-- The findings of the values of assignments. -/
def surveyAssignments (g : Partitioning) : List (String × Plan) → Findings
  | [] => {}
  | (_, p) :: rest => p.survey g .value ++ surveyAssignments g rest

end

end Plan

/-! ### Numbering -/

namespace ScopeTree

mutual

/-- The scope of a tree, numbered `n`, and those inside it after it. The scopes around tie the
relations `inherited`, which only an outer join and the outer joins inside it take over. -/
def number (parent : Option Nat) (inherited : List Relation) (n : Nat) : ScopeTree → List Scope
  | node owner seen pinned inner =>
    -- A `SELECT` starts afresh: conditions around it do not reach its rows.
    let inherited :=
      match owner with
      | .select => []
      | .outerJoin => inherited
    { id := n, owner, parent, seen := seen.eraseDups, pinned := pinned.eraseDups, inherited }
      :: numberAll (some n) (pinned ++ inherited) (n + 1) inner

/-- The scopes of several trees, one after another. -/
def numberAll (parent : Option Nat) (inherited : List Relation) (n : Nat) :
    List ScopeTree → List Scope
  | [] => []
  | t :: ts =>
    let first := t.number parent inherited n
    first ++ numberAll parent inherited (n + first.length) ts

end

end ScopeTree

/-- The scopes of a plan. What the plan reads outside every scope belongs to none. -/
def Plan.scopes (g : Partitioning) (p : Plan) : List Scope :=
  ScopeTree.numberAll none [] 0 (p.survey g .condition).inner

/-- The events of a survey, one for each scope. -/
def Scope.surveyed (scopes : List Scope) : List Event :=
  scopes.map fun s => .scopeSurveyed s.id s.owner s.seen.length s.pinned.length

end Tenancy
