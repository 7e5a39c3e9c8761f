import Tenancy.Event

namespace Tenancy

/-!
# Links — tying joined relations to one another

* `Plan.anchor?` — the partition key to which a relation joined from the right is tied;
* `Plan.link` — ties a relation at every join that brings it in from the right.

A link says that the partition keys of two joined relations agree. It is added to the `ON` of the
join, once, and only joins are descended: a query inside the tree has scopes of its own.
-/

namespace Plan

/-- The partition key of a relation, if its table is a tenant table. -/
def keyOf? (g : Partitioning) (r : Relation) : Option Column :=
  (g.of? r.table).map fun p => r.column p.column

/-- The partition key to which `relation` is tied when it is joined to `left`: that of the relation
with which `left` starts, or else of the nearest one walking from the right end of `left` back. -/
def anchor? (g : Partitioning) (left : Plan) (relation : Relation) : Option Column :=
  ((left.leftmost.toList ++ left.relations.reverse).filter (· ≠ relation)).findSome? (keyOf? g)

/-- The link that the join of `left` and `right` needs for the relation of `key`: none unless
`right` starts with that relation and `left` has an anchor, and none that is there already. -/
def missingLink? (g : Partitioning) (key : Column) (left right : Plan) (on : Option Plan) :
    Option Column :=
  if right.leftmost = some key.relation then
    (anchor? g left key.relation).filter fun other =>
      !on.any fun condition => condition.conjuncts.any fun
        | keyLink k o => decide (k = key ∧ o = other)
        | _ => false
  else none

/-- Adds a condition to an optional one. -/
def addCondition (on : Option Plan) (p : Plan) : Option Plan :=
  some (on.elim p (·.conjoin p))

/-- Ties the relation of `key` at every join of the tree that brings it in from the right. -/
def link (g : Partitioning) (key : Column) : Plan → Audited Plan
  | join kind l r on => do
    let l ← l.link g key
    let r ← r.link g key
    match missingLink? g key l r on with
    | none => return join kind l r on
    | some other =>
      .write (.keyLinked key other.relation)
      return join kind l r (addCondition on (keyLink key other))
  | p => return p

/-- Ties each of several relations in turn. -/
def linkAll (g : Partitioning) (keys : List Column) (p : Plan) : Audited Plan :=
  keys.foldlM (fun p key => p.link g key) p

/-- Ties each of several relations in turn, on both sides of a join. The join itself is left as it
is. -/
def linkSides (g : Partitioning) (keys : List Column) (sides : Plan × Plan) :
    Audited (Plan × Plan) :=
  keys.foldlM (fun (l, r) key => return (← l.link g key, ← r.link g key)) sides

end Plan

end Tenancy
