import Mathlib.Logic.Relation
import Tenancy.Proofs.Restrict.Growth

namespace Tenancy

/-!
# Scope nodes — where the scope nodes of a restricted plan come from

A restriction adds something at each scope node when the nodes inside it are done. The scopes around
it may then add links to it, if it is an outer join. Nothing else happens to it.

* `Plan.LinkedFrom` — a node with links added;
* `Plan.ComesFrom` — a scope node that restriction has made of another one;
* `scopeNodes_impose` — the scope nodes of a restricted plan come from those of the plan, one from
  each and with the same numbers;
* `ComesFrom.induction` — what imposing establishes at a scope node and linking keeps holds of all
  that comes from it.
-/

namespace Plan

variable {g : Partitioning}

/-- The node `q'` is the node `q` with links for some keys added. -/
def LinkedFrom (g : Partitioning) : Plan → Plan → Prop :=
  Relation.ReflTransGen fun q q' => ∃ key, q' = (q.link g key).value

/-- What linking for one key keeps, linking for several keys keeps. -/
theorem LinkedFrom.induction {p q : Plan} {motive : Plan → Prop} (h : LinkedFrom g p q)
    (hp : motive p) (link : ∀ key q, motive q → motive (q.link g key).value) : motive q := by
  induction h with
  | refl => exact hp
  | tail _ hlink ih =>
    obtain ⟨key, rfl⟩ := hlink
    exact link key _ ih

theorem LinkedFrom.owner?_eq {q q' : Plan} (h : LinkedFrom g q q') : q'.owner? = q.owner? :=
  h.induction (motive := fun q' => q'.owner? = q.owner?) rfl fun key q' hq =>
    (owner?_link g key q').trans hq

theorem linkedFrom_linkAll (keys : List Column) (p : Plan) :
    LinkedFrom g p (linkAll g keys p).value :=
  linkAll_induction (motive := LinkedFrom g p) .refl fun k _ _ h => h.tail ⟨k, rfl⟩

private theorem linkedFrom_refl (ps : List Plan) : List.Forall₂ (LinkedFrom g) ps ps :=
  List.forall₂_same.2 fun _ _ => .refl

theorem scopeNodes_of_adds {cs ps ps' : List Plan} (h : Adds cs ps ps')
    (hcs : ∀ c ∈ cs, c.isSynthetic = true) :
    ps'.flatMap scopeNodes = ps.flatMap scopeNodes :=
  h.flatMap_eq throughAnd_scopeNodes fun c hc => scopeNodes_of_isSynthetic (hcs c hc)

/-- Linking a tree of joins links its scope nodes. -/
theorem scopeNodes_link (key : Column) (p : Plan) :
    List.Forall₂ (LinkedFrom g) p.scopeNodes (p.link g key).value.scopeNodes := by
  induction p using link.induct with
  | case1 kind l r on ihl ihr =>
    have hon := scopeNodes_of_adds
      (adds_linkedOn g key (l.link g key).value (r.link g key).value on)
      (isSynthetic_missingLink? key _ _ on)
    have hself : LinkedFrom g (join kind l r on) ((join kind l r on).link g key).value :=
      .single ⟨key, rfl⟩
    rw [scopeNodes_eq, scopeNodes_eq ((join kind l r on).link g key).value, owner?_link]
    refine List.rel_append ?_ ?_
    · split
      · exact .cons hself .nil
      · exact .nil
    · rw [value_link_join]
      simp only [parts, List.flatMap_cons, List.flatMap_map, hon]
      exact List.rel_append ihl (List.rel_append ihr (linkedFrom_refl _))
  | case2 p h =>
    rw [link_of_not_join g key h]
    exact linkedFrom_refl _

theorem scopeNodes_linkAll (keys : List Column) (p : Plan) :
    List.Forall₂ (LinkedFrom g) p.scopeNodes (linkAll g keys p).value.scopeNodes :=
  linkAll_induction (motive := fun q => List.Forall₂ (LinkedFrom g) p.scopeNodes q.scopeNodes)
    (linkedFrom_refl _) fun k _ q hq =>
      forall₂_comp (fun h h' => h.trans h') hq (scopeNodes_link k q)

/-- Enforcing at a node links the scope nodes below it. -/
theorem scopeNodes_enforce (e : Restriction) (n : Nat) (p : Plan) :
    List.Forall₂ (LinkedFrom e.partitioning) (p.parts.flatMap (·.2.scopeNodes))
      ((p.enforce e n).parts.flatMap (·.2.scopeNodes)) := by
  have hcs := isSynthetic_keyConditions e n
  cases p with
  | select q =>
    have hws := scopeNodes_of_adds (adds_addWheres _ q.wheres) hcs
    cases hs : q.source with
    | none =>
      simp only [enforce, parts, hs, List.flatMap_append, List.flatMap_map, hws]
      exact linkedFrom_refl _
    | some s =>
      simp only [enforce, parts, hs, Option.map_some, Option.toList_some, List.map_cons,
        List.map_nil, List.flatMap_append, List.flatMap_map, List.flatMap_singleton, hws,
        List.append_assoc]
      exact List.rel_append (scopeNodes_linkAll _ s) (linkedFrom_refl _)
  | join kind l r on =>
    rw [enforce]
    split
    · have hon := scopeNodes_of_adds (adds_addOn _ on) hcs
      simp only [parts, List.flatMap_cons, List.flatMap_map, hon]
      exact List.rel_append (scopeNodes_linkAll _ l)
        (List.rel_append (scopeNodes_linkAll _ r) (linkedFrom_refl _))
    · exact linkedFrom_refl _
  | _ => exact linkedFrom_refl _

theorem owner?_impose (e : Restriction) (n : Nat) (p : Plan) :
    (p.impose e n).value.owner? = p.owner? := by
  rw [value_impose, owner?_enforce, (sameNode_imposeBelow e n p).owner?_eq]

/-- The scope node `q` of a restricted plan comes from the scope node `p` with number `n`: it is
what imposing makes of `p`, with the links that the scopes around it have added. -/
def ComesFrom (e : Restriction) (p : Plan × Nat) (q : Plan) : Prop :=
  LinkedFrom e.partitioning (p.1.impose e p.2).value q

private theorem scopeNodes_imposeParts {e : Restriction} (n : Nat) {cs : List (Role × Plan)}
    (h : ∀ c ∈ cs, ∀ n, List.Forall₂ (ComesFrom e) (c.2.scopeNodes.zipIdx n)
      (c.2.impose e n).value.scopeNodes) :
    List.Forall₂ (ComesFrom e) ((cs.flatMap (·.2.scopeNodes)).zipIdx n)
      ((imposeParts e n cs).flatMap (·.2.scopeNodes)) := by
  induction cs generalizing n with
  | nil => exact .nil
  | cons c cs ih =>
    rw [imposeParts, List.flatMap_cons, List.flatMap_cons, List.zipIdx_append, length_scopeNodes]
    exact List.rel_append (h c List.mem_cons_self n)
      (ih _ fun c' hc' => h c' (List.mem_cons_of_mem _ hc'))

/-- The scope nodes of a restricted plan come from those of the plan, one from each. -/
theorem scopeNodes_impose (e : Restriction) (n : Nat) (p : Plan) :
    List.Forall₂ (ComesFrom e) (p.scopeNodes.zipIdx n) (p.impose e n).value.scopeNodes := by
  induction p using inductionOnParts generalizing n with
  | step p ih =>
    have hbelow := scopeNodes_enforce e n (p.imposeBelow e n)
    rw [parts_imposeBelow, ← value_impose] at hbelow
    rw [scopeNodes_eq, scopeNodes_eq (p.impose e n).value, owner?_impose, List.zipIdx_append]
    refine List.rel_append ?_ ?_
    · split
      · exact .cons .refl .nil
      · exact .nil
    · have hlength : (if p.owner?.isSome then [p] else []).length = p.owner?.toList.length := by
        cases p.owner? <;> rfl
      rw [hlength]
      exact forall₂_comp (fun h h' => h.trans h') (scopeNodes_imposeParts _ ih) hbelow

theorem ComesFrom.owner?_eq {e : Restriction} {p q : Plan} {n : Nat}
    (h : ComesFrom e (p, n) q) : q.owner? = p.owner? :=
  (LinkedFrom.owner?_eq h).trans (owner?_impose e n p)

/-- From each scope node of a plan one of the restricted plan comes. -/
theorem exists_comesFrom (e : Restriction) {p m : Plan} {n : Nat} (hm : p.scopeNodes[n]? = some m) :
    ∃ m', (p.impose e 0).value.scopeNodes[n]? = some m' ∧ ComesFrom e (m, n) m' := by
  refine exists_getElem?_of_forall₂ (scopeNodes_impose e 0 p) ?_
  rw [List.getElem?_zipIdx, hm, Option.map_some, Nat.zero_add]

/-- Scope nodes with one number come from one another. -/
theorem comesFrom_scopeNodes {e : Restriction} {p m m' : Plan} {n : Nat}
    (hm : p.scopeNodes[n]? = some m) (hm' : (p.impose e 0).value.scopeNodes[n]? = some m') :
    ComesFrom e (m, n) m' := by
  obtain ⟨q, hq, hcomes⟩ := exists_comesFrom e hm
  rwa [Option.some.inj (hm'.symm.trans hq)]

/-- What imposing establishes at a scope node and linking keeps holds of all that comes from it. -/
theorem ComesFrom.induction {e : Restriction} {p q : Plan} {n : Nat} {motive : Plan → Prop}
    (h : ComesFrom e (p, n) q) (ho : p.owner?.isSome) (impose : motive (p.impose e n).value)
    (link : ∀ q key, q.owner?.isSome → motive q → motive (q.link e.partitioning key).value) :
    motive q := by
  have howner : (p.impose e n).value.owner?.isSome := by rwa [owner?_impose]
  -- Linking does not change whether the node owns a scope.
  have hboth : q.owner?.isSome ∧ motive q :=
    LinkedFrom.induction (motive := fun q => q.owner?.isSome ∧ motive q) h ⟨howner, impose⟩
      fun key q hq => ⟨by rw [owner?_link, hq.1], link q key hq.1 hq.2⟩
  exact hboth.2

end Plan

end Tenancy
