import Tenancy.Proofs.Sql.Tokens

namespace Tenancy

/-!
# Join trees — how SQL reads a source

* `Plan.IsJoinTree` — joins of tables, with or without alias, on parameters or on nothing;
* `Sql.joinTree?` — a reader that goes through the tokens of a source once, and keeps the joins that
  are open in a stack;
* `joinTree?_toSql` — it recovers a tree from its text, so different trees have different texts
  (`join_trees_read_back`).

Joins associate to the left. A join on the right stands in parentheses, and `ON TRUE` stands for a
condition that is missing, except in a `CROSS JOIN`, which goes without.
-/

namespace Sql

/-! ### A reader -/

/-- The left side of a join that is open, and the kind of the join. -/
structure OpenJoin where
  /-- The left side. -/
  left : Plan
  /-- The kind. -/
  kind : JoinKind

/-- The tree that ends in the source `p` when no `ON` stands behind it. -/
def closed (j : Option OpenJoin) (p : Plan) : Option Plan :=
  match j with
  | none => some p
  | some j => if j.kind = .cross then some (.join .cross j.left p none) else none

/-- The tree that ends in the source `p` and a condition. -/
def closedOn (j : Option OpenJoin) (p : Plan) (n : Nat) : Option Plan :=
  j.map fun j => .join j.kind j.left p (some (.param n))

/-- The tree that ends in the source `p` and `ON TRUE`. -/
def closedOnTrue (j : Option OpenJoin) (p : Plan) : Option Plan :=
  j.bind fun j => if j.kind = .cross then none else some (.join j.kind j.left p none)

/-- A table under an alias. -/
def labelled (p : Plan) (a : String) : Option Plan :=
  match p with
  | .table t => some (.aliased (.table t) a)
  | _ => none

mutual

/-- Reads on where a source has to stand, behind the open join `j` if there is one and inside
parentheses on the right of the joins `js`. -/
def atSource (j : Option OpenJoin) (js : List OpenJoin) : List Token → Option Plan
  | .name t :: ts => behindSource j js (.table t) ts
  | .sign '(' :: ts =>
    match j with
    | none => none
    | some j => atSource none (j :: js) ts
  | _ => none

/-- Reads on behind the source `p`. -/
def behindSource (j : Option OpenJoin) (js : List OpenJoin) (p : Plan) : List Token → Option Plan
  | [] => if js.isEmpty then closed j p else none
  | .keyword "AS" :: .name a :: ts => (labelled p a).bind fun q => behindSource j js q ts
  | .keyword "ON" :: .param n :: ts => (closedOn j p n).bind fun q => behindSource none js q ts
  | .keyword "ON" :: .keyword "TRUE" :: ts =>
    (closedOnTrue j p).bind fun q => behindSource none js q ts
  | .sign ')' :: ts =>
    match js with
    | [] => none
    | j' :: js => (closed j p).bind fun q => behindSource (some j') js q ts
  | .keyword "INNER" :: .keyword "JOIN" :: ts =>
    (closed j p).bind fun q => atSource (some ⟨q, .inner⟩) js ts
  | .keyword "CROSS" :: .keyword "JOIN" :: ts =>
    (closed j p).bind fun q => atSource (some ⟨q, .cross⟩) js ts
  | .keyword "LEFT" :: .keyword "OUTER" :: .keyword "JOIN" :: ts =>
    (closed j p).bind fun q => atSource (some ⟨q, .left⟩) js ts
  | .keyword "RIGHT" :: .keyword "OUTER" :: .keyword "JOIN" :: ts =>
    (closed j p).bind fun q => atSource (some ⟨q, .right⟩) js ts
  | .keyword "FULL" :: .keyword "OUTER" :: .keyword "JOIN" :: ts =>
    (closed j p).bind fun q => atSource (some ⟨q, .full⟩) js ts
  | _ => none

end

/-- The tree of joins that a row of tokens is read as. -/
def joinTree? (ts : List Token) : Option Plan := atSource none [] ts

/-- Behind the tokens the reader is behind the last source of the tree `p`, which is complete
unless an `ON` follows. -/
def ReadsTree (ts : List Token) (p : Plan) : Prop :=
  ∃ j q, closed j q = some p ∧
    ∀ js us, atSource none js (ts ++ us) = behindSource j js q us

/-- Behind the tokens the reader is behind the right side `p` of a join. -/
def ReadsSide (ts : List Token) (p : Plan) : Prop :=
  ∀ j js us, atSource (some j) js (ts ++ us) = behindSource (some j) js p us

theorem ReadsTree.joinTree? {ts : List Token} {p : Plan} (h : ReadsTree ts p) :
    joinTree? ts = some p := by
  obtain ⟨j, q, hclosed, hread⟩ := h
  have hall := hread [] []
  rw [List.append_nil] at hall
  rw [Sql.joinTree?, hall, behindSource]
  exact hclosed

/-- A tree in parentheses is a side. -/
theorem ReadsTree.parentheses {ts : List Token} {p : Plan} (h : ReadsTree ts p) :
    ReadsSide (.sign '(' :: (ts ++ [.sign ')'])) p := by
  obtain ⟨j', q, hclosed, hread⟩ := h
  intro j js us
  rw [List.cons_append, List.append_assoc, atSource, hread, List.singleton_append, behindSource,
    hclosed, Option.bind_some]

/-- The words of a join. -/
def joinWords : JoinKind → List Token
  | .inner => [.keyword "INNER", .keyword "JOIN"]
  | .cross => [.keyword "CROSS", .keyword "JOIN"]
  | .left => [.keyword "LEFT", .keyword "OUTER", .keyword "JOIN"]
  | .right => [.keyword "RIGHT", .keyword "OUTER", .keyword "JOIN"]
  | .full => [.keyword "FULL", .keyword "OUTER", .keyword "JOIN"]

/-- The words of a join end the tree in front of them. -/
theorem behindSource_joinWords {j : Option OpenJoin} {p q : Plan} (h : closed j q = some p)
    (kind : JoinKind) (js : List OpenJoin) (us : List Token) :
    behindSource j js q (joinWords kind ++ us) = atSource (some ⟨p, kind⟩) js us := by
  cases kind <;>
    simp only [joinWords, List.cons_append, List.nil_append, behindSource, h, Option.bind_some]

/-- The words and the condition behind the right side of a join. -/
def conditionTokens (kind : JoinKind) : Option Nat → List Token
  | none => if kind = .cross then [] else [.keyword "ON", .keyword "TRUE"]
  | some n => [.keyword "ON", .param n]

/-- A tree, the words of a join, a side and a condition are a tree. -/
theorem ReadsTree.join {ts us : List Token} {l r : Plan} (hl : ReadsTree ts l)
    (hr : ReadsSide us r) (kind : JoinKind) (on : Option Nat) :
    ReadsTree (ts ++ (joinWords kind ++ (us ++ conditionTokens kind on)))
      (.join kind l r (on.map .param)) := by
  obtain ⟨j, q, hclosed, hread⟩ := hl
  -- The words of the join complete the tree on the left, and the side is read behind them.
  have hside : ∀ js vs, atSource none js (ts ++ (joinWords kind ++ (us ++ conditionTokens kind on))
      ++ vs) = behindSource (some ⟨l, kind⟩) js r (conditionTokens kind on ++ vs) := by
    intro js vs
    rw [List.append_assoc, hread, List.append_assoc, behindSource_joinWords hclosed,
      List.append_assoc, hr]
  cases on with
  | some n =>
    refine ⟨none, .join kind l r (some (.param n)), rfl, fun js vs => ?_⟩
    rw [hside]
    simp [conditionTokens, behindSource, closedOn]
  | none =>
    by_cases hkind : kind = .cross
    · -- The reader leaves the join open, since a condition might follow.
      subst hkind
      exact ⟨some ⟨l, .cross⟩, r, rfl, fun js vs => hside js vs⟩
    · refine ⟨none, .join kind l r none, rfl, fun js vs => ?_⟩
      rw [hside]
      simp [conditionTokens, behindSource, closedOnTrue, hkind]

end Sql

open Sql (Fragment Token Spells Leads leads_of_isDone)

namespace Plan

/-- A tree of joins over tables, with or without alias, on parameters or on nothing. -/
inductive IsJoinTree : Plan → Prop
  /-- A table. -/
  | table (t : String) : IsJoinTree (table t)
  /-- A table under an alias. -/
  | aliased (t a : String) : IsJoinTree (aliased (table t) a)
  /-- A join. -/
  | join (kind : JoinKind) {l r : Plan} {on : Option Plan} (hl : IsJoinTree l) (hr : IsJoinTree r)
    (hon : ∀ c ∈ on, ∃ n, c = param n) : IsJoinTree (join kind l r on)

/-! ### The text of a tree -/

theorem leads_joinKeyword (kind : JoinKind) :
    Leads (" " ++ kind.keyword ++ " ").toList (Sql.joinWords kind) := by
  cases kind <;> exact leads_of_isDone rfl

/-- The condition behind the right side of a join. -/
def conditionFragment (kind : JoinKind) : Option Nat → Fragment
  | none => if kind = .cross then [] else [.text " ON TRUE"]
  | some n => .text " ON " :: (param n).fragment .operand

theorem fragment_join (kind : JoinKind) (l r : Plan) (on : Option Nat) :
    (join kind l r (on.map param)).fragment .operand = l.fragment .operand
      ++ (.text (" " ++ kind.keyword ++ " ")
        :: ((if r.isJoin then parenthesized (r.fragment .operand) else r.fragment .operand)
          ++ conditionFragment kind on)) := by
  cases on <;> simp [fragment, conditionFragment]

theorem spells_condition (kind : JoinKind) (on : Option Nat) :
    Spells (conditionFragment kind on).letters (Sql.conditionTokens kind on) := by
  cases on with
  | none =>
    rw [conditionFragment, Sql.conditionTokens]
    split
    · exact fun _ _ => rfl
    · have htrue : Spells " ON TRUE".toList [.keyword "ON", .keyword "TRUE"] :=
        Sql.spells_of_isOpen_eq_false rfl
      simpa using htrue
  | some n =>
    have hon : Leads " ON ".toList [.keyword "ON"] := leads_of_isDone rfl
    have hboth := hon.append (Sql.spells_param n)
    simpa [conditionFragment, Sql.conditionTokens, fragment] using hboth

theorem breaks_condition (kind : JoinKind) (on : Option Nat) :
    Sql.Breaks (conditionFragment kind on).letters := by
  cases on with
  | none =>
    rw [conditionFragment]
    split
    · exact Sql.breaks_nil
    · exact Sql.breaks_cons rfl _
  | some n =>
    rw [conditionFragment, Fragment.letters_text_cons]
    exact Sql.breaks_cons rfl _

/-- The text of a tree is read as the tree, and that of a table as a side, too. -/
theorem IsJoinTree.reads {p : Plan} (h : p.IsJoinTree) : ∃ ts,
    Spells (p.fragment .operand).letters ts ∧ Sql.ReadsTree ts p ∧
      (p.isJoin = false → Sql.ReadsSide ts p) := by
  induction h with
  | table t =>
    refine ⟨[.name t], ?_, ⟨none, Plan.table t, rfl, fun _ _ => rfl⟩, fun _ _ _ _ => rfl⟩
    rw [fragment, Fragment.letters_text_cons, Fragment.letters_nil, List.append_nil]
    exact Sql.spells_identifier t
  | aliased t a =>
    refine ⟨[.name t, .keyword "AS", .name a], ?_,
      ⟨none, Plan.aliased (Plan.table t) a, rfl, fun _ _ => rfl⟩, fun _ _ _ _ => rfl⟩
    have has : Leads " AS ".toList [.keyword "AS"] := leads_of_isDone rfl
    have hall := (Sql.spells_identifier t).append (has.append (Sql.spells_identifier a))
      (Sql.breaks_cons rfl _)
    simpa [fragment, standsUnderAlias] using hall
  | @join kind l r on _ _ hon ihl ihr =>
    obtain ⟨ts, hts, hl, -⟩ := ihl
    obtain ⟨us, hus, hr, hrside⟩ := ihr
    -- On the right a join stands in parentheses.
    have hright : ∃ vs, Spells (if r.isJoin then parenthesized (r.fragment .operand)
        else r.fragment .operand : Fragment).letters vs ∧ Sql.ReadsSide vs r := by
      cases hjoin : r.isJoin with
      | true => exact ⟨_, spells_parenthesized hus, hr.parentheses⟩
      | false => exact ⟨us, hus, hrside hjoin⟩
    obtain ⟨vs, hvs, hside⟩ := hright
    -- The condition is a parameter, or missing.
    have hmap : ∃ n : Option Nat, on = n.map param := by
      cases on with
      | none => exact ⟨none, rfl⟩
      | some c =>
        obtain ⟨n, rfl⟩ := hon c rfl
        exact ⟨some n, rfl⟩
    obtain ⟨n, rfl⟩ := hmap
    refine ⟨_, ?_, hl.join hside kind n, nofun⟩
    rw [fragment_join, Fragment.letters_append, Fragment.letters_text_cons, Fragment.letters_append]
    have hbehind := hvs.append (spells_condition kind n) (breaks_condition kind n)
    refine hts.append ((leads_joinKeyword kind).append hbehind) ?_
    cases kind <;> exact Sql.breaks_cons rfl _

/-- **A tree of joins is recovered from its text**, so no two trees have the same text. -/
theorem join_trees_read_back :
    (∀ p : Plan, p.IsJoinTree → Sql.joinTree? (Sql.tokens p.toSql) = some p) ∧
      ∀ p q : Plan, p.IsJoinTree → q.IsJoinTree → p.toSql = q.toSql → p = q := by
  have hread : ∀ p : Plan, p.IsJoinTree → Sql.joinTree? (Sql.tokens p.toSql) = some p := by
    intro p hp
    obtain ⟨ts, hspells, htree, -⟩ := hp.reads
    have hposition : p.fragment .statement = p.fragment .operand := by
      cases hp with
      | @join kind l r on => cases on <;> rfl
      | _ => rfl
    have htokens : Sql.tokens p.toSql = ts := by
      rw [toSql, hposition]
      exact hspells.lex_eq
    rw [htokens, htree.joinTree?]
  refine ⟨hread, fun p q hp hq hsame => ?_⟩
  have hp' := hread p hp
  rw [hsame, hread q hq] at hp'
  exact (Option.some.inj hp').symm

/-- A tree with a join on either side, under names that look like its own words. -/
def nestedJoins : Plan :=
  join .left (join .cross (table "a") (aliased (table "JOIN") ") ON") none)
    (join .inner (table "b") (table "c") (some (param 1))) none

example : nestedJoins.toSql
    = "a CROSS JOIN \"JOIN\" AS \") ON\" LEFT OUTER JOIN (b INNER JOIN c ON $1) ON TRUE" := rfl

theorem join_trees_read_back_nested :
    Sql.joinTree? (Sql.tokens nestedJoins.toSql) = some nestedJoins ∧
      ∀ q : Plan, q.IsJoinTree → q.toSql = nestedJoins.toSql → q = nestedJoins := by
  have hcross : IsJoinTree (join .cross (table "a") (aliased (table "JOIN") ") ON") none) :=
    .join _ (.table _) (.aliased _ _) nofun
  have hinner : IsJoinTree (join .inner (table "b") (table "c") (some (param 1))) :=
    .join _ (.table _) (.table _) (by simp)
  have htree : nestedJoins.IsJoinTree := .join _ hcross hinner nofun
  exact ⟨join_trees_read_back.1 _ htree, fun q hq => join_trees_read_back.2 q _ hq htree⟩

end Plan
end Tenancy
