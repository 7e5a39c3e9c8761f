import Mathlib.Tactic.Choose
import Tenancy.Proofs.Plan.Conjunctions
import Tenancy.Proofs.Restrict.Targets
import Tenancy.Proofs.Scope.Filters
import Tenancy.Proofs.Sql.Conditions

namespace Tenancy

/-!
# Predicates — what the SQL of a condition says

* `Sql.Boolean`, `Sql.Conjunctive` — texts that SQL reads as conditions on parameters, and those
  among them that have no `OR` outside of parentheses;
* `Plan.Predicate` — conditions built of connectives, parameters and certain texts;
* `Plan.IsReadAs`, `Predicate.exists_isReadAs` — what SQL reads off such a condition;
* `Plan.WhereText` — the text between the `WHERE` of a statement and its next clause;
* `predicates_read_back` — SQL reads off a condition what the condition says.

The parts of `OR` and `NOT` stand in parentheses, but those of `AND` do not. That is enough unless a
part of an `AND` is a text with an `OR` of its own.
-/

namespace Sql

/-- The text is a condition on parameters. -/
def Boolean (s : String) : Prop :=
  ∃ f, Reads .disjunction (tokens s) f ∧ ∀ a ∈ f.atoms, a.isParam = true

/-- The text is a condition on parameters, with no `OR` outside of parentheses. -/
def Conjunctive (s : String) : Prop :=
  ∃ f, Reads .conjunction (tokens s) f ∧ ∀ a ∈ f.atoms, a.isParam = true

/-- The tokens are read as a condition, and what they are read as is true where `truth` is. -/
def Means (ts : List Token) (truth : (Atom → Bool) → Bool) : Prop :=
  (∃ f, Reads .disjunction ts f) ∧ ∀ f, Reads .disjunction ts f → ∀ v, f.eval v = truth v

theorem Reads.means {ts : List Token} {f : Formula} (h : Reads .disjunction ts f)
    {truth : (Atom → Bool) → Bool} (htruth : ∀ v, f.eval v = truth v) : Means ts truth :=
  ⟨⟨f, h⟩, fun g hg => by rwa [hg.unique h]⟩

end Sql

open Sql (Fragment Token Formula Reads Spells Leads leads_of_isDone)

/-- Texts with a separator between them have the tokens of the separator between theirs. -/
theorem spells_joined {α : Type} {separator : String} {t : Token}
    (hseparator : Leads separator.toList [t])
    (hbreak : ∀ ds, Sql.Breaks (separator.toList ++ ds))
    {text : α → Fragment} {ts : α → List Token} {xs : List α}
    (hxs : ∀ x ∈ xs, Spells (text x).letters (ts x)) :
    Spells (Fragment.joined separator (xs.map text)).letters ([t].intercalate (xs.map ts)) := by
  induction xs with
  | nil => exact fun _ _ => rfl
  | cons x xs ih =>
    obtain ⟨hx, hxs⟩ := List.forall_mem_cons.1 hxs
    cases xs with
    | nil => simpa [Fragment.joined, List.intercalate] using hx
    | cons y xs =>
      have hrest := hseparator.append (ih hxs)
      have hall := hx.append hrest (hbreak _)
      simpa [Fragment.joined, List.intercalate] using hall

namespace Plan

/-! ### Conditions -/

/-- A condition built of connectives, parameters and texts `s` with `fragments s`. -/
inductive Predicate (fragments : String → Prop) : Plan → Prop
  /-- A parameter. -/
  | param (n : Nat) : Predicate fragments (param n)
  /-- A text that is taken as it is. -/
  | raw {s : String} (h : fragments s) : Predicate fragments (raw s)
  /-- A conjunction of at least one condition. -/
  | and {ps : List Plan} (hne : ps ≠ []) (h : ∀ p ∈ ps, Predicate fragments p) :
    Predicate fragments (and ps)
  /-- A disjunction. -/
  | or {l r : Plan} (hl : Predicate fragments l) (hr : Predicate fragments r) :
    Predicate fragments (or l r)
  /-- A negation. -/
  | not {p : Plan} (h : Predicate fragments p) : Predicate fragments (not p)
  /-- A condition in parentheses. -/
  | group {p : Plan} (h : Predicate fragments p) : Predicate fragments (group p)

/-- The truth of the parameters of a plan. -/
def paramTruth (v : Sql.Atom → Bool) : Plan → Bool
  | param n => v (.param n)
  | _ => false

variable {fragments : String → Prop} {p : Plan}

/-- Where a condition stands makes no difference to its SQL. -/
theorem Predicate.fragment_position (h : p.Predicate fragments) (pos : Position) :
    p.fragment pos = p.fragment .operand := by
  cases h <;> rfl

/-! ### The tokens of a condition -/

theorem spells_and {ps : List Plan} {ts : Plan → List Token}
    (h : ∀ p ∈ ps, Spells (p.fragment .operand).letters (ts p)) :
    Spells ((and ps).fragment .operand).letters ([.keyword "AND"].intercalate (ps.map ts)) := by
  have hand : Leads " AND ".toList [.keyword "AND"] := leads_of_isDone rfl
  rw [fragment, operands_eq_map]
  exact spells_joined hand (fun _ => Sql.breaks_cons rfl _) h

theorem spells_or {l r : Plan} {ts us : List Token} (hl : Spells (l.fragment .operand).letters ts)
    (hr : Spells (r.fragment .operand).letters us) :
    Spells ((or l r).fragment .operand).letters
      (.sign '(' :: (ts ++ .keyword "OR" :: us ++ [.sign ')'])) := by
  have hor : Leads " OR ".toList [.keyword "OR"] := leads_of_isDone rfl
  rw [fragment]
  refine spells_parenthesized ?_
  rw [Fragment.letters_append, Fragment.letters_text_cons]
  exact hl.append (hor.append hr) (Sql.breaks_cons rfl _)

theorem spells_not {p : Plan} {ts : List Token} (h : Spells (p.fragment .operand).letters ts) :
    Spells ((not p).fragment .operand).letters
      (.keyword "NOT" :: .sign '(' :: (ts ++ [.sign ')'])) := by
  have hnot : Leads "NOT ".toList [.keyword "NOT"] := leads_of_isDone rfl
  rw [fragment, Fragment.letters_text_cons]
  exact hnot.append (spells_parenthesized h)

theorem spells_param (n : Nat) : Spells ((param n).fragment .operand).letters [.param n] := by
  rw [fragment, Fragment.letters_text_cons, Fragment.letters_nil, List.append_nil]
  exact Sql.spells_param n

theorem spells_raw {s : String} {ℓ : Sql.Level} {f : Formula} (h : Reads ℓ (Sql.tokens s) f) :
    Spells ((raw s).fragment .operand).letters (Sql.tokens s) := by
  rw [fragment, Fragment.letters_text_cons, Fragment.letters_nil, List.append_nil]
  exact Reads.spells h

/-! ### What a condition says -/

theorem truth_and (atom : Plan → Bool) (ps : List Plan) :
    (and ps).truth atom = ps.all (·.truth atom) := by
  rw [truth]
  induction ps with
  | nil => rfl
  | cons p ps ih => rw [truth.truthAll, ih, List.all_cons]

/-- The texts among the conjuncts of the condition have no `OR` outside of parentheses. -/
def Unbroken (p : Plan) : Prop := ∀ s, raw s ∈ p.conjuncts → Sql.Conjunctive s

theorem unbroken_and {ps : List Plan} : (and ps).Unbroken ↔ ∀ p ∈ ps, p.Unbroken := by
  unfold Unbroken
  simp only [throughAnd_conjuncts.apply_and, List.mem_flatMap]
  exact ⟨fun h p hp s hs => h s ⟨p, hp, hs⟩, fun h s ⟨p, hp, hs⟩ => h p hp s hs⟩

/-- A condition without texts has none among its conjuncts. -/
theorem Predicate.unbroken (h : p.Predicate fun _ => False) : p.Unbroken := by
  induction h with
  | and _ _ ih => exact unbroken_and.2 ih
  | raw h => exact h.elim
  | _ => simp [Unbroken, conjuncts]

/-- What SQL reads off the text of a condition. -/
structure IsReadAs (p : Plan) (ts : List Token) (f : Formula) : Prop where
  /-- The text has these tokens. -/
  spells : Spells (p.fragment .operand).letters ts
  /-- The grammar reads the formula off them. -/
  reads : Reads .disjunction ts f
  /-- The formula is about parameters alone. -/
  params : ∀ a ∈ f.atoms, a.isParam = true
  /-- There is no `OR` outside of parentheses unless a text among the conjuncts has one. -/
  conjunction : p.Unbroken → Reads .conjunction ts f
  /-- Without texts the formula is true exactly where the condition is. -/
  truth : p.Predicate (fun _ => False) → ∀ v, f.eval v = p.truth (paramTruth v)

theorem isReadAs_param (n : Nat) : (param n).IsReadAs [.param n] (.atom (.param n)) := by
  have hread : Reads .conjunction [.param n] (.atom (.param n)) := .negation (.operand (.param n))
  exact ⟨spells_param n, .conjunction hread, List.forall_mem_singleton.2 rfl, fun _ => hread,
    fun _ _ => rfl⟩

theorem exists_isReadAs_raw {s : String} (h : Sql.Boolean s) : ∃ ts f, (raw s).IsReadAs ts f := by
  obtain ⟨f, hread, hparams⟩ := h
  refine ⟨_, f, spells_raw hread, hread, hparams, fun hs => ?_, fun hfalse => ?_⟩
  · obtain ⟨f', hread', _⟩ := hs s (List.mem_singleton_self _)
    rwa [hread.unique (.conjunction hread')]
  · cases hfalse with
    | raw hfalse => exact hfalse.elim

theorem exists_isReadAs_and {ps : List Plan} (hne : ps ≠ [])
    (h : ∀ p ∈ ps, ∃ ts f, p.IsReadAs ts f) : ∃ ts f, (and ps).IsReadAs ts f := by
  choose! ts f hps using h
  have hnonempty : (ps.map fun p => (ts p, f p)) ≠ [] := by simpa using hne
  have hreads : ∀ x ∈ ps.map fun p => (ts p, f p), Reads .disjunction x.1 x.2 :=
    List.forall_mem_map.2 fun p hp => (hps p hp).reads
  have htokens : (ps.map fun p => (ts p, f p)).map (·.1) = ps.map ts := by simp
  obtain ⟨g, hread, hatoms, hchain⟩ := Sql.exists_reads_chain hnonempty hreads
  rw [htokens] at hread hchain
  -- A part without `OR` outside of parentheses has none in the chain.
  have hparts : (and ps).Unbroken → ∀ x ∈ ps.map fun p => (ts p, f p), Reads .conjunction x.1 x.2 :=
    fun hs => List.forall_mem_map.2 fun p hp => (hps p hp).conjunction (unbroken_and.1 hs p hp)
  refine ⟨_, g, spells_and fun p hp => (hps p hp).spells, hread, ?_,
    fun hs => (hchain (hparts hs)).1, fun htrue v => ?_⟩
  · rw [hatoms, List.flatMap_map, List.forall_mem_flatMap]
    exact fun p hp => (hps p hp).params
  · rw [(hchain (hparts htrue.unbroken)).2 v, truth_and, List.all_map]
    cases htrue with
    | and _ htrue =>
      rw [Bool.eq_iff_iff, List.all_eq_true, List.all_eq_true]
      refine forall₂_congr fun p hp => ?_
      rw [Function.comp_apply, (hps p hp).truth (htrue p hp) v]

theorem IsReadAs.or {l r : Plan} {ts us : List Token} {f g : Formula} (hl : l.IsReadAs ts f)
    (hr : r.IsReadAs us g) : ∃ ts f, (or l r).IsReadAs ts f := by
  obtain ⟨h, hdisjunction, hatoms, heval⟩ := Sql.exists_reads_or hl.reads hr.reads
  have hread := Reads.negation (.operand (.parentheses hdisjunction))
  refine ⟨_, h, spells_or hl.spells hr.spells, .conjunction hread, ?_, fun _ => hread,
    fun htrue v => ?_⟩
  · rw [hatoms, List.forall_mem_append]
    exact ⟨hl.params, hr.params⟩
  · cases htrue with
    | or hltrue hrtrue => rw [heval, hl.truth hltrue, hr.truth hrtrue, Plan.truth]

theorem IsReadAs.not {p : Plan} {ts : List Token} {f : Formula} (h : p.IsReadAs ts f) :
    (not p).IsReadAs (.keyword "NOT" :: .sign '(' :: (ts ++ [.sign ')'])) (.not f) := by
  have hread := Reads.negation (.not (.operand (.parentheses h.reads)))
  refine ⟨spells_not h.spells, .conjunction hread, h.params, fun _ => hread, fun htrue v => ?_⟩
  cases htrue with
  | not hp => rw [Formula.eval, h.truth hp, Plan.truth]

theorem IsReadAs.group {p : Plan} {ts : List Token} {f : Formula} (h : p.IsReadAs ts f)
    (hposition : p.fragment .statement = p.fragment .operand) :
    (group p).IsReadAs (.sign '(' :: (ts ++ [.sign ')'])) f := by
  have hread := Reads.negation (.operand (.parentheses h.reads))
  refine ⟨?_, .conjunction hread, h.params, fun _ => hread, fun htrue v => ?_⟩
  · rw [fragment, hposition]
    exact spells_parenthesized h.spells
  · cases htrue with
    | group hp => exact h.truth hp v

/-- SQL reads something off every condition whose texts are conditions on parameters. -/
theorem Predicate.exists_isReadAs (h : p.Predicate Sql.Boolean) : ∃ ts f, p.IsReadAs ts f := by
  induction h with
  | param n => exact ⟨_, _, isReadAs_param n⟩
  | raw h => exact exists_isReadAs_raw h
  | and hne _ ih => exact exists_isReadAs_and hne ih
  | or _ _ ihl ihr =>
    obtain ⟨_, _, hl⟩ := ihl
    obtain ⟨_, _, hr⟩ := ihr
    exact hl.or hr
  | not _ ih =>
    obtain ⟨_, _, hp⟩ := ih
    exact ⟨_, _, hp.not⟩
  | group hpredicate ih =>
    obtain ⟨_, _, hp⟩ := ih
    exact ⟨_, _, hp.group (hpredicate.fragment_position .statement)⟩

/-! ### The text behind `WHERE` -/

/-- Conditions with `AND` between them. -/
def chained (ws : List Plan) : Fragment := Fragment.joined " AND " (operands ws)

/-- The `WHERE` list of a statement. -/
def whereList : Plan → List Plan
  | select q => q.wheres
  | p => p.mutationWheres

/-- The statement without its `WHERE`. -/
def withoutWhere : Plan → Plan
  | select q => select { q with wheres := [] }
  | p => p.withWheres []

/-- The statement up to its `WHERE`. -/
def upToWhere : Plan → Plan
  | select q => select { projections := q.projections, source := q.source }
  | p => p.withWheres []

/-- The words with which a clause begins that may stand behind a `WHERE`. -/
def laterClauses : List String :=
  [" GROUP BY ", " HAVING ", " WINDOW ", " ORDER BY ", " LIMIT ", " OFFSET "]

/-- The text stands in the SQL of a statement between its `WHERE` and the next clause. -/
def WhereText (p : Plan) (text : String) : Prop :=
  ∃ rest, p.toSql = p.upToWhere.toSql ++ " WHERE " ++ text ++ rest ∧
    p.withoutWhere.toSql = p.upToWhere.toSql ++ rest ∧
    (rest = "" ∨ ∃ word ∈ laterClauses, ∃ s, rest = word ++ s)

/-- There is only one such text. -/
theorem WhereText.unique {p : Plan} {s t : String} (hs : p.WhereText s) (ht : p.WhereText t) :
    s = t := by
  obtain ⟨rest, hsql, hwithout, -⟩ := hs
  obtain ⟨rest', hsql', hwithout', -⟩ := ht
  obtain rfl : rest = rest' := (String.append_right_inj _).1 (hwithout.symm.trans hwithout')
  have hsame := (String.append_left_inj _).1 (hsql.symm.trans hsql')
  exact (String.append_right_inj _).1 hsame

/-- A fragment that is empty or begins with a later clause. -/
def BeginsClause (f : Fragment) : Prop :=
  f = [] ∨ ∃ word ∈ laterClauses, ∃ s f', f = .text (word ++ s) :: f'

theorem BeginsClause.append {f g : Fragment} (hf : BeginsClause f) (hg : BeginsClause g) :
    BeginsClause (f ++ g) := by
  obtain rfl | ⟨word, hword, s, f', rfl⟩ := hf
  · exact hg
  · exact .inr ⟨word, hword, s, f' ++ g, rfl⟩

theorem beginsClause_clause {keyword : String} (h : keyword ∈ laterClauses) (separator : String)
    (terms : List Fragment) : BeginsClause (clause keyword separator terms) := by
  cases terms with
  | nil => exact .inl rfl
  | cons f fs =>
    refine .inr ⟨keyword, h, "", Fragment.joined separator (f :: fs), ?_⟩
    rw [String.append_empty]
    rfl

theorem beginsClause_optional {keyword : String} (h : keyword ∈ laterClauses) (p : Option Plan) :
    BeginsClause (optional keyword p) := by
  cases p with
  | none => exact .inl rfl
  | some p => exact .inr ⟨keyword, h, "", _, by rw [String.append_empty, optional]⟩

theorem beginsClause_countClause {keyword : String} (h : keyword ∈ laterClauses)
    (count : Option Nat) : BeginsClause (countClause keyword count) := by
  cases count with
  | none => exact .inl rfl
  | some n => exact .inr ⟨keyword, h, toString n, [], rfl⟩

theorem BeginsClause.inline {f : Fragment} (h : BeginsClause f) :
    Fragment.inline f = "" ∨ ∃ word ∈ laterClauses, ∃ s, Fragment.inline f = word ++ s := by
  obtain rfl | ⟨word, hword, s, f', rfl⟩ := h
  · exact .inl rfl
  · exact .inr ⟨word, hword, s ++ Fragment.inline f', by
      rw [Fragment.inline, String.append_assoc]⟩

/-- The conditions of a statement stand behind its `WHERE`, with `AND` between them. -/
theorem whereText_of_ne_nil {p : Plan} (h : p.whereList ≠ []) :
    p.WhereText (chained p.whereList).inline := by
  obtain ⟨w, ws, hws⟩ := List.exists_cons_of_ne_nil h
  cases p with
  | select q =>
    obtain ⟨ps, source, ws', gs, vs, having, os, limit, offset⟩ := q
    obtain rfl : ws' = w :: ws := hws
    have hbegins : BeginsClause (clause " GROUP BY " ", " (operands gs)
        ++ optional " HAVING " having ++ clause " WINDOW " ", " (operands vs)
        ++ clause " ORDER BY " ", " (operands os) ++ countClause " LIMIT " limit
        ++ countClause " OFFSET " offset) := by
      refine .append (.append (.append (.append (.append ?_ ?_) ?_) ?_) ?_) ?_
      · exact beginsClause_clause (by simp [laterClauses]) _ _
      · exact beginsClause_optional (by simp [laterClauses]) _
      · exact beginsClause_clause (by simp [laterClauses]) _ _
      · exact beginsClause_clause (by simp [laterClauses]) _ _
      · exact beginsClause_countClause (by simp [laterClauses]) _
      · exact beginsClause_countClause (by simp [laterClauses]) _
    refine ⟨_, ?_, ?_, hbegins.inline⟩
    · simp [toSql, upToWhere, whereList, chained, fragment, inPosition, clause, optional,
        countClause, operands, Fragment.inline, String.append_assoc]
    · simp [toSql, upToWhere, withoutWhere, fragment, inPosition, clause, optional,
        countClause, operands, Fragment.inline, String.append_assoc]
  | update t as ws' =>
    obtain rfl : ws' = w :: ws := hws
    refine ⟨"", ?_, (String.append_empty).symm, .inl rfl⟩
    simp [toSql, upToWhere, whereList, withWheres, mutationWheres, chained, fragment, inPosition,
      clause, operands, Fragment.inline, String.append_assoc]
  | delete t ws' =>
    obtain rfl : ws' = w :: ws := hws
    refine ⟨"", ?_, (String.append_empty).symm, .inl rfl⟩
    simp [toSql, upToWhere, whereList, withWheres, mutationWheres, chained, fragment, inPosition,
      clause, operands, Fragment.inline, String.append_assoc]
  | _ => cases hws

/-! ### Reading conditions back -/

theorem Predicate.imp {fragments' : String → Prop} (h : p.Predicate fragments)
    (himp : ∀ s, fragments s → fragments' s) : p.Predicate fragments' := by
  induction h with
  | param n => exact .param n
  | raw h => exact .raw (himp _ h)
  | and hne _ ih => exact .and hne ih
  | or _ _ ihl ihr => exact .or ihl ihr
  | not _ ih => exact .not ih
  | group _ ih => exact .group ih

/-- SQL reads off a condition without texts what the condition says. -/
theorem Predicate.means (h : p.Predicate fun _ => False) :
    Sql.Means (Sql.tokens p.toSql) fun v => p.truth (paramTruth v) := by
  obtain ⟨ts, f, hp⟩ := (h.imp fun _ hs => hs.elim).exists_isReadAs
  have htokens : Sql.tokens p.toSql = ts := by
    rw [toSql, h.fragment_position]
    exact hp.spells.lex_eq
  rw [htokens]
  exact hp.reads.means (hp.truth h)

/-- **SQL reads off conditions what they say.** A condition built of connectives and parameters is
true as the grammar reads its text exactly if it is true as it stands, and so are the conditions of
a statement, all of them together, as the grammar reads the text behind `WHERE`. -/
theorem predicates_read_back :
    (∀ p : Plan, p.Predicate (fun _ => False) →
      Sql.Means (Sql.tokens p.toSql) fun v => p.truth (paramTruth v)) ∧
    ∀ p : Plan, p.whereList ≠ [] → (∀ w ∈ p.whereList, w.Predicate fun _ => False) →
      (∃ text, p.WhereText text) ∧
      ∀ text, p.WhereText text →
        Sql.Means (Sql.tokens text) fun v => p.whereList.all (·.truth (paramTruth v)) := by
  refine ⟨fun p hp => hp.means, fun p hne hws => ?_⟩
  have htext := whereText_of_ne_nil hne
  refine ⟨⟨_, htext⟩, fun text ht => ?_⟩
  -- The list is written as the conjunction of its members.
  have hand := (Predicate.and hne hws).means
  have hchain : (and p.whereList).fragment .operand = chained p.whereList := rfl
  rw [toSql, (Predicate.and hne hws).fragment_position, hchain, htext.unique ht] at hand
  simpa only [truth_and] using hand

/-- Orders that are deleted by two conditions. -/
def ordersDeleted : Plan := delete (table "orders") [or (param 1) (param 2), group (param 3)]

theorem predicates_read_back_delete :
    Sql.Means (Sql.tokens (and [param 1, or (param 2) (not (param 3))]).toSql)
        (fun v => v (.param 1) && (v (.param 2) || !v (.param 3))) ∧
      ∀ text, ordersDeleted.WhereText text →
        Sql.Means (Sql.tokens text) fun v => (v (.param 1) || v (.param 2)) && v (.param 3) := by
  have hor : Predicate (fun _ => False) (or (param 2) (not (param 3))) :=
    .or (.param 2) (.not (.param 3))
  have hand : Predicate (fun _ => False) (and [param 1, or (param 2) (not (param 3))]) :=
    .and (by simp) (by simpa using ⟨.param 1, hor⟩)
  have hwheres : ∀ w ∈ ordersDeleted.whereList, w.Predicate fun _ => False := by
    simpa [ordersDeleted, whereList, mutationWheres] using
      ⟨Predicate.or (.param 1) (.param 2), Predicate.group (.param 3)⟩
  have hread := predicates_read_back.1 _ hand
  have htext := (predicates_read_back.2 ordersDeleted (List.cons_ne_nil _ _) hwheres).2
  refine ⟨?_, fun text ht => ?_⟩
  · simpa [truth, truth.truthAll, paramTruth] using hread
  · simpa [ordersDeleted, whereList, mutationWheres, truth, paramTruth] using htext text ht

end Plan
end Tenancy
