import Tenancy.Proofs.Plan.Parts
import Tenancy.Proofs.Sql.Tokens

namespace Tenancy

/-!
# Enclosure — a `UNION` inside an operand stands in parentheses

* `Sql.Inert` — tokens with balanced parentheses and no `UNION` outside of them;
* `Sql.Written`, `Sql.Follows` — fragments that are inert whatever text stands behind them, and
  fragments that may stand behind others;
* `Plan.Enclosed` — what is asked of the texts that a plan takes as they are;
* `written_fragment` — with such texts, the SQL of an operand is inert.
-/

namespace Sql

/-! ### Inert tokens -/

/-- Tokens with balanced parentheses. Outside of all parentheses there is no `UNION`, unless the
tokens are `inside` of some. -/
inductive Inert : Bool → List Token → Prop
  /-- No tokens. -/
  | nil {inside : Bool} : Inert inside []
  /-- A token that is neither a parenthesis nor, outside of all of them, `UNION`. -/
  | single {inside : Bool} {t : Token} (hopen : t ≠ .sign '(') (hclose : t ≠ .sign ')')
    (hunion : inside = true ∨ t ≠ .keyword "UNION") : Inert inside [t]
  /-- Several of them. -/
  | append {inside : Bool} {ts us : List Token} (hts : Inert inside ts) (hus : Inert inside us) :
    Inert inside (ts ++ us)
  /-- Tokens in parentheses. -/
  | parentheses {inside : Bool} {ts : List Token} (h : Inert true ts) :
    Inert inside (.sign '(' :: (ts ++ [.sign ')']))

theorem Inert.inside {i : Bool} {ts : List Token} (h : Inert i ts) : Inert true ts := by
  induction h with
  | nil => exact .nil
  | single hopen hclose _ => exact .single hopen hclose (.inl rfl)
  | append _ _ ihts ihus => exact .append ihts ihus
  | parentheses h _ => exact .parentheses h

/-- Is the token neither a parenthesis nor `UNION`? -/
def Token.isInert (t : Token) : Bool :=
  t ≠ .sign '(' && t ≠ .sign ')' && t ≠ .keyword "UNION"

theorem inert_of_all {i : Bool} {ts : List Token} (h : ts.all Token.isInert = true) :
    Inert i ts := by
  induction ts with
  | nil => exact .nil
  | cons t ts ih =>
    rw [List.all_cons, Bool.and_eq_true] at h
    have ht := h.1
    simp only [Token.isInert, Bool.and_eq_true, decide_eq_true_eq] at ht
    exact .append (.single ht.1.1 ht.1.2 (.inr ht.2)) (ih h.2)

/-! ### Inert fragments -/

/-- Whatever text that breaks stands behind the fragment, its tokens are inert. -/
def Written (inside : Bool) (f : Fragment) : Prop :=
  ∃ ts, Spells f.letters ts ∧ Inert inside ts

/-- The fragment may stand behind another one, and its tokens are inert. -/
structure Follows (inside : Bool) (f : Fragment) : Prop where
  breaks : Breaks f.letters
  written : Written inside f

variable {i : Bool} {f g : Fragment} {s : String}

theorem Written.inside (h : Written i f) : Written true f := by
  obtain ⟨ts, hspells, hinert⟩ := h
  exact ⟨ts, hspells, hinert.inside⟩

theorem written_nil : Written i [] := ⟨[], fun _ _ => rfl, .nil⟩

theorem follows_nil : Follows i [] := ⟨breaks_nil, written_nil⟩

theorem Written.append (hf : Written i f) (hg : Follows i g) : Written i (f ++ g) := by
  obtain ⟨ts, hts, htsInert⟩ := hf
  obtain ⟨us, hus, husInert⟩ := hg.written
  refine ⟨ts ++ us, ?_, .append htsInert husInert⟩
  rw [Fragment.letters_append]
  exact hts.append hus hg.breaks

theorem written_text {ts : List Token} (h : Spells s.toList ts)
    (hinert : ts.all Token.isInert = true) : Written i [.text s] := by
  refine ⟨ts, ?_, inert_of_all hinert⟩
  rwa [Fragment.letters_text_cons, Fragment.letters_nil, List.append_nil]

theorem written_identifier (name : String) : Written i [.text (identifier name)] :=
  written_text (spells_identifier name) rfl

/-- An inert text of words and signs that ends in a blank or in a sign. -/
structure Phrase (inside : Bool) (s : String) : Prop where
  isDone : (pending .blank s.toList).isDone = true
  inert : Inert inside (tokens s)

/-- Such a text that no token in front of it can go on with. -/
structure Connective (inside : Bool) (s : String) : Prop extends Phrase inside s where
  isBreak : s.toList.head?.any isBreak = true

theorem phrase_of_all (hdone : (pending .blank s.toList).isDone = true)
    (hinert : (tokens s).all Token.isInert = true) : Phrase i s :=
  ⟨hdone, inert_of_all hinert⟩

theorem connective_of_all (hdone : (pending .blank s.toList).isDone = true)
    (hinert : (tokens s).all Token.isInert = true)
    (hbreak : s.toList.head?.any Sql.isBreak = true) : Connective i s :=
  ⟨phrase_of_all hdone hinert, hbreak⟩

theorem breaks_of_head? (h : s.toList.head?.any isBreak = true) (cs : List Char) :
    Breaks (s.toList ++ cs) := by
  cases hs : s.toList with
  | nil => simp [hs] at h
  | cons c ds =>
    rw [hs, List.head?_cons, Option.any_some] at h
    exact breaks_cons h _

theorem Written.phrase_cons (hf : Written i f) (hs : Phrase i s) : Written i (.text s :: f) := by
  obtain ⟨ts, hspells, hinert⟩ := hf
  refine ⟨tokens s ++ ts, ?_, .append hs.inert hinert⟩
  rw [Fragment.letters_text_cons]
  exact (leads_of_isDone hs.isDone).append hspells

theorem Written.follows_cons (hf : Written i f) (hs : Connective i s) :
    Follows i (.text s :: f) := by
  refine ⟨?_, hf.phrase_cons hs.toPhrase⟩
  rw [Fragment.letters_text_cons]
  exact breaks_of_head? hs.isBreak _

/-- Words at the end of a fragment. -/
theorem follows_words (hopen : (pending .blank s.toList).isOpen = false)
    (hinert : (tokens s).all Token.isInert = true)
    (hbreak : s.toList.head?.any Sql.isBreak = true) : Follows i [.text s] := by
  have hletters : Fragment.letters [.text s] = s.toList := by simp
  refine ⟨?_, tokens s, ?_, inert_of_all hinert⟩
  · rw [Fragment.letters_text_cons]
    exact breaks_of_head? hbreak _
  · rw [hletters]
    exact spells_of_isOpen_eq_false hopen

theorem written_joined (hs : Connective i s) {fs : List Fragment} (hfs : ∀ f ∈ fs, Written i f) :
    Written i (Fragment.joined s fs) := by
  induction fs with
  | nil => exact written_nil
  | cons f fs ih =>
    obtain ⟨hf, hfs⟩ := List.forall_mem_cons.1 hfs
    cases fs with
    | nil => exact hf
    | cons g fs => exact hf.append ((ih hfs).follows_cons hs)

end Sql

open Sql (Fragment Written Follows Phrase Connective)

namespace Plan

/-! ### The SQL of a plan -/

variable {i : Bool} {f : Fragment}

theorem follows_parenthesized (h : Written true f) : Follows i (parenthesized f) := by
  obtain ⟨ts, hspells, hinert⟩ := h
  refine ⟨?_, _, spells_parenthesized hspells, .parentheses hinert⟩
  rw [parenthesized, List.cons_append, Fragment.letters_text_cons]
  exact Sql.breaks_cons rfl _

theorem written_inPosition (pos : Position) (h : Written false f) :
    Written false (inPosition pos f) := by
  cases pos with
  | statement => exact h
  | operand => exact (follows_parenthesized h.inside).written

theorem written_operands {ps : List Plan} (h : ∀ p ∈ ps, Written i (p.fragment .operand)) :
    ∀ f ∈ operands ps, Written i f := by
  rw [operands_eq_map, List.forall_mem_map]
  exact h

theorem written_joined_operands {separator : String} (hs : Connective i separator) {ps : List Plan}
    (h : ∀ p ∈ ps, Written i (p.fragment .operand)) :
    Written i (Fragment.joined separator (operands ps)) :=
  Sql.written_joined hs (written_operands h)

theorem follows_clause {keyword separator : String} (hk : Connective i keyword)
    (hs : Connective i separator) {ps : List Plan}
    (h : ∀ p ∈ ps, Written i (p.fragment .operand)) :
    Follows i (clause keyword separator (operands ps)) := by
  have hjoined := written_joined_operands hs h
  cases hops : operands ps with
  | nil => exact Sql.follows_nil
  | cons f fs =>
    rw [hops] at hjoined
    exact hjoined.follows_cons hk

theorem follows_optional {keyword : String} (hk : Connective i keyword) {p : Option Plan}
    (h : ∀ c ∈ p.toList, Written i (c.fragment .operand)) : Follows i (optional keyword p) := by
  cases p with
  | none => exact Sql.follows_nil
  | some c => exact (h c (List.mem_singleton_self c)).follows_cons hk

theorem follows_countClause {keyword : String} (hk : Connective i keyword) (count : Option Nat) :
    Follows i (countClause keyword count) := by
  cases count with
  | none => exact Sql.follows_nil
  | some n =>
    have hnumber : Written i [.text (toString n)] :=
      Sql.written_text (Sql.spells_number (.ofNat n)) rfl
    obtain ⟨hbreaks, ts, hspells, hinert⟩ := hnumber.follows_cons hk
    have hletters : Fragment.letters (countClause keyword (some n))
        = Fragment.letters [.text keyword, .text (toString n)] := by simp [countClause]
    exact ⟨by rwa [hletters], ts, by rwa [hletters], hinert⟩

theorem connective_comma : Connective i ", " := Sql.connective_of_all rfl rfl rfl

theorem connective_and : Connective i " AND " := Sql.connective_of_all rfl rfl rfl

theorem connective_equals : Connective i " = " := Sql.connective_of_all rfl rfl rfl

theorem written_settings {as : List (String × Plan)}
    (h : ∀ a ∈ as, Written i (a.2.fragment .operand)) : ∀ f ∈ settings as, Written i f := by
  induction as with
  | nil => exact fun _ h => absurd h List.not_mem_nil
  | cons a as ih =>
    obtain ⟨ha, has⟩ := List.forall_mem_cons.1 h
    rw [settings, List.forall_mem_cons]
    have hname := Sql.written_identifier (i := i) a.1
    exact ⟨hname.append (ha.follows_cons connective_equals), ih has⟩

theorem connective_compare (op : Comparison) : Connective i (" " ++ op.symbol ++ " ") := by
  cases op <;> exact Sql.connective_of_all rfl rfl rfl

theorem connective_join (kind : JoinKind) : Connective i (" " ++ kind.keyword ++ " ") := by
  cases kind <;> exact Sql.connective_of_all rfl rfl rfl

/-- Is the node a `UNION`? -/
def isUnion : Plan → Bool
  | union .. => true
  | _ => false

/-- A text or a name of a function that the node takes as it is has balanced parentheses, no quote
that is open at its end and no `UNION` outside of parentheses. -/
def Enclosed : Plan → Prop
  | raw s => Written false [.text s]
  | call f _ => Written false [.text f]
  | _ => True

theorem connective_union (all : Bool) :
    Connective true (if all then " UNION ALL " else " UNION ") := by
  have hunion : Sql.Inert true [.keyword "UNION"] := .single nofun nofun (.inl rfl)
  have hall : Sql.Inert true [.keyword "ALL"] := .single nofun nofun (.inl rfl)
  have hboth : Sql.Inert true [.keyword "UNION", .keyword "ALL"] := .append hunion hall
  cases all with
  | false => exact ⟨⟨rfl, hunion⟩, rfl⟩
  | true => exact ⟨⟨rfl, hboth⟩, rfl⟩

theorem follows_where {ws : List Plan} (h : ∀ w ∈ ws, Written i (w.fragment .operand)) :
    Follows i (clause " WHERE " " AND " (operands ws)) :=
  follows_clause (Sql.connective_of_all rfl rfl rfl) connective_and h

theorem written_select {q : Query Plan}
    (h : ∀ c ∈ (select q).parts, Written false (c.2.fragment .operand)) (pos : Position) :
    Written false ((select q).fragment pos) := by
  obtain ⟨ps, source, ws, gs, vs, having, os, limit, offset⟩ := q
  simp only [parts, List.forall_mem_append, List.forall_mem_map] at h
  obtain ⟨⟨⟨⟨⟨⟨hsource, hps⟩, hws⟩, hgs⟩, hvs⟩, hhaving⟩, hos⟩ := h
  have hfrom : Follows false (optional " FROM " source) :=
    follows_optional (Sql.connective_of_all rfl rfl rfl) hsource
  have hwhere := follows_where hws
  have hgroup : Follows false (clause " GROUP BY " ", " (operands gs)) :=
    follows_clause (Sql.connective_of_all rfl rfl rfl) connective_comma hgs
  have hhaving : Follows false (optional " HAVING " having) :=
    follows_optional (Sql.connective_of_all rfl rfl rfl) hhaving
  have hwindow : Follows false (clause " WINDOW " ", " (operands vs)) :=
    follows_clause (Sql.connective_of_all rfl rfl rfl) connective_comma hvs
  have horder : Follows false (clause " ORDER BY " ", " (operands os)) :=
    follows_clause (Sql.connective_of_all rfl rfl rfl) connective_comma hos
  have hlimit : Follows false (countClause " LIMIT " limit) :=
    follows_countClause (Sql.connective_of_all rfl rfl rfl) limit
  have hoffset : Follows false (countClause " OFFSET " offset) :=
    follows_countClause (Sql.connective_of_all rfl rfl rfl) offset
  have hclauses : ∀ {f : Fragment}, Written false f → Written false
      (f ++ optional " FROM " source ++ clause " WHERE " " AND " (operands ws)
        ++ clause " GROUP BY " ", " (operands gs) ++ optional " HAVING " having
        ++ clause " WINDOW " ", " (operands vs) ++ clause " ORDER BY " ", " (operands os)
        ++ countClause " LIMIT " limit ++ countClause " OFFSET " offset) := fun hf =>
    (((((((hf.append hfrom).append hwhere).append hgroup).append hhaving).append hwindow).append
      horder).append hlimit).append hoffset
  cases ps with
  | nil =>
    have hstar : Written false [.text "*"] := (Sql.follows_words rfl rfl rfl).written
    rw [fragment]
    exact written_inPosition pos (hclauses (hstar.phrase_cons (Sql.phrase_of_all rfl rfl)))
  | cons p ps =>
    have hlist := written_joined_operands connective_comma hps
    rw [fragment]
    · exact written_inPosition pos (hclauses (hlist.phrase_cons (Sql.phrase_of_all rfl rfl)))
    · exact List.cons_ne_nil p ps

theorem written_call {s : String} {ps : List Plan} (hs : Written false [.text s])
    (h : ∀ p ∈ ps, Written false (p.fragment .operand)) (pos : Position) :
    Written false ((call s ps).fragment pos) := by
  have hlist := (written_joined_operands connective_comma h).inside
  rw [fragment]
  exact hs.append (follows_parenthesized hlist)

theorem written_equal {l r : Plan} (hl : Written false (l.fragment .operand))
    (hr : Written false (r.fragment .operand)) (pos : Position) :
    Written false ((equal l r).fragment pos) := by
  rw [fragment]
  refine hl.append ?_
  split
  · exact Sql.follows_words rfl rfl rfl
  · exact hr.follows_cons connective_equals

theorem written_aliased {p : Plan} (h : Written false (p.fragment .operand)) (a : String)
    (pos : Position) : Written false ((aliased p a).fragment pos) := by
  have has : Follows false [.text " AS ", .text (Sql.identifier a)] :=
    (Sql.written_identifier a).follows_cons (Sql.connective_of_all rfl rfl rfl)
  rw [fragment]
  refine .append ?_ has
  split
  · exact h
  · exact (follows_parenthesized h.inside).written

theorem written_join (kind : JoinKind) {l r : Plan} {on : Option Plan}
    (hl : Written false (l.fragment .operand)) (hr : Written false (r.fragment .operand))
    (hon : ∀ p ∈ on, Written false (p.fragment .operand)) (pos : Position) :
    Written false ((join kind l r on).fragment pos) := by
  have hright : Written false
      (if r.isJoin then parenthesized (r.fragment .operand) else r.fragment .operand) := by
    split
    · exact (follows_parenthesized hr.inside).written
    · exact hr
  have hsides := hl.append (hright.follows_cons (connective_join kind))
  cases on with
  | none =>
    have hnone : Follows false (if kind = .cross then [] else [.text " ON TRUE"]) := by
      split
      · exact Sql.follows_nil
      · exact Sql.follows_words rfl rfl rfl
    rw [fragment]
    exact hsides.append hnone
  | some p =>
    rw [fragment]
    exact hsides.append ((hon p rfl).follows_cons (Sql.connective_of_all rfl rfl rfl))

theorem written_value (v : Literal) : Written i [.value v] := by
  refine ⟨[.ofLiteral v], ?_, Sql.inert_of_all ?_⟩
  · rw [Fragment.letters_value_cons, Fragment.letters_nil, List.append_nil]
    exact Sql.spells_literal v
  · rcases v with _ | b | n | s
    · rfl
    · cases b <;> rfl
    · rfl
    · rfl

/-- **A `UNION` stands in parentheses, unless it is the statement itself.** -/
theorem written_fragment {p : Plan} (h : ∀ q ∈ p.nodes, q.Enclosed) :
    Written false (p.fragment .operand) ∧ Written p.isUnion (p.fragment .statement) := by
  induction p using inductionOnParts with
  | step p ih =>
    -- A part is enclosed as the whole plan is, and stands as an operand or in parentheses.
    obtain ⟨hp, hnodes⟩ := forall_mem_nodes.1 h
    have hparts : ∀ c ∈ p.parts,
        Written false (c.2.fragment .operand) ∧ Written c.2.isUnion (c.2.fragment .statement) :=
      fun c hc => ih c hc (hnodes c hc)
    have hoperands : ∀ c ∈ p.parts, Written false (c.2.fragment .operand) :=
      fun c hc => (hparts c hc).1
    -- All but a `UNION` are written in one way, wherever they stand.
    have hboth : (∀ pos, Written false (p.fragment pos)) →
        Written false (p.fragment .operand) ∧ Written p.isUnion (p.fragment .statement) := by
      refine fun hall => ⟨hall .operand, ?_⟩
      cases p.isUnion with
      | false => exact hall .statement
      | true => exact (hall .statement).inside
    cases p with
    | union all l r =>
      simp only [parts, List.forall_mem_cons] at hparts
      obtain ⟨⟨-, hl⟩, ⟨-, hr⟩, -⟩ := hparts
      have hsides := hl.inside.append (hr.inside.follows_cons (connective_union all))
      exact ⟨(follows_parenthesized hsides).written, hsides⟩
    | select q => exact hboth (written_select hoperands)
    | table t => exact hboth fun _ => Sql.written_identifier t
    | column c => exact hboth fun _ => Sql.written_text (spells_column c) rfl
    | literal v => exact hboth fun _ => written_value v
    | param n => exact hboth fun _ => Sql.written_text (Sql.spells_param n) rfl
    | raw s => exact hboth fun _ => hp
    | aliased p a =>
      simp only [parts, List.forall_mem_singleton] at hoperands
      exact hboth (written_aliased hoperands a)
    | call s ps => exact hboth (written_call hp (by simpa [parts] using hoperands))
    | tuple ps =>
      have hlist : Written true (Fragment.joined ", " (operands ps)) :=
        (written_joined_operands connective_comma (by simpa [parts] using hoperands)).inside
      exact hboth fun _ => (follows_parenthesized hlist).written
    | and ps =>
      exact hboth fun _ => written_joined_operands connective_and (by simpa [parts] using hoperands)
    | equal l r =>
      simp only [parts, List.forall_mem_cons] at hoperands
      exact hboth (written_equal hoperands.1 hoperands.2.1)
    | compare op l r =>
      simp only [parts, List.forall_mem_cons] at hoperands
      exact hboth fun _ => hoperands.1.append (hoperands.2.1.follows_cons (connective_compare op))
    | or l r =>
      simp only [parts, List.forall_mem_cons] at hoperands
      have hor : Connective false " OR " := Sql.connective_of_all rfl rfl rfl
      have hsides := hoperands.1.append (hoperands.2.1.follows_cons hor)
      exact hboth fun _ => (follows_parenthesized hsides.inside).written
    | not p =>
      simp only [parts, List.forall_mem_singleton] at hoperands
      have hoperand := (follows_parenthesized (i := false) hoperands.inside).written
      exact hboth fun _ => hoperand.phrase_cons (Sql.phrase_of_all rfl rfl)
    | group p =>
      simp only [parts, List.forall_mem_singleton] at hparts
      exact hboth fun _ => (follows_parenthesized hparts.2.inside).written
    | existence p =>
      simp only [parts, List.forall_mem_singleton] at hoperands
      exact hboth fun _ => hoperands.phrase_cons (Sql.phrase_of_all rfl rfl)
    | join kind l r on =>
      simp only [parts, List.forall_mem_cons, List.forall_mem_map] at hoperands
      obtain ⟨hl, hr, hon⟩ := hoperands
      exact hboth (written_join kind hl hr (by simpa using hon))
    | update target assignments ws =>
      simp only [parts, List.cons_append, List.forall_mem_cons, List.forall_mem_append,
        List.forall_mem_map] at hoperands
      obtain ⟨htarget, hassignments, hws⟩ := hoperands
      have hset : Connective false " SET " := Sql.connective_of_all rfl rfl rfl
      have hsettings := Sql.written_joined connective_comma (written_settings hassignments)
      have hupdate : Phrase false "UPDATE " := Sql.phrase_of_all rfl rfl
      have hfront := (htarget.phrase_cons hupdate).append (hsettings.follows_cons hset)
      exact hboth fun pos => written_inPosition pos (hfront.append (follows_where hws))
    | delete target ws =>
      simp only [parts, List.forall_mem_cons, List.forall_mem_map] at hoperands
      obtain ⟨htarget, hws⟩ := hoperands
      have hdelete : Phrase false "DELETE FROM " := Sql.phrase_of_all rfl rfl
      have hfront := htarget.phrase_cons hdelete
      exact hboth fun pos => written_inPosition pos (hfront.append (follows_where hws))
    | tenantKey k v =>
      have hkey : Written false [.text k.sql] := Sql.written_text (spells_column k) rfl
      exact hboth fun _ => hkey.append ((written_value v).follows_cons connective_equals)
    | keyLink k o =>
      have hkey : Written false [.text k.sql] := Sql.written_text (spells_column k) rfl
      have hother : Written false [.text o.sql] := Sql.written_text (spells_column o) rfl
      exact hboth fun _ => hkey.append (hother.follows_cons connective_equals)

end Plan
end Tenancy
