import Tenancy.Proofs.Restrict.Placement
import Tenancy.Proofs.Rows.Basic
import Tenancy.Proofs.Sql.Predicates

namespace Tenancy

/-!
# Filters — whether the tenant conditions of a `WHERE` govern all of it

* `Sql.Atom.ofKey`, `Sql.Formula.Implies`, `Sql.Formula.Satisfiable` — what a tenant condition is
  read as, and what a condition requires;
* `chained_addWheres` — the conditions that are put into a `WHERE` list stand at the front of its
  text;
* `exists_reads_addWheres` — what SQL reads off that text: its first alternative takes in the tenant
  conditions, and the later ones have nothing to do with them;
* `where_implies_keys_iff` — so the text requires the tenant conditions exactly if no later
  alternative can be true.

An alternative can only come from a text that is taken as it is. Such a text stands in the chain
without parentheses, and an `OR` of its own ends the part of the chain that the tenant conditions
belong to.
-/

namespace Sql

/-- What the condition on a partition key is read as. -/
def Atom.ofKey (key : Column) (value : Literal) : Atom :=
  .equality key.relation.qualifier key.name (.ofLiteral value)

namespace Formula

/-- Where the condition is true, `a` is. -/
def Implies (f : Formula) (a : Atom) : Prop := ∀ v, f.eval v = true → v a = true

/-- The condition is true somewhere. -/
def Satisfiable (f : Formula) : Prop := ∃ v, f.eval v = true

/-- A condition whose first alternative requires an equality, and whose other ones are about
parameters, requires the equality exactly if the other ones cannot be true. -/
theorem implies_iff {f first : Formula} {rest : List Formula}
    (halternatives : f.alternatives = first :: rest)
    (hparams : ∀ other ∈ rest, ∀ a ∈ other.atoms, a.isParam = true) {a : Atom}
    (ha : a.isParam = false) (hfirst : first.Implies a) :
    f.Implies a ↔ ∀ other ∈ rest, ¬ other.Satisfiable := by
  constructor
  · rintro himplies other hother ⟨v, hv⟩
    -- The same parameters, and no equality.
    have hsame : other.eval (fun b => b.isParam && v b) = true := by
      rw [← hv]
      exact eval_congr fun b hb => by rw [hparams other hother b hb, Bool.true_and]
    have htrue : f.eval (fun b => b.isParam && v b) = true := by
      rw [eval_iff_alternatives, halternatives]
      exact ⟨other, List.mem_cons_of_mem _ hother, hsame⟩
    have hequality := himplies _ htrue
    rw [ha] at hequality
    cases hequality
  · intro hrest v hv
    rw [eval_iff_alternatives, halternatives] at hv
    obtain ⟨other, hother, htrue⟩ := hv
    obtain rfl | hother := List.mem_cons.1 hother
    · exact hfirst v htrue
    · exact absurd ⟨v, htrue⟩ (hrest other hother)

end Formula

end Sql

open Sql (Fragment Token Formula Reads Spells Leads leads_of_isDone)

namespace Plan

/-! ### The text of a `WHERE` list that conditions are put into -/

theorem chained_cons_cons (p q : Plan) (ps : List Plan) :
    chained (p :: q :: ps) = p.fragment .operand ++ .text " AND " :: chained (q :: ps) := rfl

theorem fragment_and (ps : List Plan) : (and ps).fragment .operand = chained ps := rfl

theorem fragment_eq_chained (p : Plan) : p.fragment .operand = chained p.topConjuncts := by
  cases p <;> rfl

theorem chained_append {ps qs : List Plan} (hp : ps ≠ []) (hq : qs ≠ []) :
    chained (ps ++ qs) = chained ps ++ .text " AND " :: chained qs := by
  obtain ⟨q, qs, rfl⟩ := List.exists_cons_of_ne_nil hq
  induction ps with
  | nil => exact absurd rfl hp
  | cons p ps ih =>
    cases ps with
    | nil => rfl
    | cons p' ps =>
      rw [List.cons_append, List.cons_append, chained_cons_cons, ← List.cons_append,
        ih (List.cons_ne_nil p' ps), chained_cons_cons, List.append_assoc]
      rfl

/-- The conditions stand at the front, with an `AND` behind them. -/
theorem chained_addWheres {cs : List Plan} {w : Plan} (ws : List Plan) (hcs : cs ≠ [])
    (hw : w.topConjuncts ≠ []) :
    chained (addWheres cs (w :: ws)) = chained cs ++ .text " AND " :: chained (w :: ws) := by
  have hfront : (and (cs ++ w.topConjuncts)).fragment .operand
      = chained cs ++ .text " AND " :: w.fragment .operand := by
    rw [fragment_and, chained_append hcs hw, ← fragment_eq_chained]
  obtain ⟨c, cs, rfl⟩ := List.exists_cons_of_ne_nil hcs
  rw [addWheres_cons_cons]
  cases ws with
  | nil => exact hfront
  | cons v vs =>
    rw [chained_cons_cons, hfront, chained_cons_cons, List.append_assoc]
    rfl

/-- The conditions stand alone where there are no others. -/
theorem chained_addWheres_nil (cs : List Plan) : chained (addWheres cs []) = chained cs := by
  cases cs with
  | nil => rfl
  | cons c cs => cases cs <;> rfl

theorem Predicate.topConjuncts_ne_nil {fragments : String → Prop} {p : Plan}
    (h : p.Predicate fragments) : p.topConjuncts ≠ [] := by
  cases h with
  | and hne _ => exact hne
  | _ => simp [topConjuncts]

theorem Predicate.simple {fragments : String → Prop} {p : Plan} (h : p.Predicate fragments) :
    p.Simple := by
  unfold Simple
  induction h with
  | param n => exact forall_mem_nodes.2 ⟨rfl, by simp [parts]⟩
  | raw _ => exact forall_mem_nodes.2 ⟨rfl, by simp [parts]⟩
  | and _ _ ih => exact forall_mem_nodes.2 ⟨rfl, by simpa [parts] using ih⟩
  | or _ _ ihl ihr => exact forall_mem_nodes.2 ⟨rfl, by simpa [parts] using ⟨ihl, ihr⟩⟩
  | not _ ih => exact forall_mem_nodes.2 ⟨rfl, by simpa [parts] using ih⟩
  | group _ ih => exact forall_mem_nodes.2 ⟨rfl, by simpa [parts] using ih⟩

/-! ### What is read -/

theorem spells_with_and {f g : Fragment} {ts us : List Token} (hf : Spells f.letters ts)
    (hg : Spells g.letters us) :
    Spells (Fragment.letters (f ++ .text " AND " :: g)) (ts ++ .keyword "AND" :: us) := by
  have hand : Leads " AND ".toList [.keyword "AND"] := leads_of_isDone rfl
  rw [Fragment.letters_append, Fragment.letters_text_cons]
  exact hf.append (hand.append hg) (Sql.breaks_cons rfl _)

theorem spells_tenantKey (k : Column) (v : Literal) :
    Spells ((tenantKey k v).fragment .operand).letters
      [.name k.relation.qualifier, .sign '.', .name k.name, .sign '=', .ofLiteral v] := by
  have hequals : Leads " = ".toList [.sign '='] := leads_of_isDone rfl
  rw [fragment, Fragment.letters_text_cons, Fragment.letters_text_cons, Fragment.letters_value_cons,
    Fragment.letters_nil, List.append_nil]
  exact (spells_column k).append (hequals.append (Sql.spells_literal v)) (Sql.breaks_cons rfl _)

theorem isValue_ofLiteral (v : Literal) : (Token.ofLiteral v).isValue = true := by
  rcases v with _ | b | n | s
  · rfl
  · cases b <;> rfl
  · rfl
  · rfl

/-- Tenant conditions are read as the conjunction of their equalities. -/
theorem exists_reads_tenantKeys {cs : List Plan} (hne : cs ≠ [])
    (hcs : ∀ c ∈ cs, ∃ k v, c = tenantKey k v) : ∃ ts f,
    Spells (chained cs).letters ts ∧ Reads .conjunction ts f ∧ f.alternatives = [f] ∧
    ∀ k v, tenantKey k v ∈ cs → f.Implies (.ofKey k v) := by
  induction cs with
  | nil => exact absurd rfl hne
  | cons c cs ih =>
    obtain ⟨⟨k, v, rfl⟩, hrest⟩ := List.forall_mem_cons.1 hcs
    have hspells := spells_tenantKey k v
    have hread : Reads .conjunction _ (.atom (.ofKey k v)) :=
      .negation (.operand (.equality _ _ (isValue_ofLiteral v)))
    cases cs with
    | nil =>
      refine ⟨_, _, hspells, hread, rfl, fun k' v' hkey u hu => ?_⟩
      obtain ⟨rfl, rfl⟩ := tenantKey.inj (List.mem_singleton.1 hkey)
      exact hu
    | cons d cs =>
      obtain ⟨us, g, hus, hg, -, hkeys⟩ := ih (List.cons_ne_nil d cs) hrest
      obtain ⟨h, hh, -, hone, heval⟩ := Sql.exists_reads_and hread hg
      refine ⟨_, h, ?_, hh, hone, fun k' v' hkey u hu => ?_⟩
      · rw [chained_cons_cons]
        exact spells_with_and hspells hus
      · rw [heval, Bool.and_eq_true] at hu
        obtain hkey | hkey := List.mem_cons.1 hkey
        · obtain ⟨rfl, rfl⟩ := tenantKey.inj hkey
          exact hu.1
        · exact hkeys k' v' hkey u hu.2

variable {cs ws : List Plan}

/-- What SQL reads off the text of a `WHERE` list that tenant conditions have been put into. -/
theorem exists_reads_addWheres (hne : cs ≠ []) (hcs : ∀ c ∈ cs, ∃ k v, c = tenantKey k v)
    (hws : ∀ w ∈ ws, w.Predicate Sql.Boolean) : ∃ f first rest,
    Reads .disjunction (Sql.tokens (chained (addWheres cs ws)).inline) f ∧
    f.alternatives = first :: rest ∧
    (∀ k v, tenantKey k v ∈ cs → first.Implies (.ofKey k v)) ∧
    (∀ other ∈ rest, ∀ a ∈ other.atoms, a.isParam = true) ∧
    ((∀ w ∈ ws, w.Unbroken) → rest = []) := by
  obtain ⟨ts, f, hts, hf, hone, hkeys⟩ := exists_reads_tenantKeys hne hcs
  cases ws with
  | nil =>
    have htokens : Sql.tokens (chained (addWheres cs [])).inline = ts := by
      rw [chained_addWheres_nil]
      exact hts.lex_eq
    rw [htokens]
    exact ⟨f, f, [], .conjunction hf, hone, hkeys, nofun, fun _ => rfl⟩
  | cons w ws =>
    have hand : Predicate Sql.Boolean (and (w :: ws)) := .and (List.cons_ne_nil w ws) hws
    obtain ⟨us, g, hread⟩ := hand.exists_isReadAs
    have hus : Spells (chained (w :: ws)).letters us := hread.spells
    have hspells : Spells (chained (addWheres cs (w :: ws))).letters
        (ts ++ .keyword "AND" :: us) := by
      rw [chained_addWheres ws hne (hws w List.mem_cons_self).topConjuncts_ne_nil]
      exact spells_with_and hts hus
    have htokens : Sql.tokens (chained (addWheres cs (w :: ws))).inline
        = ts ++ .keyword "AND" :: us := hspells.lex_eq
    rw [htokens]
    obtain ⟨h, first, rest, hh, -, halternatives, hfirst, hrest⟩ :=
      Sql.exists_reads_and_or hf hread.reads
    refine ⟨h, first, rest, hh, halternatives, fun k v hkey u hu => ?_,
      fun other hother a ha => hread.params a (hrest other hother ha), fun hunbroken => ?_⟩
    · exact hkeys k v hkey u (hfirst u hu)
    · -- Without such an `OR` all of it is one alternative.
      obtain ⟨h', hh', -, hone', -⟩ :=
        Sql.exists_reads_and hf (hread.conjunction (unbroken_and.2 hunbroken))
      rw [hh.unique (.conjunction hh'), hone'] at halternatives
      exact (List.cons.inj halternatives).2.symm

/-- Something is read off the text of a `WHERE` list with or without tenant conditions. -/
theorem exists_reads_of_ne_nil (hcs : ∀ c ∈ cs, ∃ k v, c = tenantKey k v)
    (hws : ∀ w ∈ ws, w.Predicate Sql.Boolean) (hne : addWheres cs ws ≠ []) : ∃ f,
    Reads .disjunction (Sql.tokens (chained (addWheres cs ws)).inline) f := by
  cases cs with
  | nil =>
    rw [addWheres_nil] at hne ⊢
    obtain ⟨ts, f, hread⟩ := (Predicate.and hne hws).exists_isReadAs
    have htokens : Sql.tokens (chained ws).inline = ts := hread.spells.lex_eq
    rw [htokens]
    exact ⟨f, hread.reads⟩
  | cons c cs =>
    obtain ⟨f, _, _, hread, _⟩ := exists_reads_addWheres (List.cons_ne_nil c cs) hcs hws
    exact ⟨f, hread⟩

/-- What is read off that text requires the equality of a tenant condition exactly if none of its
later alternatives can be true. -/
theorem implies_ofKey_iff (hcs : ∀ c ∈ cs, ∃ k v, c = tenantKey k v)
    (hws : ∀ w ∈ ws, w.Predicate Sql.Boolean) {f : Formula}
    (hread : Reads .disjunction (Sql.tokens (chained (addWheres cs ws)).inline) f) {k : Column}
    {v : Literal} (hkey : tenantKey k v ∈ cs) :
    (f.Implies (.ofKey k v) ↔ ∀ other ∈ f.alternatives.tail, ¬ other.Satisfiable) ∧
      ((∀ w ∈ ws, w.Unbroken) → f.Implies (.ofKey k v)) := by
  obtain ⟨f', first, rest, hread', halternatives, hfirst, hrest, hone⟩ :=
    exists_reads_addWheres (List.ne_nil_of_mem hkey) hcs hws
  obtain rfl := hread.unique hread'
  have hiff := Formula.implies_iff halternatives hrest (a := .ofKey k v) rfl (hfirst k v hkey)
  rw [halternatives, List.tail_cons]
  refine ⟨hiff, fun hunbroken => hiff.2 ?_⟩
  rw [hone hunbroken]
  exact fun _ h => absurd h List.not_mem_nil

/-! ### Restricted queries -/

theorem exists_eq_tenantKey_of_mem_owedKeys {surveyed known : Partitioning}
    {tenant : Option Tenant} {p : Plan} {n : Nat} {c : Plan}
    (hc : c ∈ owedKeys surveyed known tenant p n) : ∃ k v, c = tenantKey k v :=
  eq_tenantKey_of_mem_keyConditions
    (e := ⟨known, ⟨tenant, false⟩, Scope.outstandingAt (p.scopes surveyed)⟩) hc

/-- **Tenant conditions govern the text of a `WHERE` exactly if no alternative escapes them.** A
query whose conditions are built of connectives, parameters and texts that are conditions on
parameters is restricted to a tenant. What is read off the text behind its `WHERE` requires the
equality of each tenant condition that has been put there exactly if none of its alternatives behind
the first can be true. So it requires all of them where the texts that stand in the chain without
parentheses have no `OR` of their own. -/
theorem where_implies_keys_iff (g : Partitioning) (t : Tenant) (q : Query Plan)
    (hq : ∀ w ∈ q.wheres, w.Predicate Sql.Boolean) : ∃ q' : Query Plan,
    ((select q).restrict g (.ofTenant t)).value = .ok (select q') ∧
    q'.wheres = addWheres (owedKeys g g (some t) (select q) 0) q.wheres ∧
    (q'.wheres ≠ [] → ∃ text f, (select q').WhereText text ∧
      Reads .disjunction (Sql.tokens text) f) ∧
    ∀ text f, (select q').WhereText text → Reads .disjunction (Sql.tokens text) f →
      ∀ k v, tenantKey k v ∈ owedKeys g g (some t) (select q) 0 →
        (f.Implies (.ofKey k v) ↔ ∀ other ∈ f.alternatives.tail, ¬ other.Satisfiable) ∧
        ((∀ w ∈ q.wheres, w.Unbroken) → f.Implies (.ofKey k v)) := by
  obtain ⟨q', hvalue, -, hwheres⟩ := value_impose_select (due g (.ofTenant t) (select q)) 0
    fun w hw => (hq w hw).simple
  have howed : (due g (.ofTenant t) (select q)).keyConditions 0
      = owedKeys g g (some t) (select q) 0 := rfl
  rw [howed] at hwheres
  have hkeys : ∀ c ∈ owedKeys g g (some t) (select q) 0, ∃ k v, c = tenantKey k v :=
    fun c hc => exists_eq_tenantKey_of_mem_owedKeys hc
  refine ⟨q', ?_, hwheres, fun hne => ?_, fun text f htext hread k v hkey => ?_⟩
  · rw [value_restrict g rfl, hvalue]
  · have htext : (select q').WhereText _ := whereText_of_ne_nil (p := select q') hne
    obtain ⟨f, hread⟩ := exists_reads_of_ne_nil hkeys hq (hwheres ▸ hne)
    rw [← hwheres] at hread
    exact ⟨_, f, htext, hread⟩
  · -- The tenant condition is in the list, so there is a text, and it is the one that is read.
    have hmem : tenantKey k v ∈ q'.wheres.flatMap conjuncts := by
      rw [hwheres, throughAnd_conjuncts.flatMap_addWheres]
      exact List.mem_append_left _ (List.mem_flatMap_of_mem hkey (List.mem_singleton_self _))
    have hne : q'.wheres ≠ [] := by
      intro hnil
      rw [hnil] at hmem
      cases hmem
    obtain rfl := htext.unique (whereText_of_ne_nil (p := select q') hne)
    rw [whereList, hwheres] at hread
    exact implies_ofKey_iff hkeys hq hread hkey

/-- The key of the orders. -/
def ordersTenant : Column := ⟨⟨"orders", none⟩, "tenant_id"⟩

theorem conjunctive_param : Sql.Conjunctive "$1" :=
  ⟨.atom (.param 1), .negation (.operand (.param 1)), by simp [Formula.atoms, Sql.Atom.isParam]⟩

theorem boolean_either : Sql.Boolean "$1 OR $2" :=
  ⟨.or (.atom (.param 1)) (.atom (.param 2)),
    .or (.conjunction (.negation (.operand (.param 1)))) (.negation (.operand (.param 2))),
    by simp [Formula.atoms, Sql.Atom.isParam]⟩

/-- Orders that meet one text and do not meet another one. -/
def screenedOrders : Query Plan :=
  { source := some (table "orders"), wheres := [raw "$1", not (raw "$1 OR $2")] }

/-- An `OR` of a text that is negated does not break the chain. -/
theorem where_implies_orders_key : ∃ q' : Query Plan,
    ((select screenedOrders).restrict shop (.ofTenant ⟨"t1"⟩)).value = .ok (select q') ∧
    ∀ text f, (select q').WhereText text → Reads .disjunction (Sql.tokens text) f →
      f.Implies (.ofKey ordersTenant (.text "t1")) := by
  have hq : ∀ w ∈ screenedOrders.wheres, w.Predicate Sql.Boolean := by
    obtain ⟨f, hread, hparams⟩ := conjunctive_param
    simpa [screenedOrders] using
      ⟨Predicate.raw ⟨f, .conjunction hread, hparams⟩, Predicate.not (.raw boolean_either)⟩
  have hunbroken : ∀ w ∈ screenedOrders.wheres, w.Unbroken := by
    simpa [Unbroken, screenedOrders, conjuncts] using conjunctive_param
  have hkey : tenantKey ordersTenant (.text "t1")
      ∈ owedKeys shop shop (some ⟨"t1"⟩) (select screenedOrders) 0 := List.mem_singleton_self _
  obtain ⟨q', hvalue, -, -, hiff⟩ := where_implies_keys_iff shop ⟨"t1"⟩ screenedOrders hq
  exact ⟨q', hvalue, fun text f htext hread => (hiff text f htext hread _ _ hkey).2 hunbroken⟩

/-- Orders that meet a text with an `OR` of its own. -/
def eitherOrders : Query Plan :=
  { source := some (table "orders"), wheres := [raw "$1 OR $2"] }

/-- Those orders, restricted to a tenant. -/
def eitherOrdersOfTenant : Query Plan :=
  { source := some (table "orders")
    wheres := [and [tenantKey ordersTenant (.text "t1"), raw "$1 OR $2"]] }

/-- The second alternative of the text escapes the tenant condition. -/
theorem where_escapes_orders_key : ¬ ∀ (g : Partitioning) (t : Tenant) (q q' : Query Plan),
    (∀ w ∈ q.wheres, w.Predicate Sql.Boolean) →
    ((select q).restrict g (.ofTenant t)).value = .ok (select q') →
    ∀ text f, (select q').WhereText text → Reads .disjunction (Sql.tokens text) f →
      ∀ k v, tenantKey k v ∈ owedKeys g g (some t) (select q) 0 → f.Implies (.ofKey k v) := by
  intro h
  have hvalue : ((select eitherOrders).restrict shop (.ofTenant ⟨"t1"⟩)).value
      = .ok (select eitherOrdersOfTenant) := rfl
  have hboolean : ∀ w ∈ eitherOrders.wheres, w.Predicate Sql.Boolean := by
    simpa [eitherOrders] using Predicate.raw boolean_either
  have hsql : (chained (select eitherOrdersOfTenant).whereList).inline
      = "orders.tenant_id = 't1' AND $1 OR $2" := rfl
  have htext := whereText_of_ne_nil (p := select eitherOrdersOfTenant) (List.cons_ne_nil _ _)
  rw [hsql] at htext
  have hread : Reads .disjunction (Sql.tokens "orders.tenant_id = 't1' AND $1 OR $2")
      (.or (.and (.atom (.ofKey ordersTenant (.text "t1"))) (.atom (.param 1)))
        (.atom (.param 2))) :=
    .or (.conjunction (.and (.negation (.operand (.equality "orders" "tenant_id" rfl)))
      (.operand (.param 1)))) (.negation (.operand (.param 2)))
  have himplies := h shop ⟨"t1"⟩ eitherOrders eitherOrdersOfTenant hboolean hvalue _ _ htext hread
    ordersTenant (.text "t1") (List.mem_singleton_self _)
  -- The second parameter is enough.
  have hkey := himplies (fun a => decide (a = .param 2)) rfl
  cases hkey

end Plan
end Tenancy
