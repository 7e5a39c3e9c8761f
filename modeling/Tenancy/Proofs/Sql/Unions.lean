import Mathlib.Data.Multiset.Dedup
import Tenancy.Proofs.Sql.Enclosure

namespace Tenancy

/-!
# Unions — how SQL reads a tree of `UNION` and `UNION ALL`

* `Sql.Chain` — queries with `UNION` or `UNION ALL` between them, in the order of the text;
* `Sql.chain` — the chain that is read off the tokens of a text;
* `Sql.Chain.rows` — the rows of a chain, both operators binding alike and to the left;
* `Plan.chain`, `Plan.unionRows` — the queries of a tree in order, and the rows of the tree itself;
* `Plan.isReadBack` — the trees whose grouping makes no difference;
* `unions_read_back_iff` — the queries and operators of a tree are read back, and the rows are those
  of the tree exactly if it is one of these.

The sides of a `UNION` stand without parentheses, so the text does not tell how a tree is grouped.
-/

namespace Sql

/-! ### Chains -/

/-- Queries with an operator in front of each but the first: `UNION ALL`, or else `UNION`. -/
structure Chain (α : Type) where
  /-- The first of them. -/
  first : α
  /-- The other ones, each with its operator. -/
  rest : List (Bool × α)
  deriving Repr, DecidableEq

namespace Chain

variable {α β : Type}

/-- The operators, in order. -/
def operators (c : Chain α) : List Bool := c.rest.map (·.1)

/-- The queries, in order. -/
def queries (c : Chain α) : List α := c.first :: c.rest.map (·.2)

/-- A chain of other queries with the same operators. -/
def map (f : α → β) (c : Chain α) : Chain β := ⟨f c.first, c.rest.map fun x => (x.1, f x.2)⟩

/-- Two chains with an operator between them. -/
def append (c : Chain α) (all : Bool) (d : Chain α) : Chain α :=
  ⟨c.first, c.rest ++ (all, d.first) :: d.rest⟩

@[simp] theorem operators_append (c : Chain α) (all : Bool) (d : Chain α) :
    (c.append all d).operators = c.operators ++ all :: d.operators := by
  simp [operators, append]

@[simp] theorem operators_map (f : α → β) (c : Chain α) : (c.map f).operators = c.operators := by
  simp [operators, map]

theorem queries_append (c : Chain α) (all : Bool) (d : Chain α) :
    (c.append all d).queries = c.queries ++ d.queries := by
  simp [queries, append]

theorem map_append (f : α → β) (c : Chain α) (all : Bool) (d : Chain α) :
    (c.append all d).map f = (c.map f).append all (d.map f) := by
  simp [map, append]

end Chain

/-! ### Reading a chain -/

/-- The depth of parentheses behind a token. -/
def depthBehind (d : Nat) (t : Token) : Nat :=
  if t = .sign '(' then d + 1 else if t = .sign ')' then d - 1 else d

/-- An `ALL` behind `UNION` belongs to the operator. -/
def operand : List Token → Bool × List Token
  | .keyword "ALL" :: ts => (true, ts)
  | ts => (false, ts)

/-- The chain that is read off tokens at depth `d`. It is divided at each `UNION` at depth zero. -/
def chainAt (d : Nat) : List Token → Chain (List Token)
  | [] => ⟨[], []⟩
  | t :: ts =>
    let c := chainAt (depthBehind d t) ts
    if d = 0 ∧ t = .keyword "UNION" then ⟨[], operand c.first :: c.rest⟩
    else ⟨t :: c.first, c.rest⟩

/-- The chain that is read off the tokens of a statement. -/
def chain (ts : List Token) : Chain (List Token) := chainAt 0 ts

/-- The words of an operator. -/
def operator (all : Bool) : List Token :=
  if all then [.keyword "UNION", .keyword "ALL"] else [.keyword "UNION"]

/-- The tokens of a chain. -/
def Chain.tokens (c : Chain (List Token)) : List Token :=
  c.first ++ c.rest.flatMap fun x => operator x.1 ++ x.2

theorem Chain.tokens_append (c : Chain (List Token)) (all : Bool) (d : Chain (List Token)) :
    (c.append all d).tokens = c.tokens ++ (operator all ++ d.tokens) := by
  simp [Chain.tokens, append]

/-- The reader takes in inert tokens as they are. -/
theorem chainAt_append {i : Bool} {ts : List Token} (h : Inert i ts) {d : Nat}
    (hd : i = true → 0 < d) (us : List Token) :
    chainAt d (ts ++ us) = ⟨ts ++ (chainAt d us).first, (chainAt d us).rest⟩ := by
  induction h generalizing d us with
  | nil => rfl
  | @single i t hopen hclose hunion =>
    have hdepth : depthBehind d t = d := by rw [depthBehind, if_neg hopen, if_neg hclose]
    have hinside : ¬ (d = 0 ∧ t = .keyword "UNION") := by
      rintro ⟨rfl, rfl⟩
      obtain hi | hne := hunion
      · exact absurd (hd hi) (Nat.lt_irrefl 0)
      · exact hne rfl
    rw [List.singleton_append, chainAt, hdepth, if_neg hinside]
    rfl
  | @append i ts us' _ _ ihts ihus =>
    rw [List.append_assoc, ihts hd, ihus hd, List.append_assoc]
  | @parentheses i ts _ ih =>
    -- Inside the reader is at least one deep, and the second parenthesis takes it back.
    have hin : ∀ us, chainAt d (.sign '(' :: us)
        = ⟨.sign '(' :: (chainAt (d + 1) us).first, (chainAt (d + 1) us).rest⟩ := by
      intro us
      rw [chainAt, if_neg (by simp)]
      rfl
    have hout : ∀ us, chainAt (d + 1) (.sign ')' :: us)
        = ⟨.sign ')' :: (chainAt d us).first, (chainAt d us).rest⟩ := by
      intro us
      rw [chainAt, if_neg (by simp)]
      rfl
    rw [List.cons_append, List.append_assoc, hin, ih (fun _ => Nat.succ_pos d)]
    rw [List.singleton_append, hout]
    simp

/-- Inert tokens that begin with `SELECT`. -/
structure IsQuery (ts : List Token) : Prop where
  inert : Inert false ts
  begins : ts.head? = some (.keyword "SELECT")

theorem operand_of_isQuery {ts : List Token} (h : IsQuery ts) : operand ts = (false, ts) := by
  cases ts with
  | nil => rfl
  | cons t ts =>
    obtain rfl := Option.some.inj h.begins
    rfl

/-- The words of an operator divide the chain in front of a query. -/
theorem chainAt_operator {ts us : List Token} {rest : List (Bool × List Token)}
    (hquery : IsQuery ts) (h : chainAt 0 us = ⟨ts, rest⟩) (all : Bool) :
    chainAt 0 (operator all ++ us) = ⟨[], (all, ts) :: rest⟩ := by
  cases all with
  | false =>
    show chainAt 0 (.keyword "UNION" :: us) = _
    rw [chainAt, if_pos ⟨rfl, rfl⟩]
    show Chain.mk [] (operand (chainAt 0 us).first :: (chainAt 0 us).rest) = _
    rw [h, operand_of_isQuery hquery]
  | true =>
    -- `ALL` is read as the first token of the query, which then gives it to the operator.
    have hall : chainAt 0 (.keyword "ALL" :: us) = ⟨.keyword "ALL" :: ts, rest⟩ := by
      rw [chainAt, if_neg (by simp)]
      show Chain.mk (.keyword "ALL" :: (chainAt 0 us).first) (chainAt 0 us).rest = _
      rw [h]
    show chainAt 0 (.keyword "UNION" :: .keyword "ALL" :: us) = _
    rw [chainAt, if_pos ⟨rfl, rfl⟩]
    show Chain.mk [] (operand (chainAt 0 (.keyword "ALL" :: us)).first
      :: (chainAt 0 (.keyword "ALL" :: us)).rest) = _
    rw [hall]
    rfl

/-- The reader finds the queries and the operators of a chain. -/
theorem chain_tokens {c : Chain (List Token)} (h : ∀ ts ∈ c.queries, IsQuery ts) :
    chain c.tokens = c := by
  obtain ⟨first, rest⟩ := c
  induction rest generalizing first with
  | nil =>
    have hfirst : IsQuery first := h first List.mem_cons_self
    rw [chain, Chain.tokens, chainAt_append hfirst.inert nofun]
    simp [chainAt]
  | cons x rest ih =>
    obtain ⟨all, ts⟩ := x
    obtain ⟨hfirst, hrest⟩ := List.forall_mem_cons.1 h
    have hread : chainAt 0 (Chain.mk ts rest).tokens = ⟨ts, rest⟩ := ih ts hrest
    have hdivided := chainAt_operator (hrest ts List.mem_cons_self) hread all
    have htokens : (Chain.mk first ((all, ts) :: rest)).tokens
        = first ++ (operator all ++ (Chain.mk ts rest).tokens) := by
      simp [Chain.tokens]
    rw [chain, htokens, chainAt_append hfirst.inert nofun, hdivided, List.append_nil]

/-! ### The rows of a chain -/

section

variable {α β : Type} [DecidableEq β]

/-- The rows of a `UNION ALL` or, without duplicates, of a `UNION`. -/
def unite (all : Bool) (s t : Multiset β) : Multiset β := if all then s + t else (s + t).dedup

/-- Operators are applied to rows one after the other, each to all that has come out so far. -/
def rowsFrom (s : Multiset β) (rows : Nat → Multiset β) : List Bool → Multiset β
  | [] => s
  | all :: ops => rowsFrom (unite all s (rows 0)) (fun k => rows (k + 1)) ops

/-- The rows of a chain whose queries have the rows `rows 0`, `rows 1`, … -/
def Chain.rows (c : Chain α) (rows : Nat → Multiset β) : Multiset β :=
  rowsFrom (rows 0) (fun k => rows (k + 1)) c.operators

variable {s t : Multiset β} {rows : Nat → Multiset β}

theorem mem_unite {all : Bool} {x : β} : x ∈ unite all s t ↔ x ∈ s ∨ x ∈ t := by
  cases all <;> simp [unite]

theorem rowsFrom_append (ops ops' : List Bool) : rowsFrom s rows (ops ++ ops')
    = rowsFrom (rowsFrom s rows ops) (fun k => rows (ops.length + k)) ops' := by
  induction ops generalizing s rows with
  | nil => simp [rowsFrom]
  | cons all ops ih =>
    rw [List.cons_append, rowsFrom, ih, rowsFrom]
    congr 1
    funext k
    rw [List.length_cons]
    congr 1
    omega

theorem mem_rowsFrom {ops : List Bool} {x : β} :
    x ∈ rowsFrom s rows ops ↔ x ∈ s ∨ ∃ k < ops.length, x ∈ rows k := by
  induction ops generalizing s rows with
  | nil => simp [rowsFrom]
  | cons all ops ih =>
    rw [rowsFrom, ih, mem_unite, List.length_cons, Nat.exists_lt_succ_left, or_assoc]

/-- `UNION ALL` adds rows to whatever there is. -/
theorem rowsFrom_add {ops : List Bool} (h : ∀ all ∈ ops, all = true) :
    rowsFrom (s + t) rows ops = s + rowsFrom t rows ops := by
  induction ops generalizing t rows with
  | nil => rfl
  | cons all ops ih =>
    obtain ⟨rfl, hops⟩ := List.forall_mem_cons.1 h
    have hunite : unite true (s + t) (rows 0) = s + unite true t (rows 0) :=
      Multiset.add_assoc s t (rows 0)
    rw [rowsFrom, hunite, ih hops, rowsFrom]

/-- A last `UNION` leaves no duplicates. -/
theorem nodup_rowsFrom_of_last {ops : List Bool} :
    (rowsFrom s rows (ops ++ [false])).Nodup := by
  rw [rowsFrom_append]
  exact Multiset.nodup_dedup _

/-- Where no rows come in behind a `UNION`, there are no duplicates either. -/
theorem nodup_rowsFrom_of_mem {ops : List Bool} (h : false ∈ ops) (hrows : ∀ k, rows k = 0) :
    (rowsFrom s rows ops).Nodup := by
  have hbehind : ∀ {ops : List Bool} {s : Multiset β} {rows : Nat → Multiset β}, s.Nodup →
      (∀ k, rows k = 0) → (rowsFrom s rows ops).Nodup := by
    intro ops
    induction ops with
    | nil => exact fun hs _ => hs
    | cons all ops ih =>
      intro s rows hs hrows
      rw [rowsFrom, hrows 0]
      refine ih ?_ fun k => hrows (k + 1)
      cases all with
      | false => exact Multiset.nodup_dedup _
      | true =>
        show (s + 0).Nodup
        rwa [Multiset.add_zero]
  obtain ⟨front, rest, rfl⟩ := List.append_of_mem h
  rw [rowsFrom_append]
  show (rowsFrom (unite false _ _) _ rest).Nodup
  exact hbehind (Multiset.nodup_dedup _) fun k => hrows _

/-- The rows of the second of two chains. -/
def Chain.behind (c : Chain α) (rows : Nat → Multiset β) : Nat → Multiset β :=
  fun k => rows (c.operators.length + 1 + k)

/-- Behind a chain the operators of the next one are applied to all that has come out so far. -/
theorem Chain.rows_append (c : Chain α) (all : Bool) (d : Chain α) :
    (c.append all d).rows rows = rowsFrom (unite all (c.rows rows) (c.behind rows 0))
      (fun k => c.behind rows (k + 1)) d.operators := by
  rw [Chain.rows, operators_append, rowsFrom_append, rowsFrom]
  have hnext : ∀ k, c.operators.length + (k + 1) + 1 = c.operators.length + 1 + (k + 1) :=
    fun k => by omega
  simp only [hnext]
  rfl

theorem Chain.mem_rows_append {c d : Chain α} {all : Bool} {x : β} :
    x ∈ (c.append all d).rows rows ↔ x ∈ c.rows rows ∨ x ∈ d.rows (c.behind rows) := by
  rw [rows_append, mem_rowsFrom, mem_unite, or_assoc, Chain.rows, Chain.rows, mem_rowsFrom,
    mem_rowsFrom]

end

end Sql

open Sql (Chain)

namespace Plan

/-! ### Trees of unions -/

/-- The statements of a tree of unions and the operators between them, in order. -/
def chain : Plan → Chain Plan
  | union all l r => l.chain.append all r.chain
  | p => ⟨p, []⟩

/-- A tree of unions over queries that are neither ordered nor limited. -/
inductive IsUnionTree : Plan → Prop
  /-- A query. -/
  | select {q : Query Plan} (horders : q.orders = []) (hlimit : q.limit = none)
    (hoffset : q.offset = none) : IsUnionTree (select q)
  /-- A union of two trees. -/
  | union (all : Bool) {l r : Plan} (hl : IsUnionTree l) (hr : IsUnionTree r) :
    IsUnionTree (union all l r)

/-- A query begins with `SELECT`. -/
theorem exists_fragment_select (q : Query Plan) :
    ∃ f, (select q).fragment .statement = .text "SELECT " :: f := by
  obtain ⟨ps, source, ws, gs, vs, having, os, limit, offset⟩ := q
  cases ps <;> exact ⟨_, rfl⟩

theorem isQuery_tokens {q : Query Plan} (h : ∀ p ∈ (select q).nodes, p.Enclosed) :
    Sql.Spells ((select q).fragment .statement).letters (Sql.tokens (select q).toSql) ∧
      Sql.IsQuery (Sql.tokens (select q).toSql) := by
  obtain ⟨ts, hspells, hinert⟩ := (written_fragment h).2
  obtain ⟨f, hf⟩ := exists_fragment_select q
  have htokens : Sql.tokens (select q).toSql = ts := hspells.lex_eq
  rw [htokens]
  refine ⟨hspells, hinert, ?_⟩
  have hselect : Sql.Leads "SELECT ".toList [.keyword "SELECT"] := Sql.leads_of_isDone rfl
  have hlex := hspells.lex_eq
  rw [hf, Sql.Fragment.letters_text_cons, hselect] at hlex
  rw [← hlex]
  rfl

theorem connects_operator (all : Bool) :
    Sql.Leads (if all then " UNION ALL " else " UNION ").toList (Sql.operator all) := by
  cases all with
  | false => exact Sql.leads_of_isDone rfl
  | true => exact Sql.leads_of_isDone rfl

theorem forall_mem_nodes_union {all : Bool} {l r : Plan} :
    (∀ q ∈ (union all l r).nodes, q.Enclosed) ↔
      (∀ q ∈ l.nodes, q.Enclosed) ∧ ∀ q ∈ r.nodes, q.Enclosed := by
  rw [forall_mem_nodes]
  simp [parts, Enclosed]

/-- The text of a tree is that of its chain. -/
theorem spells_chain {p : Plan} (hp : p.IsUnionTree) (h : ∀ q ∈ p.nodes, q.Enclosed) :
    Sql.Spells (p.fragment .statement).letters (p.chain.map fun q => Sql.tokens q.toSql).tokens ∧
      ∀ ts ∈ (p.chain.map fun q => Sql.tokens q.toSql).queries, Sql.IsQuery ts := by
  induction hp with
  | @select q _ _ _ =>
    obtain ⟨hspells, hquery⟩ := isQuery_tokens h
    refine ⟨?_, by simpa [chain, Chain.map, Chain.queries] using hquery⟩
    simpa [chain, Chain.map, Chain.tokens] using hspells
  | @union all l r _ _ ihl ihr =>
    obtain ⟨hlnodes, hrnodes⟩ := forall_mem_nodes_union.1 h
    obtain ⟨hl, hlqueries⟩ := ihl hlnodes
    obtain ⟨hr, hrqueries⟩ := ihr hrnodes
    rw [chain, Chain.map_append, Chain.tokens_append, Chain.queries_append]
    refine ⟨?_, List.forall_mem_append.2 ⟨hlqueries, hrqueries⟩⟩
    have htext : (union all l r).fragment .statement = l.fragment .statement
        ++ .text (if all then " UNION ALL " else " UNION ") :: r.fragment .statement := by
      rw [fragment]
      rfl
    rw [htext, Sql.Fragment.letters_append, Sql.Fragment.letters_text_cons]
    refine hl.append ((connects_operator all).append hr) ?_
    cases all <;> exact Sql.breaks_cons rfl _

/-- SQL reads the chain of a tree off its text. -/
theorem chain_tokens_toSql {p : Plan} (hp : p.IsUnionTree) (h : ∀ q ∈ p.nodes, q.Enclosed) :
    Sql.chain (Sql.tokens p.toSql) = p.chain.map fun q => Sql.tokens q.toSql := by
  obtain ⟨hspells, hqueries⟩ := spells_chain hp h
  have htokens : Sql.tokens p.toSql = (p.chain.map fun q => Sql.tokens q.toSql).tokens :=
    hspells.lex_eq
  rw [htokens, Sql.chain_tokens hqueries]

/-! ### The rows of a tree -/

section

variable {β : Type} [DecidableEq β]

/-- The rows of a tree whose queries, in order, have the rows `rows 0`, `rows 1`, … -/
def unionRows : Plan → (Nat → Multiset β) → Multiset β
  | union all l r, rows => Sql.unite all (l.unionRows rows)
      (r.unionRows (l.chain.behind rows))
  | _, rows => rows 0

theorem mem_unionRows {p : Plan} (hp : p.IsUnionTree) {rows : Nat → Multiset β} {x : β} :
    x ∈ p.unionRows rows ↔ x ∈ p.chain.rows rows := by
  induction hp generalizing rows with
  | select => rfl
  | @union all l r _ _ ihl ihr =>
    rw [unionRows, Sql.mem_unite, ihl, ihr, chain, Chain.mem_rows_append]

end

/-- Does the grouping of a tree make no difference? Nothing but rows may be added behind the first
query on the right of a `UNION ALL`, and the last operator behind a `UNION` has to be one, too. -/
def isReadBack : Plan → Bool
  | union true l r => l.isReadBack && r.chain.operators.all id
  | union false _ r => !r.chain.operators.getLastD false
  | _ => true

/-- Do the chain and the tree have the same rows, whatever rows the queries have? -/
def SameRows (p : Plan) : Prop :=
  ∀ (β : Type) [DecidableEq β] (rows : Nat → Multiset β), p.chain.rows rows = p.unionRows rows

variable {l r : Plan}

theorem sameRows_union {all : Bool} : (union all l r).SameRows ↔
    ∀ (β : Type) [DecidableEq β] (rows : Nat → Multiset β),
      Sql.rowsFrom (Sql.unite all (l.chain.rows rows) (l.chain.behind rows 0))
          (fun k => l.chain.behind rows (k + 1)) r.chain.operators
        = Sql.unite all (l.unionRows rows) (r.unionRows (l.chain.behind rows)) := by
  refine forall_congr' fun β => forall_congr' fun _ => forall_congr' fun rows => ?_
  rw [chain, Chain.rows_append, unionRows]

/-- A tree of `UNION ALL` alone has the rows of its chain. -/
theorem isReadBack_of_all {p : Plan} (hp : p.IsUnionTree) (h : p.chain.operators.all id = true) :
    p.isReadBack = true := by
  induction hp with
  | select => rfl
  | @union all l r _ _ ihl ihr =>
    rw [chain, Chain.operators_append, List.all_append, List.all_cons, Bool.and_eq_true,
      Bool.and_eq_true] at h
    obtain rfl : all = true := h.2.1
    rw [isReadBack, ihl h.1, h.2.2]
    rfl

/-- With nothing but `UNION ALL` on the right, the chain of a `UNION ALL` adds up both sides. -/
theorem rows_union_all (hr : r.SameRows) (hall : r.chain.operators.all id = true) {β : Type}
    [DecidableEq β] (rows : Nat → Multiset β) :
    Sql.rowsFrom (Sql.unite true (l.chain.rows rows) (l.chain.behind rows 0))
        (fun k => l.chain.behind rows (k + 1)) r.chain.operators
      = l.chain.rows rows + r.unionRows (l.chain.behind rows) := by
  have hunite : Sql.unite true (l.chain.rows rows) (l.chain.behind rows 0)
      = l.chain.rows rows + l.chain.behind rows 0 := rfl
  rw [hunite, Sql.rowsFrom_add (by simpa using hall), ← hr β]
  rfl

theorem sameRows_union_all (hl : l.IsUnionTree) (hr : r.IsUnionTree)
    (ihr : r.isReadBack = true → r.SameRows) :
    (union true l r).SameRows ↔ l.SameRows ∧ r.chain.operators.all id = true := by
  rw [sameRows_union]
  constructor
  · intro h
    have hall : r.chain.operators.all id = true := by
      by_contra hnot
      have hmem : false ∈ r.chain.operators := by simpa using hnot
      -- One row for the first query of each side, the same one, and no others.
      let rows : Nat → Multiset Unit :=
        fun k => if k = 0 ∨ k = l.chain.operators.length + 1 then {()} else 0
      have hnone : ∀ k, l.chain.behind rows (k + 1) = 0 :=
        fun k => if_neg (by omega)
      have hnodup := Sql.nodup_rowsFrom_of_mem hmem hnone
        (s := Sql.unite true (l.chain.rows rows) (l.chain.behind rows 0))
      have hleft : () ∈ l.unionRows rows := by
        rw [mem_unionRows hl, Chain.rows, Sql.mem_rowsFrom]
        exact .inl (by simp [rows])
      have hright : () ∈ r.unionRows (l.chain.behind rows) := by
        rw [mem_unionRows hr, Chain.rows, Sql.mem_rowsFrom]
        exact .inl (by simp [rows, Chain.behind])
      rw [h Unit rows] at hnodup
      have hdisjoint := (Multiset.nodup_add.1 hnodup).2.2
      exact Multiset.disjoint_left.1 hdisjoint hleft hright
    -- What the right side adds is the same in both and cancels.
    refine ⟨fun β _ rows => ?_, hall⟩
    have hrows := h β rows
    rw [rows_union_all (ihr (isReadBack_of_all hr hall)) hall] at hrows
    exact Multiset.add_left_inj.1 hrows
  · rintro ⟨hleft, hall⟩ β _ rows
    rw [rows_union_all (ihr (isReadBack_of_all hr hall)) hall, hleft β]
    rfl

theorem sameRows_union_distinct (hl : l.IsUnionTree) (hr : r.IsUnionTree) :
    (union false l r).SameRows ↔ r.chain.operators.getLastD false = false := by
  constructor
  · intro h
    obtain hnil | ⟨ops, all, hops⟩ := List.eq_nil_or_concat r.chain.operators
    · rw [hnil]
      rfl
    · rw [List.concat_eq_append] at hops
      rw [hops, List.getLastD_concat]
      cases all with
      | false => rfl
      | true =>
        -- A last `UNION ALL` would keep the duplicates of the last query.
        have hnodup : ((union false l r).unionRows fun _ => {(), ()}).Nodup :=
          Multiset.nodup_dedup _
        rw [← h Unit, chain, Chain.rows_append, hops, Sql.rowsFrom_append] at hnodup
        have htwo : ({(), ()} : Multiset Unit).Nodup := (Multiset.nodup_add.1 hnodup).2.1
        exact absurd htwo (by decide)
  · -- Both have the same rows, and a last `UNION` leaves no duplicates of them in either.
    intro hlast β _ rows
    have htree : ((union false l r).unionRows rows).Nodup := Multiset.nodup_dedup _
    have hchain : ((union false l r).chain.rows rows).Nodup := by
      rw [chain, Chain.rows_append]
      obtain hnil | ⟨ops, all, hops⟩ := List.eq_nil_or_concat r.chain.operators
      · rw [hnil]
        exact Multiset.nodup_dedup _
      · rw [hops, List.concat_eq_append, List.getLastD_concat] at hlast
        rw [hops, List.concat_eq_append, hlast]
        exact Sql.nodup_rowsFrom_of_last
    exact (Multiset.Nodup.ext hchain htree).2 fun x => (mem_unionRows (.union false hl hr)).symm

theorem sameRows_iff {p : Plan} (hp : p.IsUnionTree) : p.SameRows ↔ p.isReadBack = true := by
  induction hp with
  | select => exact ⟨fun _ => rfl, fun _ _ _ _ => rfl⟩
  | @union all l r hl hr ihl ihr =>
    cases all with
    | true => rw [sameRows_union_all hl hr ihr.2, ihl, isReadBack, Bool.and_eq_true]
    | false => rw [sameRows_union_distinct hl hr, isReadBack, Bool.not_eq_true']

/-- **A tree of unions is read back exactly if its grouping makes no difference.** The queries and
operators that SQL reads off the text of a tree are those of the tree, in order. Applied one after
the other, they give the rows of the tree, whatever rows the queries have, exactly if the tree is
one of those that `isReadBack` describes. -/
theorem unions_read_back_iff {p : Plan} (hp : p.IsUnionTree) (h : ∀ q ∈ p.nodes, q.Enclosed) :
    Sql.chain (Sql.tokens p.toSql) = p.chain.map (fun q => Sql.tokens q.toSql) ∧
      ((∀ (β : Type) [DecidableEq β] (rows : Nat → Multiset β),
        (Sql.chain (Sql.tokens p.toSql)).rows rows = p.unionRows rows) ↔ p.isReadBack = true) := by
  have hchain := chain_tokens_toSql hp h
  refine ⟨hchain, ?_⟩
  rw [← sameRows_iff hp, hchain]
  simp only [Chain.rows, Chain.operators_map]
  rfl

/-- All rows of a table. -/
def allOf (t : String) : Plan := select { source := some (table t) }

theorem isUnionTree_allOf (t : String) : (allOf t).IsUnionTree := .select rfl rfl rfl

/-- The rows of two tables, without the duplicates of those and a third table. -/
def leftUnion : Plan := union false (union true (allOf "a") (allOf "b")) (allOf "c")

/-- A union on the left of a `UNION` is read back. -/
theorem unions_read_back_left :
    (Sql.chain (Sql.tokens leftUnion.toSql)).rows (fun k => {k % 2}) = {0, 1} := by
  have htree : leftUnion.IsUnionTree :=
    .union _ (.union _ (isUnionTree_allOf "a") (isUnionTree_allOf "b")) (isUnionTree_allOf "c")
  have hleaf : ∀ t, ∀ q ∈ (allOf t).nodes, q.Enclosed := by
    intro t
    have htable : ∀ q ∈ (table t).nodes, q.Enclosed :=
      forall_mem_nodes.2 ⟨trivial, by simp [parts]⟩
    exact forall_mem_nodes.2 ⟨trivial, by simpa [allOf, parts] using htable⟩
  have hclosed : ∀ q ∈ leftUnion.nodes, q.Enclosed :=
    forall_mem_nodes_union.2 ⟨forall_mem_nodes_union.2 ⟨hleaf "a", hleaf "b"⟩, hleaf "c"⟩
  rw [(unions_read_back_iff htree hclosed).2.2 rfl Nat]
  decide

/-- The rows of a table, with all those of two further tables but their duplicates. -/
def rightUnion : Plan := union true (allOf "a") (union false (allOf "b") (allOf "c"))

/-- The text does not tell that a union stood on the right of a `UNION ALL`. -/
theorem unions_regrouped : ¬ ∀ p : Plan, p.IsUnionTree →
    ∀ (β : Type) [DecidableEq β] (rows : Nat → Multiset β),
      (Sql.chain (Sql.tokens p.toSql)).rows rows = p.unionRows rows := by
  intro h
  have htree : rightUnion.IsUnionTree :=
    .union _ (isUnionTree_allOf "a") (.union _ (isUnionTree_allOf "b") (isUnionTree_allOf "c"))
  have htext : rightUnion.toSql
      = "SELECT * FROM a UNION ALL SELECT * FROM b UNION SELECT * FROM c" := rfl
  have hread : Sql.chain
        (Sql.tokens "SELECT * FROM a UNION ALL SELECT * FROM b UNION SELECT * FROM c")
      = ⟨Sql.tokens "SELECT * FROM a", [(true, Sql.tokens "SELECT * FROM b"),
        (false, Sql.tokens "SELECT * FROM c")]⟩ := rfl
  -- The row of `a` and that of `b` are one row in the chain and two rows in the tree.
  have hsame := h _ htree Unit fun _ => {()}
  rw [htext, hread] at hsame
  exact absurd hsame (by decide)

end Plan
end Tenancy
