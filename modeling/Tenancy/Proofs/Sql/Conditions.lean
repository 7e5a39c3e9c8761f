import Mathlib.Logic.Function.Iterate
import Tenancy.Proofs.Sql.Tokens

namespace Tenancy.Sql

/-!
# Conditions — how SQL reads a row of tokens as a condition

The grammar is the usual one: `NOT` binds closer than `AND` and `AND` closer than `OR`, and both
associate to the left.

* `Formula` — conditions as they are read, and `Formula.eval` — their truth;
* `Reads` — the grammar: what is read off a row of tokens, by the connective that may stand in it
  outside of parentheses;
* `condition?` — a reader that goes through the tokens once;
* `condition?_of_reads` — it finds whatever the grammar allows, so a row of tokens is read in one
  way only (`Reads.unique`);
* `exists_reads_and`, `exists_reads_and_or`, `exists_reads_chain` — what is read off a chain of
  conditions with `AND` between them.
-/

/-- What a condition says by itself. -/
inductive Atom
  /-- A parameter is true. -/
  | param (index : Nat)
  /-- A column is equal to a value. -/
  | equality (qualifier column : String) (value : Token)
  deriving Repr, DecidableEq, Inhabited

/-- Is it a parameter? -/
def Atom.isParam : Atom → Bool
  | param _ => true
  | equality .. => false

/-- A condition as it is read. -/
inductive Formula
  /-- What has no parts. -/
  | atom (a : Atom)
  /-- A negation. -/
  | not (f : Formula)
  /-- A conjunction. -/
  | and (f g : Formula)
  /-- A disjunction. -/
  | or (f g : Formula)
  deriving Repr, DecidableEq, Inhabited

namespace Formula

/-- The truth of a condition. -/
def eval (v : Atom → Bool) : Formula → Bool
  | atom a => v a
  | not f => !f.eval v
  | and f g => f.eval v && g.eval v
  | or f g => f.eval v || g.eval v

/-- What a condition is made of, in the order in which it stands there. -/
def atoms : Formula → List Atom
  | atom a => [a]
  | not f => f.atoms
  | and f g | or f g => f.atoms ++ g.atoms

/-- The alternatives of a disjunction that associates to the left. -/
def alternatives : Formula → List Formula
  | or f g => f.alternatives ++ [g]
  | f => [f]

/-- A condition depends on what it is made of alone. -/
theorem eval_congr {v w : Atom → Bool} {f : Formula} (h : ∀ a ∈ f.atoms, v a = w a) :
    f.eval v = f.eval w := by
  induction f with
  | atom a => exact h a (List.mem_singleton_self a)
  | not f ih => rw [eval, eval, ih h]
  | and f g ihf ihg | or f g ihf ihg =>
    rw [atoms, List.forall_mem_append] at h
    rw [eval, eval, ihf h.1, ihg h.2]

/-- A condition is true exactly if one of its alternatives is. -/
theorem eval_iff_alternatives (v : Atom → Bool) (f : Formula) :
    f.eval v = true ↔ ∃ g ∈ f.alternatives, g.eval v = true := by
  induction f with
  | or f g ihf _ => simp [eval, alternatives, ihf, or_and_right, exists_or]
  | _ => simp [alternatives]

end Formula

/-! ### The grammar -/

/-- Which connectives may stand outside of parentheses. -/
inductive Level
  /-- None. -/
  | operand
  /-- `NOT`. -/
  | negation
  /-- `NOT` and `AND`. -/
  | conjunction
  /-- All. -/
  | disjunction
  deriving Repr, DecidableEq

/-- Does the token stand for a value? -/
def Token.isValue : Token → Bool
  | text _ | number _ => true
  | keyword s => s = "NULL" || s = "TRUE" || s = "FALSE"
  | _ => false

/-- What SQL reads off a row of tokens. -/
inductive Reads : Level → List Token → Formula → Prop
  /-- A parameter. -/
  | param (n : Nat) : Reads .operand [.param n] (.atom (.param n))
  /-- A qualified column, an equals sign and a value. -/
  | equality (q c : String) {t : Token} (ht : t.isValue = true) :
    Reads .operand [.name q, .sign '.', .name c, .sign '=', t] (.atom (.equality q c t))
  /-- Any condition in parentheses. -/
  | parentheses {ts : List Token} {f : Formula} (h : Reads .disjunction ts f) :
    Reads .operand (.sign '(' :: (ts ++ [.sign ')'])) f
  /-- An operand without `NOT`. -/
  | operand {ts : List Token} {f : Formula} (h : Reads .operand ts f) : Reads .negation ts f
  /-- `NOT` in front of an operand, with or without `NOT`. -/
  | not {ts : List Token} {f : Formula} (h : Reads .negation ts f) :
    Reads .negation (.keyword "NOT" :: ts) (.not f)
  /-- A single operand of `AND`. -/
  | negation {ts : List Token} {f : Formula} (h : Reads .negation ts f) : Reads .conjunction ts f
  /-- Several operands of `AND`. -/
  | and {ts us : List Token} {f g : Formula} (hf : Reads .conjunction ts f)
    (hg : Reads .negation us g) : Reads .conjunction (ts ++ .keyword "AND" :: us) (.and f g)
  /-- A single operand of `OR`. -/
  | conjunction {ts : List Token} {f : Formula} (h : Reads .conjunction ts f) :
    Reads .disjunction ts f
  /-- Several operands of `OR`. -/
  | or {ts us : List Token} {f g : Formula} (hf : Reads .disjunction ts f)
    (hg : Reads .conjunction us g) : Reads .disjunction (ts ++ .keyword "OR" :: us) (.or f g)

/-- A condition does not end in a quote. -/
theorem Reads.exists_last {ℓ : Level} {ts : List Token} {f : Formula} (h : Reads ℓ ts f) :
    ∃ front last, ts = front ++ [last] ∧ ∀ q : Quote, last ≠ .sign q.char := by
  induction h with
  | param n => exact ⟨[], _, rfl, nofun⟩
  | @equality q c t ht =>
    refine ⟨[.name q, .sign '.', .name c, .sign '='], t, rfl, ?_⟩
    rintro q rfl
    cases ht
  | @parentheses ts _ _ _ => exact ⟨.sign '(' :: ts, _, rfl, fun q => by cases q <;> decide⟩
  | operand _ ih | negation _ ih | conjunction _ ih => exact ih
  | not _ ih =>
    obtain ⟨front, last, rfl, hlast⟩ := ih
    exact ⟨.keyword "NOT" :: front, last, rfl, hlast⟩
  | @and ts _ _ _ _ _ _ ih =>
    obtain ⟨front, last, rfl, hlast⟩ := ih
    exact ⟨ts ++ .keyword "AND" :: front, last, by simp, hlast⟩
  | @or ts _ _ _ _ _ _ ih =>
    obtain ⟨front, last, rfl, hlast⟩ := ih
    exact ⟨ts ++ .keyword "OR" :: front, last, by simp, hlast⟩

/-- A text that is a condition can be read by itself. -/
theorem Reads.spells {ℓ : Level} {cs : List Char} {f : Formula} (h : Reads ℓ (lex cs) f) :
    Spells cs (lex cs) := by
  refine spells_of_isOpen_eq_false ?_
  cases hp : pending .blank cs with
  | quoted q ds =>
    -- An open quote would be the last token.
    obtain ⟨front, hfront⟩ := exists_scan_eq .blank cs
    obtain ⟨front', last, hlast, hne⟩ := h.exists_last
    have hsame : front ++ [Token.sign q.char] = front' ++ [last] := by
      rw [← hlast, lex, hfront, hp]
      rfl
    exact absurd (List.append_inj_right' hsame rfl).symm (by simpa using hne q)
  | _ => rfl

/-! ### A reader -/

/-- What has been read inside a parenthesis that is open. -/
structure Frame where
  /-- The operands of `OR` in front of the last `OR`. -/
  alternatives : Option Formula := none
  /-- The operands of `AND` behind it, in front of the last `AND`. -/
  conjuncts : Option Formula := none
  /-- The number of times that `NOT` stands in front of the next operand. -/
  negations : Nat := 0

namespace Frame

/-- An operand with `NOT` in front of it. -/
def negate (r : Frame) (f : Formula) : Formula := Formula.not^[r.negations] f

/-- The operands of `AND` with one more. -/
def conjoin (r : Frame) (f : Formula) : Formula := r.conjuncts.elim f (.and · f)

/-- All that stands in the parenthesis, with one more operand of `AND`. -/
def close (r : Frame) (f : Formula) : Formula :=
  r.alternatives.elim (r.conjoin f) (.or · (r.conjoin f))

/-- The frame once an operand has been read. -/
def taken (r : Frame) : Frame := { r with negations := 0 }

end Frame

mutual

/-- Reads on where an operand has to stand, inside the parentheses `r :: rs`. -/
def atOperand (r : Frame) (rs : List Frame) : List Token → Option Formula
  | .keyword "NOT" :: ts => atOperand { r with negations := r.negations + 1 } rs ts
  | .sign '(' :: ts => atOperand {} (r :: rs) ts
  | .param n :: ts => behindOperand r.taken rs (r.negate (.atom (.param n))) ts
  | .name q :: .sign '.' :: .name c :: .sign '=' :: t :: ts =>
    if t.isValue then behindOperand r.taken rs (r.negate (.atom (.equality q c t))) ts else none
  | _ => none

/-- Reads on behind the operand `f`, inside the parentheses `r :: rs`. -/
def behindOperand (r : Frame) (rs : List Frame) (f : Formula) : List Token → Option Formula
  | [] => if rs.isEmpty then some (r.close f) else none
  | .keyword "AND" :: ts => atOperand { r with conjuncts := some (r.conjoin f) } rs ts
  | .keyword "OR" :: ts => atOperand { alternatives := some (r.close f) } rs ts
  | .sign ')' :: ts =>
    match rs with
    | [] => none
    | r' :: rs => behindOperand r'.taken rs (r'.negate (r.close f)) ts
  | _ => none

end

/-- The condition that a row of tokens is read as. -/
def condition? (ts : List Token) : Option Formula := atOperand {} [] ts

/-- What the reader does with tokens that the grammar reads as `f`, in front of any others. -/
def Runs : Level → List Token → Formula → Prop
  | .operand, ts, f | .negation, ts, f => ∀ (r : Frame) (rs : List Frame) (us : List Token),
    atOperand r rs (ts ++ us) = behindOperand r.taken rs (r.negate f) us
  | .conjunction, ts, f => ∀ (a : Option Formula) (rs : List Frame) (us : List Token),
    ∃ c g, atOperand ⟨a, none, 0⟩ rs (ts ++ us) = behindOperand ⟨a, c, 0⟩ rs g us ∧
      Frame.conjoin ⟨a, c, 0⟩ g = f
  | .disjunction, ts, f => ∀ (rs : List Frame) (us : List Token),
    ∃ r g, atOperand {} rs (ts ++ us) = behindOperand r rs g us ∧ r.close g = f

/-- The reader goes through whatever the grammar allows. -/
theorem runs_of_reads {ℓ : Level} {ts : List Token} {f : Formula} (h : Reads ℓ ts f) :
    Runs ℓ ts f := by
  induction h with
  | param n =>
    intro r rs us
    rfl
  | equality q c ht =>
    intro r rs us
    exact if_pos ht
  | @parentheses ts f _ ih =>
    -- What stands around waits in the stack, and takes the result as its operand.
    intro r rs us
    obtain ⟨r', g, hrun, hclose⟩ := ih (r :: rs) (.sign ')' :: us)
    show atOperand {} (r :: rs) (ts ++ [.sign ')'] ++ us) = _
    rw [List.append_assoc, List.singleton_append, hrun, ← hclose]
    rfl
  | operand _ ih => exact ih
  | @not ts f _ ih =>
    intro r rs us
    show atOperand { r with negations := r.negations + 1 } rs (ts ++ us) = _
    rw [ih]
    rfl
  | negation _ ih =>
    intro a rs us
    exact ⟨none, _, ih ⟨a, none, 0⟩ rs us, rfl⟩
  | @and ts us f g _ _ ihf ihg =>
    intro a rs vs
    obtain ⟨c, f', hrun, hf⟩ := ihf a rs (.keyword "AND" :: us ++ vs)
    refine ⟨some f, g, ?_, rfl⟩
    rw [List.append_assoc, hrun, ← hf]
    exact ihg _ rs vs
  | conjunction _ ih =>
    intro rs us
    obtain ⟨c, g, hrun, hconjoin⟩ := ih none rs us
    exact ⟨_, g, hrun, hconjoin⟩
  | @or ts us f g _ _ ihf ihg =>
    intro rs vs
    obtain ⟨r, f', hrun, hf⟩ := ihf rs (.keyword "OR" :: us ++ vs)
    obtain ⟨c, g', hrun', hg⟩ := ihg (some f) rs vs
    refine ⟨⟨some f, c, 0⟩, g', ?_, congrArg (Formula.or f) hg⟩
    rw [List.append_assoc, hrun, ← hrun', ← hf]
    rfl

/-- The reader finds what the grammar allows. -/
theorem condition?_of_reads {ts : List Token} {f : Formula} (h : Reads .disjunction ts f) :
    condition? ts = some f := by
  obtain ⟨r, g, hrun, hclose⟩ := runs_of_reads h [] []
  rw [List.append_nil] at hrun
  rw [condition?, hrun, ← hclose]
  rfl

/-- The grammar reads a row of tokens in one way only. -/
theorem Reads.unique {ts : List Token} {f g : Formula} (hf : Reads .disjunction ts f)
    (hg : Reads .disjunction ts g) : f = g :=
  Option.some.inj ((condition?_of_reads hf).symm.trans (condition?_of_reads hg))

/-! ### Chains -/

variable {ts us : List Token} {f g : Formula}

/-- Two conditions without `OR` outside of parentheses, with `AND` between them. -/
theorem exists_reads_and (hf : Reads .conjunction ts f) (hg : Reads .conjunction us g) :
    ∃ h, Reads .conjunction (ts ++ .keyword "AND" :: us) h ∧ h.atoms = f.atoms ++ g.atoms ∧
      h.alternatives = [h] ∧ ∀ v, h.eval v = (f.eval v && g.eval v) := by
  generalize hℓ : Level.conjunction = ℓ at hg
  -- Both chains associate to the left, so the first one grows by the operands of the second.
  induction hg with
  | @negation us g hg => exact ⟨.and f g, .and hf hg, rfl, rfl, fun _ => rfl⟩
  | @and us us' g g' _ hg' ih =>
    obtain ⟨h, hread, hatoms, -, heval⟩ := ih hℓ
    refine ⟨.and h g', ?_, ?_, rfl, fun v => ?_⟩
    · rw [← List.cons_append, ← List.append_assoc]
      exact .and hread hg'
    · rw [Formula.atoms, hatoms, Formula.atoms, List.append_assoc]
    · rw [Formula.eval, heval, Formula.eval, Bool.and_assoc]
  | _ => cases hℓ

/-- A condition without `OR` outside of parentheses takes in the first alternative of what stands
behind the `AND`, and leaves the others alone. -/
theorem exists_reads_and_or (hf : Reads .conjunction ts f) (hg : Reads .disjunction us g) :
    ∃ h first rest, Reads .disjunction (ts ++ .keyword "AND" :: us) h ∧
      h.atoms = f.atoms ++ g.atoms ∧ h.alternatives = first :: rest ∧
      (∀ v, first.eval v = true → f.eval v = true) ∧
      ∀ alternative ∈ rest, alternative.atoms ⊆ g.atoms := by
  generalize hℓ : Level.disjunction = ℓ at hg
  induction hg with
  | @conjunction us g hg =>
    obtain ⟨h, hread, hatoms, hone, heval⟩ := exists_reads_and hf hg
    refine ⟨h, h, [], .conjunction hread, hatoms, hone, fun v hv => ?_, nofun⟩
    rw [heval, Bool.and_eq_true] at hv
    exact hv.1
  | @or us us' g g' _ hg' ih =>
    -- A further alternative on the right is one of the whole, and the `AND` does not reach it.
    obtain ⟨h, first, rest, hread, hatoms, halternatives, hfirst, hrest⟩ := ih hℓ
    refine ⟨.or h g', first, rest ++ [g'], ?_, ?_, ?_, hfirst, ?_⟩
    · rw [← List.cons_append, ← List.append_assoc]
      exact .or hread hg'
    · rw [Formula.atoms, hatoms, Formula.atoms, List.append_assoc]
    · rw [Formula.alternatives, halternatives, List.cons_append]
    · rw [List.forall_mem_append, List.forall_mem_singleton]
      exact ⟨fun a ha => List.Subset.trans (hrest a ha) (List.subset_append_left _ _),
        List.subset_append_right _ _⟩
  | _ => cases hℓ

/-- Two conditions with `OR` between them. -/
theorem exists_reads_or (hf : Reads .disjunction ts f) (hg : Reads .disjunction us g) :
    ∃ h, Reads .disjunction (ts ++ .keyword "OR" :: us) h ∧ h.atoms = f.atoms ++ g.atoms ∧
      ∀ v, h.eval v = (f.eval v || g.eval v) := by
  generalize hℓ : Level.disjunction = ℓ at hg
  induction hg with
  | @conjunction us g hg => exact ⟨.or f g, .or hf hg, rfl, fun _ => rfl⟩
  | @or us us' g g' _ hg' ih =>
    obtain ⟨h, hread, hatoms, heval⟩ := ih hℓ
    refine ⟨.or h g', ?_, ?_, fun v => ?_⟩
    · rw [← List.cons_append, ← List.append_assoc]
      exact .or hread hg'
    · rw [Formula.atoms, hatoms, Formula.atoms, List.append_assoc]
    · rw [Formula.eval, heval, Formula.eval, Bool.or_assoc]
  | _ => cases hℓ

/-- Any two conditions, with `AND` between them. -/
theorem exists_reads_or_and_or (hf : Reads .disjunction ts f) (hg : Reads .disjunction us g) :
    ∃ h, Reads .disjunction (ts ++ .keyword "AND" :: us) h ∧ h.atoms = f.atoms ++ g.atoms := by
  cases hf with
  | conjunction hf =>
    obtain ⟨h, _, _, hread, hatoms, _⟩ := exists_reads_and_or hf hg
    exact ⟨h, hread, hatoms⟩
  | @or ts ts' f f' hf hf' =>
    obtain ⟨h, _, _, hread, hatoms, _⟩ := exists_reads_and_or hf' hg
    obtain ⟨h', hread', hatoms', -⟩ := exists_reads_or hf hread
    refine ⟨h', ?_, ?_⟩
    · rwa [List.append_assoc]
    · rw [hatoms', hatoms, Formula.atoms, List.append_assoc]

/-- A chain of conditions with `AND` between them. If none of them has `OR` outside of parentheses,
it is true exactly if all of them are. -/
theorem exists_reads_chain {xs : List (List Token × Formula)} (hne : xs ≠ [])
    (hxs : ∀ x ∈ xs, Reads .disjunction x.1 x.2) :
    ∃ h, Reads .disjunction ([.keyword "AND"].intercalate (xs.map (·.1))) h ∧
      h.atoms = xs.flatMap (·.2.atoms) ∧
      ((∀ x ∈ xs, Reads .conjunction x.1 x.2) →
        Reads .conjunction ([.keyword "AND"].intercalate (xs.map (·.1))) h ∧
        ∀ v, h.eval v = xs.all (·.2.eval v)) := by
  induction xs with
  | nil => exact absurd rfl hne
  | cons x xs ih =>
    obtain ⟨hx, hxs⟩ := List.forall_mem_cons.1 hxs
    cases xs with
    | nil => exact ⟨x.2, by simpa using hx, by simp, fun h => ⟨by simpa using h, by simp⟩⟩
    | cons y xs =>
      obtain ⟨g, hread, hatoms, hg⟩ := ih (List.cons_ne_nil y xs) hxs
      have hchain : [Token.keyword "AND"].intercalate ((x :: y :: xs).map (·.1))
          = x.1 ++ .keyword "AND" :: [Token.keyword "AND"].intercalate ((y :: xs).map (·.1)) := by
        simp [List.intercalate]
      rw [hchain]
      by_cases hall : ∀ z ∈ x :: y :: xs, Reads .conjunction z.1 z.2
      · obtain ⟨hx', hxs'⟩ := List.forall_mem_cons.1 hall
        obtain ⟨hread', heval⟩ := hg hxs'
        obtain ⟨h, hh, hatoms', -, heval'⟩ := exists_reads_and hx' hread'
        refine ⟨h, .conjunction hh, by simp [hatoms', hatoms], fun _ => ⟨hh, fun v => ?_⟩⟩
        rw [heval', heval]
        rfl
      · obtain ⟨h, hh, hatoms'⟩ := exists_reads_or_and_or hx hread
        exact ⟨h, hh, by simp [hatoms', hatoms], fun hall' => absurd hall' hall⟩

end Tenancy.Sql
