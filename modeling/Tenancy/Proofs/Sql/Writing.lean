import Mathlib.Data.List.Perm.Basic
import Tenancy.Proofs.Sql.Values

namespace Tenancy

/-!
# Writing — SQL in one pass, with values written out or bound

A writer appends to a text. If it binds values it also has a list of them, and the placeholder of a
value is the length of this list. It writes values in both ways through one function.

* `Sql.Writer` — the text and the values so far; `Writer.put` — writing a fragment;
* `Plan.write` — writing a plan, node by node; `write_eq_put` — this is writing its fragment;
* `Sql.woven` — strings with something in between;
* `exists_woven` — both texts of a fragment have the same strings around their values;
* `perm_valued` — which values of a plan are shown;
* `inline_and_bound_agree` — all of this of a plan.
-/

namespace Sql

/-! ### Writers -/

/-- What has been written so far. -/
structure Writer where
  /-- The text. -/
  text : String := ""
  /-- The values that are bound by placeholders, unless values are written out. -/
  bound : Option (List Literal)
  deriving Repr, DecidableEq

namespace Writer

/-- A writer that writes values out, before it has written anything. -/
def inline : Writer := { bound := none }

/-- A writer that binds values, before it has written anything. -/
def binding : Writer := { bound := some [] }

/-- Writes a text. -/
def push (w : Writer) (s : String) : Writer := { w with text := w.text ++ s }

/-- Writes a value, or binds it and writes its placeholder. -/
def value (w : Writer) (v : Literal) : Writer :=
  match w.bound with
  | some vs => { text := w.text ++ placeholder (vs ++ [v]).length, bound := some (vs ++ [v]) }
  | none => w.push (literal v)

/-- Writes a piece. -/
def putPiece (w : Writer) : Piece → Writer
  | .text s => w.push s
  | .value v => w.value v

/-- Writes a fragment, piece by piece. -/
def put (w : Writer) (f : Fragment) : Writer := f.foldl putPiece w

variable (w : Writer)

@[simp] theorem put_nil : w.put [] = w := rfl

@[simp] theorem put_text_cons (s : String) (f : Fragment) :
    w.put (.text s :: f) = (w.push s).put f := rfl

@[simp] theorem put_value_cons (v : Literal) (f : Fragment) :
    w.put (.value v :: f) = (w.value v).put f := rfl

@[simp] theorem put_append (f g : Fragment) : w.put (f ++ g) = (w.put f).put g :=
  List.foldl_append

/-- A writer that writes values out appends the text with the values. -/
theorem put_of_inline (text : String) (f : Fragment) :
    put ⟨text, none⟩ f = ⟨text ++ f.inline, none⟩ := by
  induction f generalizing text with
  | nil => simp [Fragment.inline]
  | cons p ps ih =>
    cases p <;> simp [push, value, Fragment.inline, ih, String.append_assoc]

/-- A writer that binds values appends the text with placeholders and the values. -/
theorem put_of_binding (text : String) (vs : List Literal) (f : Fragment) :
    put ⟨text, some vs⟩ f = ⟨text ++ f.boundFrom vs.length, some (vs ++ f.values)⟩ := by
  induction f generalizing text vs with
  | nil => simp [Fragment.boundFrom]
  | cons p ps ih =>
    cases p <;> simp [push, value, Fragment.boundFrom, ih, String.append_assoc]

end Writer

/-! ### Strings with something in between -/

/-- The string `first`, and then each of the strings `rest` behind one of `between`. -/
def woven (first : String) (between rest : List String) : String :=
  first ++ String.join (between.zipWith (· ++ ·) rest)

/-- The placeholders of `k` values. -/
def placeholders (k : Nat) : List String := (List.range' 1 k).map placeholder

/-- Around the values of a fragment there are the same strings in both of its texts. -/
theorem Fragment.exists_woven (f : Fragment) (k : Nat) : ∃ first rest,
    rest.length = f.values.length ∧
    f.boundFrom k = woven first ((List.range' (k + 1) f.values.length).map placeholder) rest ∧
    f.inline = woven first (f.values.map literal) rest := by
  induction f generalizing k with
  | nil => exact ⟨"", [], rfl, rfl, rfl⟩
  | cons p ps ih =>
    cases p with
    | text s =>
      obtain ⟨first, rest, hlength, hbound, hinline⟩ := ih k
      refine ⟨s ++ first, rest, hlength, ?_, ?_⟩
      · rw [boundFrom, hbound, woven, woven, values_text_cons, String.append_assoc]
      · rw [inline, hinline, woven, woven, values_text_cons, String.append_assoc]
    | value v =>
      obtain ⟨first, rest, hlength, hbound, hinline⟩ := ih (k + 1)
      refine ⟨"", first :: rest, by simp [hlength], ?_, ?_⟩
      · simp [boundFrom, hbound, woven, List.range'_succ, String.append_assoc]
      · simp [inline, hinline, woven, String.append_assoc]

end Sql

namespace Plan

open Sql (Fragment Writer identifier)

/-! ### Writing a plan -/

/-- Opens parentheses around a statement that stands inside another one. -/
def openIn (pos : Position) (w : Writer) : Writer :=
  match pos with
  | .statement => w
  | .operand => w.push "("

/-- Closes these parentheses. -/
def closeIn (pos : Position) (w : Writer) : Writer :=
  match pos with
  | .statement => w
  | .operand => w.push ")"

/-- Writes the keyword of a clause, unless it has no terms. -/
def openClause (keyword : String) (terms : List Plan) (w : Writer) : Writer :=
  if terms.isEmpty then w else w.push keyword

/-- Writes a clause with a number. -/
def writeCount (keyword : String) (count : Option Nat) (w : Writer) : Writer :=
  match count with
  | none => w
  | some n => w.push (keyword ++ toString n)

mutual

/-- Writes a plan that stands in position `pos`. -/
def write (pos : Position) : Plan → Writer → Writer
  | table t, w => w.push (identifier t)
  | aliased p a, w =>
    let w := if p.standsUnderAlias then p.write .operand w
      else (p.write .operand (w.push "(")).push ")"
    (w.push " AS ").push (identifier a)
  | column c, w => w.push c.sql
  | literal v, w => w.value v
  | param n, w => w.push ("$" ++ toString n)
  | raw s, w => w.push s
  | call f args, w => (writeAll ", " args ((w.push f).push "(")).push ")"
  | tuple ps, w => (writeAll ", " ps (w.push "(")).push ")"
  | equal l r, w =>
    let w := l.write .operand w
    if r.isNullLiteral then w.push " IS NULL" else r.write .operand (w.push " = ")
  | compare op l r, w => r.write .operand ((l.write .operand w).push (" " ++ op.symbol ++ " "))
  | and ps, w => writeAll " AND " ps w
  | or l r, w => (r.write .operand ((l.write .operand (w.push "(")).push " OR ")).push ")"
  | not p, w => (p.write .operand ((w.push "NOT ").push "(")).push ")"
  | group p, w => (p.write .statement (w.push "(")).push ")"
  | existence p, w => p.write .operand (w.push "EXISTS ")
  | select ⟨ps, source, ws, gs, vs, having, os, limit, offset⟩, w =>
    let w := (openIn pos w).push "SELECT "
    let w := if ps.isEmpty then w.push "*" else writeAll ", " ps w
    let w := writeOptional " FROM " source w
    let w := writeAll " AND " ws (openClause " WHERE " ws w)
    let w := writeAll ", " gs (openClause " GROUP BY " gs w)
    let w := writeOptional " HAVING " having w
    let w := writeAll ", " vs (openClause " WINDOW " vs w)
    let w := writeAll ", " os (openClause " ORDER BY " os w)
    closeIn pos (writeCount " OFFSET " offset (writeCount " LIMIT " limit w))
  | union all l r, w =>
    let w := (l.write .statement (openIn pos w)).push (if all then " UNION ALL " else " UNION ")
    closeIn pos (r.write .statement w)
  | join kind l r on, w =>
    let w := (l.write .operand w).push (" " ++ kind.keyword ++ " ")
    let w := if r.isJoin then (r.write .operand (w.push "(")).push ")" else r.write .operand w
    match on with
    | none => if kind = .cross then w else w.push " ON TRUE"
    | some p => p.write .operand (w.push " ON ")
  | update target assignments ws, w =>
    let w := (target.write .operand ((openIn pos w).push "UPDATE ")).push " SET "
    let w := writeSettings assignments w
    closeIn pos (writeAll " AND " ws (openClause " WHERE " ws w))
  | delete target ws, w =>
    let w := target.write .operand ((openIn pos w).push "DELETE FROM ")
    closeIn pos (writeAll " AND " ws (openClause " WHERE " ws w))
  | tenantKey k v, w => ((w.push k.sql).push " = ").value v
  | keyLink k o, w => ((w.push k.sql).push " = ").push o.sql

/-- Writes operands with a separator between them. -/
def writeAll (separator : String) : List Plan → Writer → Writer
  | [], w => w
  | p :: ps, w =>
    let w := p.write .operand w
    writeAll separator ps (if ps.isEmpty then w else w.push separator)

/-- Writes a clause with one term, unless it is missing. -/
def writeOptional (keyword : String) : Option Plan → Writer → Writer
  | none, w => w
  | some p, w => p.write .operand (w.push keyword)

/-- Writes assignments with commas between them. -/
def writeSettings : List (String × Plan) → Writer → Writer
  | [], w => w
  | (c, p) :: rest, w =>
    let w := p.write .operand ((w.push (identifier c)).push " = ")
    writeSettings rest (if rest.isEmpty then w else w.push ", ")

end

theorem put_parenthesized (w : Writer) (f : Fragment) :
    w.put (parenthesized f) = ((w.push "(").put f).push ")" := by
  simp [parenthesized]

theorem put_inPosition (pos : Position) (w : Writer) (f : Fragment) :
    w.put (inPosition pos f) = closeIn pos ((openIn pos w).put f) := by
  cases pos with
  | statement => rfl
  | operand => exact put_parenthesized w f

theorem put_countClause (keyword : String) (count : Option Nat) (w : Writer) :
    w.put (countClause keyword count) = writeCount keyword count w := by
  cases count <;> rfl

theorem put_clause (keyword separator : String) (ps : List Plan) (w : Writer) :
    w.put (clause keyword separator (operands ps))
      = (openClause keyword ps w).put (Fragment.joined separator (operands ps)) := by
  cases ps <;> rfl

/-- The first of several fragments, and the separator if others follow. -/
theorem put_joined_cons (separator : String) (f : Fragment) (fs : List Fragment) (w : Writer) :
    w.put (Fragment.joined separator (f :: fs))
      = (if fs.isEmpty then w.put f else (w.put f).push separator).put
          (Fragment.joined separator fs) := by
  cases fs <;> simp [Fragment.joined]

mutual

/-- Writing a plan is writing its fragment. -/
theorem write_eq_put (pos : Position) : ∀ (p : Plan) (w : Writer),
    p.write pos w = w.put (p.fragment pos)
  | table _, _ | column _, _ | literal _, _ | param _, _ | raw _, _ | tenantKey .., _
  | keyLink .., _ => rfl
  | aliased p a, w => by
    cases h : p.standsUnderAlias <;> simp [write, fragment, write_eq_put .operand p, h, put_parenthesized]
  | call f args, w => by simp [write, fragment, writeAll_eq_put, put_parenthesized]
  | tuple ps, w => by simp [write, fragment, writeAll_eq_put, put_parenthesized]
  | equal l r, w => by
    cases h : r.isNullLiteral <;>
      simp [write, fragment, write_eq_put .operand l, write_eq_put .operand r, h]
  | compare op l r, w => by
    simp [write, fragment, write_eq_put .operand l, write_eq_put .operand r]
  | and ps, w => by simp [write, fragment, writeAll_eq_put]
  | or l r, w => by
    simp [write, fragment, write_eq_put .operand l, write_eq_put .operand r, put_parenthesized]
  | not p, w => by simp [write, fragment, write_eq_put .operand p, put_parenthesized]
  | group p, w => by simp [write, fragment, write_eq_put .statement p, put_parenthesized]
  | existence p, w => by simp [write, fragment, write_eq_put .operand p]
  | select ⟨ps, source, ws, gs, vs, having, os, limit, offset⟩, w => by
    cases ps <;> simp [write, fragment, writeAll_eq_put, put_clause, writeOptional_eq_put,
      put_inPosition, put_countClause]
  | union all l r, w => by
    simp [write, fragment, write_eq_put .statement l, write_eq_put .statement r, put_inPosition]
  | join kind l r none, w => by
    cases h : r.isJoin <;>
      simp [write, fragment, write_eq_put .operand l, write_eq_put .operand r, put_parenthesized, h]
    all_goals split <;> simp
  | join kind l r (some c), w => by
    cases h : r.isJoin <;>
      simp [write, fragment, write_eq_put .operand l, write_eq_put .operand r,
        write_eq_put .operand c, put_parenthesized, h]
  | update target assignments ws, w => by
    simp [write, fragment, write_eq_put .operand target, writeAll_eq_put,
      writeSettings_eq_put, put_clause, put_inPosition]
  | delete target ws, w => by
    simp [write, fragment, write_eq_put .operand target, writeAll_eq_put, put_clause,
      put_inPosition]

theorem writeAll_eq_put (separator : String) : ∀ (ps : List Plan) (w : Writer),
    writeAll separator ps w = w.put (Fragment.joined separator (operands ps))
  | [], w => rfl
  | p :: ps, w => by
    rw [writeAll, writeAll_eq_put separator ps, operands, put_joined_cons, write_eq_put .operand p]
    cases ps <;> rfl

theorem writeOptional_eq_put (keyword : String) : ∀ (p : Option Plan) (w : Writer),
    writeOptional keyword p w = w.put (optional keyword p)
  | none, w => rfl
  | some p, w => by rw [writeOptional, write_eq_put .operand p, optional, Writer.put_text_cons]

theorem writeSettings_eq_put : ∀ (assignments : List (String × Plan)) (w : Writer),
    writeSettings assignments w = w.put (Fragment.joined ", " (settings assignments))
  | [], w => rfl
  | (c, p) :: rest, w => by
    rw [writeSettings, writeSettings_eq_put rest, settings, put_joined_cons,
      write_eq_put .operand p]
    cases rest <;> rfl

end

/-! ### Which values are shown -/

/-- Is the node an equality with the null literal on its right? SQL shows it as a test. -/
def isNullTest : Plan → Bool
  | equal _ r => r.isNullLiteral
  | _ => false

theorem eq_of_isNullLiteral {p : Plan} (h : p.isNullLiteral = true) : p = literal .null := by
  unfold isNullLiteral at h
  split at h
  · rfl
  · simp at h

/-- The nulls of the tests in a plan. -/
def testedNulls (p : Plan) : List Plan := (p.nodes.filter isNullTest).map fun _ => literal .null

theorem testedNulls_eq (p : Plan) : p.testedNulls
    = (if p.isNullTest then [literal .null] else []) ++ p.parts.flatMap (·.2.testedNulls) := by
  rw [testedNulls, nodes_eq, List.filter_cons, List.filter_flatMap]
  split <;> simp [testedNulls, List.map_flatMap]

/-- The parts of a node are those that are shown, and the null of a test. -/
theorem perm_shownParts (p : Plan) : (p.parts.map (·.2)).Perm
    (p.shownParts ++ if p.isNullTest then [literal .null] else []) := by
  cases p with
  | equal l r =>
    cases h : r.isNullLiteral with
    | false => simp [parts, shownParts, isNullTest, h]
    | true =>
      obtain rfl := eq_of_isNullLiteral h
      exact .refl _
  | select q =>
    -- Projections are shown before the source, and `HAVING` before `WINDOW`.
    have hfront : (q.source.toList ++ q.projections ++ q.wheres ++ q.groups).Perm
        (q.projections ++ q.source.toList ++ q.wheres ++ q.groups) :=
      (List.perm_append_comm.append_right _).append_right _
    have hall := (hfront.append (@List.perm_append_comm _ q.windows q.having.toList)).append_right
      q.orders
    simpa [parts, shownParts, isNullTest, Function.comp_def] using hall
  | _ => simp [shownParts, isNullTest]

/-- Every node with a value is shown, but for the nulls of tests. -/
theorem perm_valued (p : Plan) :
    (p.nodes.filter showsValue).Perm (p.valued ++ p.testedNulls) := by
  induction p using inductionOnParts with
  | step p ih =>
    have hnull : valued (literal .null) = [literal .null] := by
      rw [valued_eq]
      rfl
    have hparts : (p.parts.flatMap fun c => c.2.valued).Perm
        (p.shownParts.flatMap valued ++ if p.isNullTest then [literal .null] else []) := by
      have hshown := (perm_shownParts p).flatMap_right valued
      rw [List.flatMap_map, List.flatMap_append] at hshown
      cases h : p.isNullTest <;> simpa [h, hnull] using hshown
    have hbelow : (p.parts.flatMap fun c => c.2.nodes.filter showsValue).Perm
        (p.shownParts.flatMap valued ++ ((if p.isNullTest then [literal .null] else [])
          ++ p.parts.flatMap (·.2.testedNulls))) := by
      rw [← List.append_assoc]
      exact ((List.Perm.flatMap_left _ ih).trans (List.flatMap_append_perm _ _ _).symm).trans
        (hparts.append_right _)
    have hself : p.nodes.filter showsValue = (if p.showsValue then [p] else [])
        ++ p.parts.flatMap fun c => c.2.nodes.filter showsValue := by
      rw [nodes_eq, List.filter_cons, List.filter_flatMap]
      split <;> rfl
    rw [hself, valued_eq, testedNulls_eq, List.append_assoc]
    exact hbelow.append_left _

/-- **The two texts of a plan agree.** There are strings that stand in both of them: around the
placeholders `?1`, `?2`, … in the one and around the values in the other. The values are those of
the nodes for which SQL shows a value, in the order in which it shows them. These are all literals
and tenant conditions of the plan, except for a null on the right of an equality, which is a test in
both texts. A writer that goes through the plan once writes the same texts, and numbers the values
as it binds them. -/
theorem inline_and_bound_agree (p : Plan) :
    (∃ first rest, rest.length = p.parameters.length ∧
      p.toBoundSql = Sql.woven first (Sql.placeholders p.parameters.length) rest ∧
      p.toSql = Sql.woven first (p.parameters.map Sql.literal) rest) ∧
    p.parameters = p.valued.map shownValue ∧
    (p.nodes.filter showsValue).Perm (p.valued ++ p.testedNulls) ∧
    p.write .statement .inline = ⟨p.toSql, none⟩ ∧
    p.write .statement .binding = ⟨p.toBoundSql, some p.parameters⟩ := by
  refine ⟨(p.fragment .statement).exists_woven 0, parameters_eq p, perm_valued p, ?_, ?_⟩
  · rw [write_eq_put, Writer.inline, Writer.put_of_inline, String.empty_append, toSql]
  · rw [write_eq_put, Writer.binding, Writer.put_of_binding, String.empty_append]
    rfl

/-- A null on the right of an equality is no parameter, and any other null is one. -/
example : (and [equal (param 1) (literal .null), equal (literal .null) (literal (.bool true))]
    ).toBoundSql = "$1 IS NULL AND ?1 = ?2" := by
  decide

end Plan

end Tenancy
