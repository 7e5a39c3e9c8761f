import Mathlib.Data.Prod.Basic
import Tenancy.Plan.Sql
import Tenancy.Proofs.Plan.Passes

namespace Tenancy

/-!
# Values in SQL — where the values of a plan stand, and what the rest of the text depends on

* `Sql.Fragment.skeleton` — a fragment without its values, on which its placeholders depend
  (`bound_congr`);
* `Plan.shownParts` — the parts of a node in the order in which they are rendered;
* `Plan.valued` — the nodes whose values are shown, in this order;
* `parameters_eq` — the parameters of a plan are the values of these nodes;
* `skeleton_fragment_mapParts` — the skeleton of a node is made of those of its parts.
-/

namespace Sql.Fragment

/-! ### Skeletons -/

/-- A fragment without its values: texts, and places where a value stands. -/
def skeleton (f : Fragment) : List (Option String) :=
  f.map fun
    | .text s => some s
    | .value _ => none

@[simp] theorem skeleton_nil : skeleton [] = [] := rfl

@[simp] theorem skeleton_text_cons (s : String) (f : Fragment) :
    skeleton (.text s :: f) = some s :: skeleton f := rfl

@[simp] theorem skeleton_value_cons (v : Literal) (f : Fragment) :
    skeleton (.value v :: f) = none :: skeleton f := rfl

@[simp] theorem skeleton_append (f g : Fragment) :
    skeleton (f ++ g) = skeleton f ++ skeleton g :=
  List.map_append

@[simp] theorem values_nil : values [] = [] := rfl

@[simp] theorem values_text_cons (s : String) (f : Fragment) :
    values (.text s :: f) = values f := rfl

@[simp] theorem values_value_cons (v : Literal) (f : Fragment) :
    values (.value v :: f) = v :: values f := rfl

/-- The text with placeholders depends on the skeleton alone. -/
theorem bound_congr {f g : Fragment} (h : f.skeleton = g.skeleton) : f.bound = g.bound := by
  have hfrom : ∀ k, f.boundFrom k = g.boundFrom k := by
    induction f generalizing g with
    | nil =>
      have hnil : g = [] := by simpa [skeleton] using h.symm
      rw [hnil]
      exact fun _ => rfl
    | cons p ps ih =>
      cases g with
      | nil => simp [skeleton] at h
      | cons q qs =>
        -- Both pieces are the same text, or both are values.
        cases p <;> cases q <;> simp only [skeleton_text_cons, skeleton_value_cons, List.cons.injEq,
          Option.some.injEq, reduceCtorEq, false_and, true_and] at h
        · intro k
          rw [boundFrom, boundFrom, h.1, ih h.2]
        · intro k
          rw [boundFrom, boundFrom, ih h]
  exact hfrom 0

theorem joined_cons_cons (separator : String) (f g : Fragment) (fs : List Fragment) :
    joined separator (f :: g :: fs) = f ++ .text separator :: joined separator (g :: fs) :=
  rfl

theorem skeleton_joined (separator : String) (fs : List Fragment) :
    skeleton (joined separator fs) = [some separator].intercalate (fs.map skeleton) := by
  induction fs with
  | nil => rfl
  | cons f fs ih =>
    cases fs with
    | nil => simp [joined, List.intercalate]
    | cons g gs =>
      rw [joined_cons_cons, skeleton_append, skeleton_text_cons, ih, List.map_cons, List.map_cons]
      simp [List.intercalate]

theorem values_joined (separator : String) (fs : List Fragment) :
    values (joined separator fs) = fs.flatMap values := by
  induction fs with
  | nil => rfl
  | cons f fs ih =>
    cases fs with
    | nil => simp [joined]
    | cons g gs =>
      rw [joined_cons_cons, values_append, values_text_cons, ih, ← List.flatMap_cons]

end Sql.Fragment

namespace Plan

open Sql (Fragment)
open Sql.Fragment (skeleton values skeleton_append skeleton_text_cons skeleton_joined
  values_joined)

/-! ### Values -/

/-- Does SQL show a value for the node itself? -/
def showsValue : Plan → Bool
  | literal _ | tenantKey .. => true
  | _ => false

/-- The value that SQL shows for a node, if it shows one. -/
def shownValue : Plan → Literal
  | literal v | tenantKey _ v => v
  | _ => .null

/-- The parts of a node that SQL shows, in the order in which it shows them. A null on the right of
an equality becomes a part of the text. -/
def shownParts : Plan → List Plan
  | equal l r => l :: if r.isNullLiteral then [] else [r]
  | select q =>
    q.projections ++ q.source.toList ++ q.wheres ++ q.groups ++ q.having.toList ++ q.windows
      ++ q.orders
  | p => p.parts.map (·.2)

theorem exists_mem_parts_of_mem_shownParts {p c : Plan} (h : c ∈ p.shownParts) :
    ∃ ρ, (ρ, c) ∈ p.parts := by
  have hmap : c ∈ p.parts.map (·.2) → ∃ ρ, (ρ, c) ∈ p.parts := by
    intro hc
    obtain ⟨⟨ρ, c'⟩, hc', rfl⟩ := List.mem_map.1 hc
    exact ⟨ρ, hc'⟩
  cases p with
  | equal l r =>
    refine hmap ?_
    rcases List.mem_cons.1 h with rfl | h
    · exact List.mem_cons_self
    · split at h
      · simp at h
      · simp [parts, List.mem_singleton.1 h]
  | select q =>
    refine hmap ?_
    simp only [shownParts, List.mem_append] at h
    simp only [parts, List.map_append, List.map_map, Function.comp_def, List.map_id',
      List.mem_append]
    tauto
  | _ => exact hmap h

/-- The nodes of a plan for which SQL shows a value, in the order in which it shows them. -/
def valued (p : Plan) : List Plan :=
  (if p.showsValue then [p] else []) ++ p.shownParts.attach.flatMap fun c => c.1.valued
termination_by sizeOf p
decreasing_by
  obtain ⟨ρ, hc⟩ := exists_mem_parts_of_mem_shownParts c.2
  exact sizeOf_lt_of_mem_parts hc

theorem valued_eq (p : Plan) :
    p.valued = (if p.showsValue then [p] else []) ++ p.shownParts.flatMap valued := by
  rw [valued, List.flatMap_subtype (g := valued) (fun _ _ => rfl), List.unattach_attach]

/-! ### The values of a fragment -/

theorem values_parenthesized (f : Fragment) : (parenthesized f).values = f.values := by
  simp [parenthesized]

theorem values_inPosition (pos : Position) (f : Fragment) :
    (inPosition pos f).values = f.values := by
  cases pos with
  | statement => rfl
  | operand => exact values_parenthesized f

theorem values_clause (keyword separator : String) (terms : List Fragment) :
    (clause keyword separator terms).values = terms.flatMap values := by
  cases terms with
  | nil => rfl
  | cons f fs => exact values_joined separator (f :: fs)

theorem values_countClause (keyword : String) (count : Option Nat) :
    (countClause keyword count).values = [] := by
  cases count <;> rfl

theorem values_optional (keyword : String) (p : Option Plan) :
    (optional keyword p).values = p.toList.flatMap fun c => (c.fragment .operand).values := by
  cases p <;> simp [optional]

theorem flatMap_values_operands (ps : List Plan) :
    (operands ps).flatMap values = ps.flatMap fun c => (c.fragment .operand).values := by
  rw [operands_eq_map, List.flatMap_map]

theorem flatMap_values_settings (assignments : List (String × Plan)) :
    (settings assignments).flatMap values
      = assignments.flatMap fun a => (a.2.fragment .operand).values := by
  induction assignments with
  | nil => rfl
  | cons a rest ih => simp [settings, ih]

/-- The values of a statement are the same in parentheses and without. -/
theorem values_fragment_position (pos : Position) (p : Plan) :
    (p.fragment pos).values = (p.fragment .operand).values := by
  cases p with
  | select q =>
    obtain ⟨ps, source, ws, gs, vs, having, os, limit, offset⟩ := q
    cases ps <;> simp only [fragment, values_inPosition]
  | union all l r => simp only [fragment, values_inPosition]
  | update t as ws => simp only [fragment, values_inPosition]
  | delete t ws => simp only [fragment, values_inPosition]
  | join kind l r on => cases on <;> rfl
  | _ => rfl

/-- The values of a node are its own and those of the parts that are shown. -/
theorem values_fragment_eq (pos : Position) (p : Plan) : (p.fragment pos).values
    = (if p.showsValue then [p.shownValue] else [])
      ++ p.shownParts.flatMap fun c => (c.fragment .operand).values := by
  rw [values_fragment_position]
  cases p with
  | select q =>
    obtain ⟨ps, source, ws, gs, vs, having, os, limit, offset⟩ := q
    cases ps <;>
      simp [fragment, values_inPosition, showsValue, shownParts, values_joined, values_clause,
        values_countClause, values_optional, flatMap_values_operands]
  | equal l r => cases hr : r.isNullLiteral <;> simp [fragment, showsValue, shownParts, hr]
  | join kind l r on =>
    have hright : (if r.isJoin then parenthesized (r.fragment .operand)
        else r.fragment .operand).values = (r.fragment .operand).values := by
      split
      · exact values_parenthesized _
      · rfl
    cases on with
    | none =>
      have hon : values (if kind = .cross then [] else [.text " ON TRUE"]) = [] := by
        split <;> rfl
      simp [fragment, showsValue, shownParts, parts, hright, hon]
    | some c => simp [fragment, showsValue, shownParts, parts, hright]
  | aliased p a =>
    cases hp : p.standsUnderAlias <;>
      simp [fragment, showsValue, shownParts, parts, values_parenthesized, hp]
  | group p =>
    simp [fragment, showsValue, shownParts, parts, values_parenthesized,
      values_fragment_position .statement]
  | union all l r =>
    simp [fragment, showsValue, shownParts, parts, values_inPosition,
      values_fragment_position .statement]
  | update t as ws =>
    simp [fragment, showsValue, shownParts, parts, values_inPosition, values_joined, values_clause,
      flatMap_values_settings, flatMap_values_operands, List.flatMap_map]
  | delete t ws =>
    simp [fragment, showsValue, shownParts, parts, values_inPosition, values_clause,
      flatMap_values_operands]
  | _ =>
    simp [fragment, showsValue, shownParts, shownValue, parts, values_parenthesized, values_joined,
      flatMap_values_operands]

/-- The parameters of a plan are the values of the nodes for which SQL shows one. -/
theorem values_fragment (pos : Position) (p : Plan) :
    (p.fragment pos).values = p.valued.map shownValue := by
  induction p using inductionOnParts generalizing pos with
  | step p ih =>
    have hparts : p.shownParts.flatMap (fun c => (c.fragment .operand).values)
        = p.shownParts.flatMap fun c => c.valued.map shownValue := by
      refine List.flatMap_congr fun c hc => ?_
      obtain ⟨ρ, hc⟩ := exists_mem_parts_of_mem_shownParts hc
      exact ih (ρ, c) hc .operand
    rw [values_fragment_eq, valued_eq, hparts, List.map_append, List.map_flatMap]
    split <;> rfl

theorem parameters_eq (p : Plan) : p.parameters = p.valued.map shownValue :=
  values_fragment .statement p

/-! ### The skeleton of a fragment -/

/-- Rendering does not tell apart what `h` maps to one another at the places it looks at. -/
structure KeepsRendering (h : Plan → Plan) : Prop where
  standsUnderAlias : ∀ p, (h p).standsUnderAlias = p.standsUnderAlias
  isJoin : ∀ p, (h p).isJoin = p.isJoin
  isNullLiteral : ∀ p, (h p).isNullLiteral = p.isNullLiteral

theorem skeleton_parenthesized (f : Fragment) :
    skeleton (parenthesized f) = some "(" :: (skeleton f ++ [some ")"]) := by
  simp [parenthesized]

theorem skeleton_inPosition (pos : Position) (f : Fragment) : skeleton (inPosition pos f)
    = if pos = .operand then some "(" :: (skeleton f ++ [some ")"]) else skeleton f := by
  cases pos with
  | statement => rfl
  | operand => exact skeleton_parenthesized f

theorem skeleton_clause (keyword separator : String) (terms : List Fragment) :
    skeleton (clause keyword separator terms) = if terms.map skeleton = [] then []
      else some keyword :: [some separator].intercalate (terms.map skeleton) := by
  cases terms with
  | nil => rfl
  | cons f fs => exact congrArg (some keyword :: ·) (skeleton_joined separator (f :: fs))

theorem skeleton_optional (keyword : String) (p : Option Plan) : skeleton (optional keyword p)
    = (p.map fun c => skeleton (c.fragment .operand)).elim [] (some keyword :: ·) := by
  cases p <;> simp [optional]

theorem map_skeleton_operands (ps : List Plan) :
    (operands ps).map skeleton = ps.map fun c => skeleton (c.fragment .operand) := by
  rw [operands_eq_map, List.map_map]
  rfl

theorem map_skeleton_settings (assignments : List (String × Plan)) :
    (settings assignments).map skeleton = assignments.map fun a =>
      some (Sql.identifier a.1) :: some " = " :: skeleton (a.2.fragment .operand) := by
  induction assignments with
  | nil => rfl
  | cons a rest ih => simp [settings, ih]

section

variable {h : Plan → Plan} (hh : KeepsRendering h)

include hh in
theorem KeepsRendering.shownParts_mapParts (p : Plan) :
    (p.mapParts h).shownParts = p.shownParts.map h := by
  cases p with
  | select q => simp [mapParts, Query.map, shownParts, Option.toList_map]
  | equal l r => cases hr : r.isNullLiteral <;> simp [mapParts, shownParts, hh.isNullLiteral, hr]
  | join kind l r on => simp [mapParts, shownParts, parts, Option.toList_map]
  | _ => simp [mapParts, shownParts, parts, Function.comp_def]

include hh in
/-- The skeleton of a node is made of those of its parts. -/
theorem KeepsRendering.skeleton_fragment_mapParts {p : Plan}
    (hparts : ∀ c ∈ p.parts, ∀ pos, skeleton ((h c.2).fragment pos) = skeleton (c.2.fragment pos))
    (pos : Position) : skeleton ((p.mapParts h).fragment pos) = skeleton (p.fragment pos) := by
  have hlist : ∀ ps : List Plan, (∀ c ∈ ps, ∃ ρ, (ρ, c) ∈ p.parts) →
      ps.map (fun c => skeleton ((h c).fragment .operand))
        = ps.map fun c => skeleton (c.fragment .operand) := by
    intro ps hps
    refine List.map_congr_left fun c hc => ?_
    obtain ⟨ρ, hc⟩ := hps c hc
    exact hparts (ρ, c) hc .operand
  have hoption : ∀ o : Option Plan, (∀ c ∈ o.toList, ∃ ρ, (ρ, c) ∈ p.parts) →
      o.map (fun c => skeleton ((h c).fragment .operand))
        = o.map fun c => skeleton (c.fragment .operand) := by
    intro o ho
    cases o with
    | none => rfl
    | some c =>
      obtain ⟨ρ, hc⟩ := ho c (by simp)
      exact congrArg some (hparts (ρ, c) hc .operand)
  cases p with
  | select q =>
    obtain ⟨ps, source, ws, gs, vs, having, os, limit, offset⟩ := q
    have hsource := hoption source fun c hc => ⟨.source, by simp_all [parts]⟩
    have hws := hlist ws fun c hc => ⟨.condition, by simp [parts, hc]⟩
    have hgs := hlist gs fun c hc => ⟨.condition, by simp [parts, hc]⟩
    have hvs := hlist vs fun c hc => ⟨.condition, by simp [parts, hc]⟩
    have hhaving := hoption having fun c hc => ⟨.condition, by simp_all [parts]⟩
    have hos := hlist os fun c hc => ⟨.value, by simp [parts, hc]⟩
    cases ps with
    | nil =>
      simp only [mapParts, Query.map, List.map_nil, fragment, skeleton_inPosition, skeleton_append,
        skeleton_text_cons, skeleton_clause, skeleton_optional, map_skeleton_operands, List.map_map,
        Option.map_map, Function.comp_def, hsource, hws, hgs, hvs, hhaving, hos]
    | cons c ps =>
      have hc := hparts (.value, c) (by simp [parts]) .operand
      have hps := hlist ps fun c hc => ⟨.value, by simp [parts, hc]⟩
      simp only [mapParts, Query.map, List.map_cons, fragment, skeleton_inPosition, skeleton_append,
        skeleton_text_cons, skeleton_joined, skeleton_clause, skeleton_optional,
        map_skeleton_operands, List.map_map, Option.map_map, Function.comp_def, hc, hps, hsource,
        hws, hgs, hvs, hhaving, hos]
  | equal l r =>
    have hl := hparts (.inherit, l) (by simp [parts]) .operand
    have hr := hparts (.inherit, r) (by simp [parts]) .operand
    cases hnull : r.isNullLiteral <;>
      simp [mapParts, fragment, hh.isNullLiteral, hnull, hl, hr]
  | join kind l r on =>
    have hl := hparts (_, l) List.mem_cons_self .operand
    have hr := hparts (_, r) (List.mem_cons_of_mem _ List.mem_cons_self) .operand
    cases hjoin : r.isJoin <;> cases on with
    | none => simp [mapParts, fragment, hh.isJoin, hjoin, hl, hr, skeleton_parenthesized]
    | some c =>
      have hc := hparts (.condition, c) (by simp [parts]) .operand
      simp [mapParts, fragment, hh.isJoin, hjoin, hl, hr, hc, skeleton_parenthesized]
  | aliased p a =>
    have hp := hparts (_, p) List.mem_cons_self .operand
    cases halias : p.standsUnderAlias <;>
      simp [mapParts, fragment, hh.standsUnderAlias, halias, hp, skeleton_parenthesized]
  | update t as ws =>
    have ht := hparts (.condition, t) (by simp [parts]) .operand
    have hws := hlist ws fun c hc => ⟨.condition, by simp [parts, hc]⟩
    have has : as.map (fun a =>
          some (Sql.identifier a.1) :: some " = " :: skeleton ((h a.2).fragment .operand))
        = as.map fun a =>
          some (Sql.identifier a.1) :: some " = " :: skeleton (a.2.fragment .operand) := by
      refine List.map_congr_left fun a ha => ?_
      have hpart : (Role.value, a.2) ∈ (update t as ws).parts :=
        List.mem_append_left _ (List.mem_cons_of_mem _ (List.mem_map_of_mem ha))
      rw [hparts _ hpart]
    simp [mapParts, fragment, ht, hws, has, skeleton_inPosition, skeleton_joined, skeleton_clause,
      map_skeleton_operands, map_skeleton_settings, Function.comp_def]
  | delete t ws =>
    have ht := hparts (.condition, t) (by simp [parts]) .operand
    have hws := hlist ws fun c hc => ⟨.condition, by simp [parts, hc]⟩
    simp [mapParts, fragment, ht, hws, skeleton_inPosition, skeleton_clause, map_skeleton_operands,
      Function.comp_def]
  | call f ps | tuple ps | and ps =>
    have hps := hlist ps fun c hc => ⟨.inherit, by simp [parts, hc]⟩
    simp [mapParts, fragment, hps, skeleton_parenthesized, skeleton_joined, map_skeleton_operands,
      Function.comp_def]
  | compare op l r | union all l r =>
    have hl := hparts (.inherit, l) (by simp [parts])
    have hr := hparts (.inherit, r) (by simp [parts])
    simp [mapParts, fragment, hl, hr, skeleton_inPosition]
  | or l r =>
    have hl := hparts (.loose, l) (by simp [parts])
    have hr := hparts (.loose, r) (by simp [parts])
    simp [mapParts, fragment, hl, hr, skeleton_parenthesized]
  | not p =>
    have hp := hparts (.loose, p) (by simp [parts])
    simp [mapParts, fragment, hp, skeleton_parenthesized]
  | group p | existence p =>
    have hp := hparts (.inherit, p) (by simp [parts])
    simp [mapParts, fragment, hp, skeleton_parenthesized]
  | _ => rfl

end

end Plan

end Tenancy
