import Mathlib.Data.List.Basic
import Tenancy.Json.Form

namespace Tenancy.Json

/-!
# Fields — what the value of a structure depends on

* `WellNamed` — the objects whose members can be taken for the fields of a structure;
* `Record.Fills` — two objects give the same fields, but one of them leaves out defaults;
* `Form.ReadsFields` — a structure that depends on its fields alone, with their defaults;
* `ReadsFields.perm` — the order of the members makes no difference;
* `ReadsFields.leave_out` — a member that has its default may be left out.
-/

/-! ### Objects -/

/-- The names of the members are texts, and none of `names` is given twice. -/
def WellNamed (names : List String) (ms : List (Option String × Json)) : Prop :=
  (∀ m ∈ ms, m.1 ≠ none) ∧ ∀ name ∈ names, ms.countP (fun m => m.1 = some name) ≤ 1

/-- The members of an object, each to be found by its name. -/
def Record.ofMembers (ms : List (Option String × Json)) : Record :=
  ⟨true, fun name => ms.lookup (some name)⟩

theorem Record.ofMembers?_of_wellNamed {names : List String} {ms : List (Option String × Json)}
    (h : WellNamed names ms) : ofMembers? names ms = some (ofMembers ms) := by
  have hnames : ms.any (fun m => m.1.isNone) = false :=
    List.any_eq_false.2 fun m hm => by simpa using h.1 m hm
  have honce : names.any (fun name => 1 < ms.countP fun m => m.1 = some name) = false :=
    List.any_eq_false.2 fun name hname => by simpa using h.2 name hname
  rw [ofMembers?, hnames, honce]
  rfl

theorem Record.ofMembers?_of_not_wellNamed {names : List String}
    {ms : List (Option String × Json)} (h : ¬ WellNamed names ms) : ofMembers? names ms = none := by
  unfold ofMembers?
  split
  · rfl
  · next hnames =>
    split
    · rfl
    · next honce =>
      refine absurd ⟨fun m hm hnone => hnames ?_, fun name hname => ?_⟩ h
      · exact List.any_eq_true.2 ⟨m, hm, by simp [hnone]⟩
      · by_contra htwice
        exact honce (List.any_eq_true.2 ⟨name, hname, by simpa using htwice⟩)

theorem WellNamed.perm {names : List String} {ms ms' : List (Option String × Json)}
    (h : WellNamed names ms) (hperm : ms.Perm ms') : WellNamed names ms' := by
  refine ⟨fun m hm => h.1 m (hperm.mem_iff.2 hm), fun name hname => ?_⟩
  rw [← hperm.countP_eq]
  exact h.2 name hname

/-- A member with a new name does not make the names of an object worse. -/
theorem wellNamed_cons_iff {names : List String} {ms : List (Option String × Json)} {name : String}
    (hnew : some name ∉ ms.map Prod.fst) (v : Json) :
    WellNamed names (member name v :: ms) ↔ WellNamed names ms := by
  have hnone : ms.countP (fun m => m.1 = some name) = 0 :=
    List.countP_eq_zero.2 fun m hm => by
      simpa using fun hname : m.1 = some name => hnew (hname ▸ List.mem_map_of_mem hm)
  constructor
  · intro h
    refine ⟨fun m hm => h.1 m (List.mem_cons_of_mem _ hm), fun n hn => ?_⟩
    have hle := h.2 n hn
    rw [List.countP_cons] at hle
    omega
  · intro h
    refine ⟨List.forall_mem_cons.2 ⟨nofun, h.1⟩, fun n hn => ?_⟩
    rw [List.countP_cons]
    by_cases heq : n = name
    · rw [heq, hnone]
      split <;> omega
    · have hle := h.2 n hn
      rw [if_neg (by simpa [member] using Ne.symm heq)]
      omega

theorem lookup_cons_eq (k : Option String) (m : Option String × Json)
    (ms : List (Option String × Json)) :
    (m :: ms).lookup k = if k = m.1 then some m.2 else ms.lookup k := by
  by_cases h : k = m.1
  · rw [if_pos h, h, List.lookup_cons_self]
  · rw [if_neg h, List.lookup_cons, beq_false_of_ne h]

/-- Where a name is given once at most, the order of the members makes no difference to it. -/
theorem lookup_perm {k : Option String} {ms ms' : List (Option String × Json)}
    (hperm : ms.Perm ms') (h : ms.countP (fun m => m.1 = k) ≤ 1) :
    ms.lookup k = ms'.lookup k := by
  induction hperm with
  | nil => rfl
  | cons m _ ih =>
    rw [List.countP_cons] at h
    rw [lookup_cons_eq, lookup_cons_eq, ih (by omega)]
  | swap m m' ms =>
    rw [List.countP_cons, List.countP_cons] at h
    simp only [lookup_cons_eq]
    by_cases hm : k = m.1
    · by_cases hm' : k = m'.1
      · rw [if_pos (by simp [hm]), if_pos (by simp [hm'])] at h
        omega
      · rw [if_pos hm, if_neg hm', if_pos hm]
    · rw [if_neg hm, if_neg hm]
  | trans hperm _ ih ih' =>
    -- The list in the middle has the name as often as the first one.
    rw [ih h]
    refine ih' ?_
    rwa [← hperm.countP_eq]

theorem lookup_eq_none_of_new {k : Option String} {ms : List (Option String × Json)}
    (hnew : k ∉ ms.map Prod.fst) : ms.lookup k = none := by
  refine List.lookup_eq_none_iff.2 fun m hm => ?_
  exact bne_iff_ne.2 fun heq => hnew (heq ▸ List.mem_map_of_mem hm)

/-! ### Defaults -/

namespace Record

/-- Of the fields `names` of two objects, the first one gives what the second one gives, but for
fields that have their `defaults` in the second one. -/
structure Fills (names : List String) (defaults : List (String × Json)) (r r' : Record) : Prop where
  /-- The first one is an object. -/
  left : r.isObject = true
  /-- The second one is an object. -/
  right : r'.isObject = true
  /-- What they give. -/
  value? : ∀ name ∈ names, r.value? name = r'.value? name ∨
    r.value? name = none ∧ ∃ v, (name, v) ∈ defaults ∧ r'.value? name = some v

variable {α : Type} [Form α] {names : List String} {defaults : List (String × Json)}
  {r r' : Record} {name : String} {ms : List (Option String × Json)}

@[simp]
theorem ofMembers_value?_cons (n : String) (v : Json) :
    (ofMembers (member name v :: ms)).value? n =
      if n = name then some v else (ofMembers ms).value? n := by
  simp [ofMembers, member, lookup_cons_eq]

theorem Fills.required (h : Fills names defaults r r') (hname : name ∈ names)
    (hdefault : ∀ v, (name, v) ∉ defaults) :
    (r.required name : Option α) = r'.required name := by
  unfold Record.required
  rcases h.value? name hname with heq | ⟨-, v, hv, -⟩
  · rw [heq]
  · exact absurd hv (hdefault v)

theorem Fills.withDefault (h : Fills names defaults r r') (hname : name ∈ names) {a : α}
    (hdefault : ∀ v, (name, v) ∈ defaults → Form.ofJson? v = some a) :
    r.withDefault name a = r'.withDefault name a := by
  unfold Record.withDefault
  rcases h.value? name hname with heq | ⟨hnone, v, hv, hsome⟩
  · rw [heq]
  · rw [hnone, hsome]
    exact (hdefault v hv).symm

theorem Fills.optional (h : Fills names defaults r r') (hname : name ∈ names)
    (hdefault : ∀ v, (name, v) ∈ defaults → v = null) :
    (r.optional name : Option (Option α)) = r'.optional name := by
  unfold Record.optional
  rw [h.left, h.right]
  rcases h.value? name hname with heq | ⟨hnone, v, hv, hsome⟩
  · rw [heq]
  · rw [hnone, hsome, hdefault v hv]
    rfl

/-- Two orders of the same members give the same fields. -/
theorem fills_of_perm {ms' : List (Option String × Json)} (h : WellNamed names ms)
    (hperm : ms.Perm ms') : Fills names defaults (ofMembers ms) (ofMembers ms') where
  left := rfl
  right := rfl
  value? name hname := Or.inl (lookup_perm hperm (h.2 name hname))

/-- An object without a member that has its default gives the same fields, but for that one. -/
theorem fills_cons {v : Json} (hv : (name, v) ∈ defaults) (hnew : some name ∉ ms.map Prod.fst) :
    Fills names defaults (ofMembers ms) (ofMembers (member name v :: ms)) where
  left := rfl
  right := rfl
  value? n _ := by
    rw [ofMembers_value?_cons]
    by_cases heq : n = name
    · -- The one field that is left out, and its default is given.
      subst heq
      exact Or.inr ⟨lookup_eq_none_of_new hnew, v, hv, if_pos rfl⟩
    · exact Or.inl (if_neg heq).symm

end Record

/-! ### Structures -/

/-- A structure that is read from its fields `names`, where it makes no difference whether an object
gives one of the `defaults` or leaves it out. -/
def Form.ReadsFields (α : Type) [Form α] (names : List String) (defaults : List (String × Json)) :
    Prop :=
  ∃ read : Record → Option α,
    (∀ v, Form.ofJson? v = (Record.of? names v).bind read) ∧
    ∀ r r', Record.Fills names defaults r r' → read r = read r'

variable {α : Type} [Form α] {names : List String} {defaults : List (String × Json)}

theorem Form.ReadsFields.perm (h : ReadsFields α names defaults)
    {ms ms' : List (Option String × Json)} (hperm : ms.Perm ms') :
    (ofJson? (object ms) : Option α) = ofJson? (object ms') := by
  obtain ⟨read, hread, hfills⟩ := h
  rw [hread, hread]
  show (Record.ofMembers? names ms).bind read = (Record.ofMembers? names ms').bind read
  -- Either both objects can be taken for a structure, or neither can.
  by_cases hw : WellNamed names ms
  · rw [Record.ofMembers?_of_wellNamed hw, Record.ofMembers?_of_wellNamed (hw.perm hperm)]
    exact hfills _ _ (Record.fills_of_perm hw hperm)
  · have hw' : ¬ WellNamed names ms' := fun h => hw (h.perm hperm.symm)
    rw [Record.ofMembers?_of_not_wellNamed hw, Record.ofMembers?_of_not_wellNamed hw']

theorem Form.ReadsFields.leave_out (h : ReadsFields α names defaults)
    {ms : List (Option String × Json)} {name : String} {v : Json} (hv : (name, v) ∈ defaults)
    (hnew : some name ∉ ms.map Prod.fst) :
    (ofJson? (object (member name v :: ms)) : Option α) = ofJson? (object ms) := by
  obtain ⟨read, hread, hfills⟩ := h
  rw [hread, hread]
  show (Record.ofMembers? names (member name v :: ms)).bind read =
    (Record.ofMembers? names ms).bind read
  by_cases hw : WellNamed names ms
  · have hw' : WellNamed names (member name v :: ms) := (wellNamed_cons_iff hnew v).2 hw
    rw [Record.ofMembers?_of_wellNamed hw, Record.ofMembers?_of_wellNamed hw']
    exact (hfills _ _ (Record.fills_cons hv hnew)).symm
  · have hw' : ¬ WellNamed names (member name v :: ms) := fun h =>
      hw ((wellNamed_cons_iff hnew v).1 h)
    rw [Record.ofMembers?_of_not_wellNamed hw, Record.ofMembers?_of_not_wellNamed hw']

end Tenancy.Json
