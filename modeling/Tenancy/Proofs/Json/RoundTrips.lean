import Mathlib.Data.List.Nodup
import Tenancy.Exchange
import Tenancy.Proofs.Json.Fields
import Tenancy.Proofs.Json.Printing
import Tenancy.Proofs.Json.Reading

namespace Tenancy.Json

/-!
# Round trips — what is written as JSON is read back

* `LawfulForm` — a type whose JSON values are read back, with an instance for every type that has a
  form;
* `Form.Exchanges` — all that is promised of the texts of a type;
* `forms_exchange` — the forms of policies, and of what they are made of, keep the promise.
-/

/-- A JSON form that reads back what it writes. -/
class LawfulForm (α : Type) [Form α] : Prop where
  /-- The value is read back. -/
  ofJson?_toJson : ∀ a : α, Form.ofJson? (Form.toJson a) = some a

attribute [simp] LawfulForm.ofJson?_toJson

/-! ### Simple forms -/

instance : LawfulForm String := ⟨fun _ => rfl⟩

instance : LawfulForm Bool := ⟨fun _ => rfl⟩

instance : LawfulForm UInt64 := ⟨Numeral.uint64?_toNat⟩

instance : LawfulForm (Option String) where
  ofJson?_toJson
    | none => rfl
    | some _ => rfl

instance {α : Type} [Form α] [LawfulForm α] : LawfulForm (List α) where
  ofJson?_toJson as := by
    show (as.map Form.toJson).mapM Form.ofJson? = some as
    induction as with
    | nil => rfl
    | cons a as ih => simp [ih]

instance : LawfulForm Literal where
  ofJson?_toJson
    | .null => rfl
    | .bool _ => rfl
    | .int n => by
      show (Numeral.int64? n.toInt).map Literal.int = some (.int n)
      rw [Numeral.int64?_eq_some_iff.2 rfl]
      rfl
    | .text _ => rfl

instance : LawfulForm Tenant := ⟨fun _ => rfl⟩

instance : LawfulForm KeyType where
  ofJson?_toJson
    | .text => rfl
    | .integer => rfl

/-! ### Structures -/

namespace Record

/-- An object that names the fields of a structure, each of them once, gives all of them. -/
theorem of?_object_of_names {names : List String} {ms : List (Option String × Json)}
    (hms : ms.map Prod.fst = names.map some) (hnames : names.Nodup) :
    of? names (object ms) = some (ofMembers ms) := by
  refine ofMembers?_of_wellNamed ⟨fun m hm hnone => ?_, fun name _ => ?_⟩
  · have hmem : m.1 ∈ names.map some := hms ▸ List.mem_map_of_mem hm
    simp [hnone] at hmem
  · have hcount : ms.countP (fun m => m.1 = some name) = (names.map some).count (some name) := by
      rw [← hms, List.count, List.countP_map]
      exact List.countP_congr fun m _ => by simp
    rw [hcount]
    exact List.nodup_iff_count_le_one.1 (hnames.map fun _ _ => Option.some.inj) (some name)

end Record

instance : LawfulForm Relation where
  ofJson?_toJson r := by
    show (Record.of? _ (object _)).bind _ = some r
    rw [Record.of?_object_of_names rfl (by decide)]
    simp [Record.required, Record.optional]

instance : LawfulForm Partition where
  ofJson?_toJson p := by
    show (Record.of? _ (object _)).bind _ = some p
    rw [Record.of?_object_of_names rfl (by decide)]
    simp [Record.required, Record.withDefault]

instance : LawfulForm Policy.Table where
  ofJson?_toJson t := by
    show (Record.of? _ (object _)).bind _ = some t
    rw [Record.of?_object_of_names rfl (by decide)]
    simp [Record.required, Record.withDefault]

instance : LawfulForm Policy where
  ofJson?_toJson p := by
    show (Record.of? _ (object _)).bind _ = some p
    rw [Record.of?_object_of_names rfl (by decide)]
    simp [Record.withDefault]

instance : LawfulForm Lookup where
  ofJson?_toJson k := by
    show (Record.of? _ (object _)).bind _ = some k
    rw [Record.of?_object_of_names rfl (by decide)]
    simp [Record.required]

instance : LawfulForm PlanCache.Counts where
  ofJson?_toJson n := by
    show (Record.of? _ (object _)).bind _ = some n
    rw [Record.of?_object_of_names rfl (by decide)]
    simp [Record.required]

/-! ### Fields -/

theorem readsFields_relation :
    Form.ReadsFields Relation ["table_name", "alias"] [("alias", null)] := by
  refine ⟨_, fun _ => rfl, fun r r' h => ?_⟩
  rw [h.required (by simp) (by simp),
    h.optional (by simp) (by simp)]

theorem readsFields_partition :
    Form.ReadsFields Partition ["table", "partition_key", "key_type"]
      [("key_type", text "text")] := by
  refine ⟨_, fun _ => rfl, fun r r' h => ?_⟩
  rw [h.required (by simp) (by simp),
    h.required (by simp) (by simp),
    h.withDefault (by simp) (by simp; rfl)]

theorem readsFields_table :
    Form.ReadsFields Policy.Table ["table", "partition_key", "key_type"]
      [("partition_key", null), ("key_type", text "text")] := by
  refine ⟨_, fun _ => rfl, fun r r' h => ?_⟩
  rw [h.required (by simp) (by simp),
    h.withDefault (by simp) (by simp; rfl),
    h.withDefault (by simp) (by simp; rfl)]

theorem readsFields_policy :
    Form.ReadsFields Policy
      ["default_partition_key", "write_only", "max_tenant_id_length", "tenant_id_pattern", "tables"]
      [("default_partition_key", text "tenant_id"), ("write_only", bool false),
        ("max_tenant_id_length", int 64), ("tenant_id_pattern", text "^[a-zA-Z0-9_\\-/]+$"),
        ("tables", array [])] := by
  refine ⟨_, fun _ => rfl, fun r r' h => ?_⟩
  dsimp only
  rw [h.withDefault (by simp) (by simp; rfl),
    h.withDefault (by simp) (by simp; rfl),
    h.withDefault (by simp) (by simp; rfl),
    h.withDefault (by simp) (by simp; rfl),
    h.withDefault (by simp) (by simp; rfl)]

theorem readsFields_lookup : Form.ReadsFields Lookup ["table", "columns"] [] := by
  refine ⟨_, fun _ => rfl, fun r r' h => ?_⟩
  rw [h.required (by simp) (by simp),
    h.required (by simp) (by simp)]

theorem readsFields_counts :
    Form.ReadsFields PlanCache.Counts ["hits", "misses", "bypassed", "entries"] [] := by
  refine ⟨_, fun _ => rfl, fun r r' h => ?_⟩
  rw [h.required (by simp) (by simp),
    h.required (by simp) (by simp),
    h.required (by simp) (by simp),
    h.required (by simp) (by simp)]

/-- No object of two members or more is a key type. -/
theorem ofJson?_keyType_cons_cons (m m' : Option String × Json)
    (ms : List (Option String × Json)) :
    (Form.ofJson? (object (m :: m' :: ms)) : Option KeyType) = none := by
  obtain ⟨k, v⟩ := m
  cases v <;> rfl

theorem ofJson?_keyType_perm {ms ms' : List (Option String × Json)} (h : ms.Perm ms') :
    (Form.ofJson? (object ms) : Option KeyType) = Form.ofJson? (object ms') := by
  -- Orders differ only where there are two members, and there is no key type to be read then.
  match ms, ms' with
  | [], ms' => rw [List.nil_perm.1 h]
  | [m], ms' => rw [List.singleton_perm.1 h]
  | _ :: _ :: _, [] => exact absurd h.length_eq (by simp)
  | _ :: _ :: _, [_] => exact absurd h.length_eq (by simp)
  | _ :: _ :: _, _ :: _ :: _ => rw [ofJson?_keyType_cons_cons, ofJson?_keyType_cons_cons]

/-! ### Texts -/

namespace Form

/-- All that is promised of the texts of a type of which objects may leave out the `defaults`. -/
structure Exchanges (α : Type) [Form α] (defaults : List (String × Json)) : Prop where
  /-- What is written is read back. -/
  readBack : ∀ a : α, ofText? α (toText a) = some a
  /-- What is read from any text is read again from the text that it is then written as. -/
  settled : ∀ s (a : α), ofText? α s = some a → ofText? α (toText a) = some a
  /-- A text is read as a value exactly if it spells a JSON value that is read as this value. -/
  anySpelling : ∀ s (a : α), ofText? α s = some a ↔ ∃ v, Padded s.toList v ∧ ofJson? v = some a
  /-- The members of an object may stand in any order. -/
  anyOrder : ∀ ms ms', ms.Perm ms' →
    (ofJson? (object ms) : Option α) = ofJson? (object ms')
  /-- A member that has its default may be left out. -/
  leftOut : ∀ ms name v, (name, v) ∈ defaults → some name ∉ ms.map Prod.fst →
    (ofJson? (object (member name v :: ms)) : Option α) = ofJson? (object ms)

variable {α : Type} [Form α]

theorem ofText?_eq_some_iff {s : String} {a : α} :
    ofText? α s = some a ↔ ∃ v, Padded s.toList v ∧ ofJson? v = some a := by
  unfold ofText?
  rw [Option.bind_eq_some_iff]
  simp only [parse_eq_some_iff]

variable [LawfulForm α]

theorem ofText?_toText (a : α) : ofText? α (toText a) = some a := by
  unfold ofText? toText
  rw [parse_print]
  exact LawfulForm.ofJson?_toJson a

theorem exchanges_of {defaults : List (String × Json)}
    (horder : ∀ ms ms', ms.Perm ms' →
      (ofJson? (object ms) : Option α) = ofJson? (object ms'))
    (hleft : ∀ ms name v, (name, v) ∈ defaults → some name ∉ ms.map Prod.fst →
      (ofJson? (object (member name v :: ms)) : Option α) = ofJson? (object ms)) :
    Exchanges α defaults where
  readBack := ofText?_toText
  settled _ a _ := ofText?_toText a
  anySpelling _ _ := ofText?_eq_some_iff
  anyOrder := horder
  leftOut := hleft

theorem ReadsFields.exchanges {names : List String} {defaults : List (String × Json)}
    (h : ReadsFields α names defaults) : Exchanges α defaults :=
  exchanges_of (fun _ _ => h.perm) (fun _ _ _ => h.leave_out)

end Form

/-- **What is written as JSON is read back.** A value of one of these types is read back from the
text that it is written as. It is also read from every other text that means the same: with any
blanks and escapes, with the members of an object in any order, and without those that have their
default. What is read from a text is settled: it is read once more from the text that it is then
written as. -/
theorem forms_exchange :
    Form.Exchanges Literal [] ∧
    Form.Exchanges Relation [("alias", null)] ∧
    Form.Exchanges Tenant [] ∧
    Form.Exchanges KeyType [] ∧
    Form.Exchanges Partition [("key_type", text "text")] ∧
    Form.Exchanges Policy.Table [("partition_key", null), ("key_type", text "text")] ∧
    Form.Exchanges Policy
      [("default_partition_key", text "tenant_id"), ("write_only", bool false),
        ("max_tenant_id_length", int 64), ("tenant_id_pattern", text "^[a-zA-Z0-9_\\-/]+$"),
        ("tables", array [])] ∧
    Form.Exchanges Lookup [] ∧
    Form.Exchanges PlanCache.Counts [] ∧
    ∀ p : Policy, Policy.parse (Form.toText p) = .ok p := by
  refine ⟨Form.exchanges_of (fun _ _ _ => rfl) (fun _ _ _ => nofun),
    readsFields_relation.exchanges,
    Form.exchanges_of (fun _ _ _ => rfl) (fun _ _ _ => nofun),
    Form.exchanges_of (fun _ _ => ofJson?_keyType_perm) (fun _ _ _ => nofun),
    readsFields_partition.exchanges, readsFields_table.exchanges, readsFields_policy.exchanges,
    readsFields_lookup.exchanges, readsFields_counts.exchanges, fun p => ?_⟩
  unfold Policy.parse
  rw [Form.ofText?_toText p]

end Tenancy.Json
