import Tenancy.Partition
import Tenancy.Proofs.Numeral.Spelling

namespace Tenancy.Partition

/-!
# Key values — what a partition key is compared with

* `keyValue_eq_int_iff` — an integer key is compared with an integer exactly if the id is one of its
  spellings;
* `keyValue_eq_text_iff` — in every other case a key is compared with the id;
* `keyValue_eq_keyValue_iff` — when one key has one value for two ids;
* `keyValue_spells_id` — the three together, and the ids that are made from integers.
-/

open Numeral (Spelling int64?_eq_some_iff signed?_eq_some_iff)

variable {p : Partition} {t : Tenant} {n : Int64}

/-- The id is read as an integer of 64 bits exactly if it spells one. -/
theorem read_id_iff {s : String} :
    (Numeral.signed? s.toList).bind Numeral.int64? = some n ↔ Spelling s.toList n.toInt := by
  rw [← signed?_eq_some_iff, Option.bind_eq_some_iff]
  constructor
  · rintro ⟨z, hz, hfits⟩
    rw [hz, int64?_eq_some_iff.1 hfits]
  · intro h
    exact ⟨n.toInt, h, int64?_eq_some_iff.2 rfl⟩

theorem keyValue_of_text (h : p.keyType = .text) : p.keyValue t = .text t.id := by
  rw [keyValue, h]

theorem keyValue_of_spelling (h : p.keyType = .integer) (ht : Spelling t.id.toList n.toInt) :
    p.keyValue t = .int n := by
  rw [keyValue, h]
  simp only [read_id_iff.2 ht]

theorem keyValue_of_forall_not_spelling (h : p.keyType = .integer)
    (ht : ∀ n : Int64, ¬ Spelling t.id.toList n.toInt) : p.keyValue t = .text t.id := by
  have hnone : (Numeral.signed? t.id.toList).bind Numeral.int64? = none :=
    Option.eq_none_iff_forall_ne_some.2 fun n hn => ht n (read_id_iff.1 hn)
  rw [keyValue, h]
  simp only [hnone]

/-- A key is compared with an integer only if it is an integer key, and the id spells this one. -/
theorem keyValue_eq_int_iff :
    p.keyValue t = .int n ↔ p.keyType = .integer ∧ Spelling t.id.toList n.toInt := by
  constructor
  · intro h
    cases hkey : p.keyType with
    | text =>
      rw [keyValue_of_text hkey] at h
      exact nomatch h
    | integer =>
      refine ⟨rfl, ?_⟩
      by_cases hspells : ∃ m : Int64, Spelling t.id.toList m.toInt
      · obtain ⟨m, hm⟩ := hspells
        rw [keyValue_of_spelling hkey hm] at h
        obtain rfl := Literal.int.inj h
        exact hm
      · rw [keyValue_of_forall_not_spelling hkey (not_exists.1 hspells)] at h
        exact nomatch h
  · rintro ⟨hkey, hspells⟩
    exact keyValue_of_spelling hkey hspells

/-- In every other case it is compared with the id as it is. -/
theorem keyValue_eq_text_iff : p.keyValue t = .text t.id ↔
    ¬ (p.keyType = .integer ∧ ∃ n : Int64, Spelling t.id.toList n.toInt) := by
  constructor
  · rintro h ⟨hkey, n, hspells⟩
    rw [keyValue_of_spelling hkey hspells] at h
    exact nomatch h
  · intro h
    cases hkey : p.keyType with
    | text => exact keyValue_of_text hkey
    | integer => exact keyValue_of_forall_not_spelling hkey fun n hn => h ⟨hkey, n, hn⟩

/-- Two ids have one key value only if they spell one integer, or are the same. -/
theorem keyValue_eq_keyValue_iff {s t : Tenant} : p.keyValue s = p.keyValue t ↔
    s = t ∨ p.keyType = .integer ∧
      ∃ n : Int64, Spelling s.id.toList n.toInt ∧ Spelling t.id.toList n.toInt := by
  constructor
  · intro h
    by_cases hs : p.keyType = .integer ∧ ∃ n : Int64, Spelling s.id.toList n.toInt
    · obtain ⟨hkey, n, hn⟩ := hs
      rw [keyValue_of_spelling hkey hn, eq_comm, keyValue_eq_int_iff] at h
      exact .inr ⟨hkey, n, hn, h.2⟩
    · by_cases ht : p.keyType = .integer ∧ ∃ n : Int64, Spelling t.id.toList n.toInt
      · obtain ⟨hkey, n, hn⟩ := ht
        rw [keyValue_of_spelling hkey hn, keyValue_eq_int_iff] at h
        exact absurd ⟨hkey, n, h.2⟩ hs
      · -- Neither is an integer, so the ids themselves are compared.
        rw [keyValue_eq_text_iff.2 hs, keyValue_eq_text_iff.2 ht] at h
        obtain ⟨s⟩ := s
        exact .inl (congrArg Tenant.mk (Literal.text.inj h))
  · rintro (rfl | ⟨hkey, n, hs, ht⟩)
    · rfl
    · rw [keyValue_of_spelling hkey hs, keyValue_of_spelling hkey ht]

/-- **A partition key is compared with the integer that the id spells, or with the id itself.** An
integer key is compared with `n` for the tenant made from `n`, and in general with `n` exactly if
the id is one of the spellings of `n`; if it spells no integer of 64 bits, the key is compared with
the id, unchanged. A text key is always compared with the id. So of two different ids one key has one
value only if it is an integer key and both spell the same integer. -/
theorem keyValue_spells_id (table column : String) :
    (∀ n : Int64, (Partition.mk table column .integer).keyValue (.ofInt n) = .int n) ∧
    (∀ (s : String) (n : Int64), (Partition.mk table column .integer).keyValue ⟨s⟩ = .int n ↔
      Spelling s.toList n.toInt) ∧
    (∀ s : String, (Partition.mk table column .integer).keyValue ⟨s⟩ = .text s ↔
      ¬ ∃ n : Int64, Spelling s.toList n.toInt) ∧
    (∀ s : String, (Partition.mk table column .text).keyValue ⟨s⟩ = .text s) ∧
    ∀ (k : KeyType) (s t : String),
      (Partition.mk table column k).keyValue ⟨s⟩ = (Partition.mk table column k).keyValue ⟨t⟩ ↔
        s = t ∨ k = .integer ∧
          ∃ n : Int64, Spelling s.toList n.toInt ∧ Spelling t.toList n.toInt := by
  refine ⟨fun n => ?_, fun s n => ?_, fun s => ?_, fun s => ?_, fun k s t => ?_⟩
  · exact keyValue_of_spelling rfl (Numeral.spelling_toString n.toInt)
  · exact keyValue_eq_int_iff.trans (and_iff_right rfl)
  · exact keyValue_eq_text_iff.trans (not_congr (and_iff_right rfl))
  · exact keyValue_of_text rfl
  · rw [keyValue_eq_keyValue_iff, Tenant.mk.injEq]

-- There is one negative integer more than there are positive ones.
example : (Partition.mk "accounts" "owner" .integer).keyValue ⟨"-9223372036854775808"⟩
    = .int Int64.minValue := by decide

example : (Partition.mk "accounts" "owner" .integer).keyValue ⟨"9223372036854775808"⟩
    = .text "9223372036854775808" := by decide

end Tenancy.Partition
