namespace Tenancy

/-!
# Logged values — a result together with what was written on the way to it

* `Logged ω α` — a value and the entries written while it was computed, oldest first;
* `Logged.write` — writes one entry;
* `Logged.mapEntries` — changes the entries and keeps the value.

Every operation that reports to the audit log is a pure function into this type, so a law about
its answer is a law about `value` and a law about its report is a law about `entries`.
-/

/-- A value and the entries written while it was computed, oldest first. -/
structure Logged (ω α : Type) where
  /-- What was written, oldest first. -/
  entries : List ω := []
  /-- What was computed. -/
  value : α
  deriving Repr, DecidableEq

namespace Logged

variable {ω ω' α β : Type}

instance : Monad (Logged ω) where
  pure a := ⟨[], a⟩
  bind x f := ⟨x.entries ++ (f x.value).entries, (f x.value).value⟩

@[simp] theorem value_pure (a : α) : (pure a : Logged ω α).value = a := rfl

@[simp] theorem entries_pure (a : α) : (pure a : Logged ω α).entries = [] := rfl

@[simp] theorem value_bind (x : Logged ω α) (f : α → Logged ω β) :
    (x >>= f).value = (f x.value).value := rfl

@[simp] theorem entries_bind (x : Logged ω α) (f : α → Logged ω β) :
    (x >>= f).entries = x.entries ++ (f x.value).entries := rfl

@[simp] theorem value_map (f : α → β) (x : Logged ω α) : (f <$> x).value = f x.value := rfl

@[simp] theorem entries_map (f : α → β) (x : Logged ω α) : (f <$> x).entries = x.entries := by
  show x.entries ++ [] = x.entries
  simp

instance : LawfulMonad (Logged ω) :=
  LawfulMonad.mk' _
    (fun x => by
      show (⟨x.entries ++ [], x.value⟩ : Logged ω _) = x
      simp)
    (fun _ _ => rfl)
    (fun x f g =>
      congrArg (fun es => (⟨es, (g (f x.value).value).value⟩ : Logged ω _))
        (List.append_assoc x.entries (f x.value).entries (g (f x.value).value).entries))

/-- Writes one entry. -/
def write (entry : ω) : Logged ω Unit := ⟨[entry], ()⟩

@[simp] theorem entries_write (entry : ω) : (write entry).entries = [entry] := rfl

/-- Writes several entries. -/
def writeAll (entries : List ω) : Logged ω Unit := ⟨entries, ()⟩

@[simp] theorem entries_writeAll (entries : List ω) : (writeAll entries).entries = entries := rfl

/-- Changes every entry and keeps the value. -/
def mapEntries (f : ω → ω') (x : Logged ω α) : Logged ω' α := ⟨x.entries.map f, x.value⟩

@[simp] theorem value_mapEntries (f : ω → ω') (x : Logged ω α) :
    (x.mapEntries f).value = x.value := rfl

@[simp] theorem entries_mapEntries (f : ω → ω') (x : Logged ω α) :
    (x.mapEntries f).entries = x.entries.map f := rfl

end Logged

end Tenancy
