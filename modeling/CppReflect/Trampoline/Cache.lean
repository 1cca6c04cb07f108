import CppReflect.Types

/-!
# Compiled trampolines

Compiled trampolines are kept by the interpreter that compiled them and the declaration they call.
What is kept for a key stays: a later insertion under the same key is dropped. Entries go only with
their interpreter.
-/

namespace CppReflect

namespace Trampoline

/-- The interpreter that compiled a trampoline and the declaration that it calls. -/
structure CacheKey where
  service : Nat
  decl : DeclId
deriving DecidableEq, Inhabited, Repr

/-- What was compiled for each key, the first entry first. -/
structure Cache (α : Type) where
  entries : List (CacheKey × α)
deriving Inhabited, Repr

namespace Cache

variable {α : Type}

/-- A cache that holds nothing. -/
def empty : Cache α := ⟨[]⟩

/-- What is kept for a key. -/
def get? (c : Cache α) (key : CacheKey) : Option α := c.entries.lookup key

/-- Keeps an entry unless there is one for the key, and tells which entry is kept. -/
def insert (c : Cache α) (key : CacheKey) (entry : α) : α × Cache α :=
  match c.get? key with
  | some kept => (kept, c)
  | none => (entry, ⟨c.entries ++ [(key, entry)]⟩)

/-- Drops the entries of an interpreter. -/
def forget (c : Cache α) (service : Nat) : Cache α :=
  ⟨c.entries.filter fun e => e.1.service != service⟩

/-- The number of entries. -/
def size (c : Cache α) : Nat := c.entries.length

/-- The cache holds nothing. -/
def isEmpty (c : Cache α) : Bool := c.size == 0

/-- What an insertion tells is what is kept afterwards. -/
theorem get?_insert_self (c : Cache α) (key : CacheKey) (entry : α) :
    (c.insert key entry).2.get? key = some (c.insert key entry).1 := by
  unfold insert
  split
  next kept h => exact h
  next h =>
    unfold get? at h
    simp [get?, List.lookup_append, h]

/-- An insertion under a free key adds to what is kept. -/
theorem get?_insert_of_free {c : Cache α} {key : CacheKey} (hfree : c.get? key = none) (entry : α)
    (other : CacheKey) : (c.insert key entry).2.get? other =
      (c.get? other).or (if other = key then some entry else none) := by
  unfold insert
  rw [hfree]
  simp only [get?, List.lookup_append]
  by_cases hother : other = key
  · simp [hother]
  · simp [List.lookup_cons, beq_false_of_ne hother, hother]

/-- What is kept for another interpreter than the one that is forgotten stays. -/
theorem get?_forget (c : Cache α) (service : Nat) (key : CacheKey) :
    (c.forget service).get? key = if key.service = service then none else c.get? key := by
  obtain ⟨entries⟩ := c
  simp only [forget, get?]
  induction entries with
  | nil => simp
  | cons e entries ih =>
      obtain ⟨k, entry⟩ := e
      rw [List.filter_cons, List.lookup_cons]
      by_cases hkey : key = k
      · subst hkey
        by_cases hservice : key.service = service
        · simpa [hservice] using ih
        · simp [hservice]
      · rw [beq_false_of_ne hkey, ← ih]
        split
        · simp [List.lookup_cons, beq_false_of_ne hkey]
        · rfl

/-- A second insertion under a key changes nothing. -/
theorem insert_of_get? {c : Cache α} {key : CacheKey} {kept : α} (h : c.get? key = some kept)
    (entry : α) : c.insert key entry = (kept, c) := by
  simp [insert, h]

end Cache

end Trampoline

end CppReflect
