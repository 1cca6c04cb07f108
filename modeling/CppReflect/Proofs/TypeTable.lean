import CppReflect.Types

/-!
# The type table as a map

In a table without repetitions a type is found exactly at its own place, and putting a type there
leaves every other place as it is.
-/

namespace CppReflect.TypeTable

variable {t : TypeTable} {n : TypeNode} {id : TypeId}

theorem get?_eq_toList (t : TypeTable) (id : TypeId) : t.get? id = t.nodes.toList[id.index]? := by
  simp [get?]

theorem find?_eq_none_iff : t.find? n = none ↔ n ∉ t.nodes.toList := by
  simp [find?]

theorem get?_of_find?_eq_some (h : t.find? n = some id) : t.get? id = some n := by
  rcases t with ⟨⟨nodes⟩⟩
  simp only [find?, List.idxOf?_toArray, Option.map_eq_some_iff, List.idxOf?_eq_some_iff] at h
  obtain ⟨i, ⟨hi, hget, _⟩, rfl⟩ := h
  simp [get?, List.getElem?_eq_getElem hi, hget]

/-- The map from types to their places inverts the table. -/
theorem find?_eq_some_iff (hnodup : t.nodes.toList.Nodup) :
    t.find? n = some id ↔ t.get? id = some n := by
  refine ⟨get?_of_find?_eq_some, fun hget => ?_⟩
  rw [get?_eq_toList] at hget
  cases hfind : t.find? n with
  | none => exact absurd (List.mem_of_getElem? hget) (find?_eq_none_iff.mp hfind)
  | some found =>
      have hfound := get?_of_find?_eq_some hfind
      rw [get?_eq_toList] at hfound
      obtain ⟨hlt, _⟩ := List.getElem?_eq_some_iff.mp hget
      have hindex : found.index = id.index :=
        (List.getElem?_inj (List.getElem?_eq_some_iff.mp hfound).1 hnodup).mp
          (hfound.trans hget.symm)
      cases found
      cases id
      simp_all

theorem intern_of_find? (h : t.find? n = some id) : t.intern n = (id, t) := by
  simp [intern, h]

theorem intern_of_not_mem (h : n ∉ t.nodes.toList) :
    t.intern n = (⟨t.size⟩, ⟨t.nodes.push n⟩) := by
  simp [intern, find?_eq_none_iff.mpr h]

theorem get?_push_of_get? {m : TypeNode} (h : t.get? id = some m) :
    (⟨t.nodes.push n⟩ : TypeTable).get? id = some m := by
  obtain ⟨hlt, _⟩ := Array.getElem?_eq_some_iff.mp h
  rw [← h]
  simp [get?, Array.getElem?_push, Nat.ne_of_lt hlt]

/-- What a type behind the old ones is, is what was put there. -/
theorem get?_push {m : TypeNode} (h : (⟨t.nodes.push n⟩ : TypeTable).get? id = some m) :
    t.get? id = some m ∨ id.index = t.size ∧ m = n := by
  simp only [get?, Array.getElem?_push] at h
  split at h
  next heq => exact Or.inr ⟨heq, (Option.some.inj h).symm⟩
  next => exact Or.inl h

/-- A type is at the place that interning it answers with. -/
theorem get?_intern (t : TypeTable) (n : TypeNode) :
    (t.intern n).2.get? (t.intern n).1 = some n := by
  cases hfind : t.find? n with
  | none =>
      rw [intern_of_not_mem (find?_eq_none_iff.mp hfind)]
      simp [get?, size]
  | some id =>
      rw [intern_of_find? hfind]
      exact get?_of_find?_eq_some hfind

theorem get?_intern_of_get? {m : TypeNode} (h : t.get? id = some m) :
    (t.intern n).2.get? id = some m := by
  cases hfind : t.find? n with
  | none =>
      rw [intern_of_not_mem (find?_eq_none_iff.mp hfind)]
      exact get?_push_of_get? h
  | some found =>
      rw [intern_of_find? hfind]
      exact h

/-- A type that has a place already gets that one, and the table stays as it is. -/
theorem intern_of_get? (hnodup : t.nodes.toList.Nodup) (h : t.get? id = some n) :
    t.intern n = (id, t) :=
  intern_of_find? ((find?_eq_some_iff hnodup).mpr h)

end CppReflect.TypeTable
