import CppReflect.Session.Basic
import Mathlib.Data.List.Basic

/-!
# What is registered

A registry is told by the numbers under which something is registered and by the number of the
active one. Each change of a registry is told by what it does to them. What is asked of a session
goes to what is registered under the active number.
-/

namespace CppReflect

namespace Registry

variable {α : Type} {r : Registry α} {n k : Nat} {a : α}

/-- The numbers under which something is registered, in the order of registration. -/
def numbers (r : Registry α) : List Nat := r.entries.map Prod.fst

/-- The registry once what has a number is taken out: the latest one that is left is active. -/
def without (r : Registry α) (n : Nat) : Registry α :=
  { r with
    entries := r.entries.filter fun e => e.1 != n
    active := ((r.entries.filter fun e => e.1 != n).getLast?).map Prod.fst }

/-! ## Look-ups -/

theorem get?_isSome_iff : (r.get? n).isSome ↔ n ∈ r.numbers := by
  rw [get?, List.lookup_isSome_iff, numbers, List.mem_map]
  exact exists_congr fun e => and_congr_right fun _ => beq_iff_eq.trans eq_comm

theorem get?_eq_none_iff : r.get? n = none ↔ n ∉ r.numbers := by
  rw [← get?_isSome_iff]
  cases r.get? n <;> simp

theorem mem_numbers_of_get? (h : r.get? n = some a) : n ∈ r.numbers := by
  rw [← get?_isSome_iff, h]
  rfl

theorem active?_eq_some_iff : r.active? = some (n, a) ↔ r.active = some n ∧ r.get? n = some a := by
  simp only [active?, Option.bind_eq_some_iff, Option.map_eq_some_iff, Prod.mk.injEq]
  constructor
  · rintro ⟨k, hactive, b, hget, rfl, rfl⟩
    exact ⟨hactive, hget⟩
  · rintro ⟨hactive, hget⟩
    exact ⟨n, hactive, a, hget, rfl, rfl⟩

/-! ## Registering -/

@[simp] theorem numbers_register : (r.register a).numbers = r.numbers ++ [r.next] := by
  simp [numbers, register]

@[simp] theorem active_register : (r.register a).active = some r.next := rfl

@[simp] theorem next_register : (r.register a).next = r.next + 1 := rfl

/-! ## Replacing -/

@[simp] theorem numbers_replace : (r.replace k a).numbers = r.numbers := by
  simp only [numbers, replace, List.map_map]
  refine List.map_congr_left fun e _ => ?_
  by_cases he : e.1 = k
  · simp [he]
  · simp [he]

@[simp] theorem active_replace : (r.replace k a).active = r.active := rfl

@[simp] theorem next_replace : (r.replace k a).next = r.next := rfl

/-- Only what is replaced is another one afterwards. -/
theorem get?_replace :
    (r.replace k a).get? n = if n = k then (r.get? n).map fun _ => a else r.get? n := by
  simp only [get?, replace]
  induction r.entries with
  | nil => simp
  | cons e entries ih =>
      obtain ⟨m, b⟩ := e
      rw [List.map_cons]
      by_cases hn : n = m
      · subst hn
        by_cases hk : n = k <;> simp [hk]
      · by_cases hk : m = k
        · have hne : n ≠ k := fun h => hn (h.trans hk.symm)
          simpa [hk, hne, List.lookup_cons, beq_false_of_ne hne] using ih
        · simpa [hk, hn, List.lookup_cons, beq_false_of_ne hn] using ih

/-! ## Activating and deleting -/

/-- What is registered can be made active, and nothing else. -/
theorem activate?_eq :
    r.activate? n = if n ∈ r.numbers then some { r with active := some n } else none := by
  by_cases hn : n ∈ r.numbers
  · obtain ⟨b, hget⟩ := Option.isSome_iff_exists.mp (get?_isSome_iff.mpr hn)
    simp [activate?, hget, hn]
  · simp [activate?, get?_eq_none_iff.mpr hn, hn]

/-- What is registered can be deleted, and nothing else. If no number is given it is the active
one. -/
theorem delete?_eq (number : Option Nat) :
    r.delete? number = (number.or r.active).bind fun n =>
      if n ∈ r.numbers then some (n, r.without n) else none := by
  unfold delete?
  cases number.or r.active with
  | none => rfl
  | some n =>
      by_cases hn : n ∈ r.numbers
      · obtain ⟨b, hget⟩ := Option.isSome_iff_exists.mp (get?_isSome_iff.mpr hn)
        simp [hget, hn, without]
      · simp [get?_eq_none_iff.mpr hn, hn]

theorem eq_of_activate? {r' : Registry α} (h : r.activate? n = some r') :
    r' = { r with active := some n } := by
  rw [activate?_eq] at h
  split at h
  next => exact (Option.some.inj h).symm
  next => cases h

theorem eq_of_delete? {number : Option Nat} {r' : Registry α}
    (h : r.delete? number = some (n, r')) : n ∈ r.numbers ∧ r' = r.without n := by
  rw [delete?_eq, Option.bind_eq_some_iff] at h
  obtain ⟨k, -, h⟩ := h
  split at h
  next hk =>
    cases h
    exact ⟨hk, rfl⟩
  next => cases h

@[simp] theorem numbers_without : (r.without n).numbers = r.numbers.filter (· != n) := by
  simp only [numbers, without, List.filter_map]
  rfl

/-- The latest one that is left is active. -/
@[simp] theorem active_without : (r.without n).active = (r.without n).numbers.getLast? := by
  simp only [numbers, without, List.getLast?_map]

@[simp] theorem next_without : (r.without n).next = r.next := rfl

end Registry

namespace Session

variable {α : Type} {s : Session} {service : Nat} {interpreter : Interpreter}

/-- A session forgets the trampolines of what its registry deletes. -/
theorem run_deleteInterpreter (s : Session) (number : Option Nat) :
    (deleteInterpreter number).run s =
      match s.registry.delete? number with
      | some (n, registry) => (true, { s with registry, engine := s.engine.forget n })
      | none => (false, s) := rfl

/-- The engine works for the active interpreter. -/
theorem withEngine_of_active (hactive : s.registry.active? = some (service, interpreter))
    (x : StateM (Trampoline.Workshop MachineCode) α) :
    (withEngine x).run s =
      let done := x.run { engine := s.engine, service, bench := { interpreter, host := s.host } }
      (some done.1, s.putBack done.2) := by
  simp only [withEngine, StateT.run_modifyGet, workshop?, hactive, Option.map_some]
  rfl

/-- The active interpreter does the work, and the engine stays as it is. -/
theorem withBench_of_active (hactive : s.registry.active? = some (service, interpreter))
    (x : StateM Workbench α) :
    (withBench x).run s =
      let done := x.run { interpreter, host := s.host }
      (some done.1, s.putBack { engine := s.engine, service, bench := done.2 }) := by
  rw [withBench, withEngine_of_active hactive]
  rfl

/-- Without an active interpreter nothing is done. -/
theorem withEngine_of_vacant (hvacant : s.registry.active? = none)
    (x : StateM (Trampoline.Workshop MachineCode) α) : (withEngine x).run s = (none, s) := by
  simp only [withEngine, StateT.run_modifyGet, workshop?, hvacant, Option.map_none]
  rfl

end Session

end CppReflect
