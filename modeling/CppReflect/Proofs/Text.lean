import CppReflect.Text.Basic
import Mathlib.Data.List.TakeWhile

/-!
# Trimmed, joined and cut texts

A text is what is left of it when it is trimmed, with blanks on both sides. Trimming takes away
further blanks in the same way.
-/

namespace CppReflect.Text

/-- Nothing but blanks. -/
def IsBlank (cs : List Char) : Prop := ∀ c ∈ cs, isSpace c = true

theorem IsBlank.reverse {cs : List Char} (h : IsBlank cs) : IsBlank cs.reverse :=
  fun c hc => h c (List.mem_reverse.mp hc)

theorem exists_blank_trimLeft (cs : List Char) :
    ∃ blanks, IsBlank blanks ∧ blanks ++ trimLeft cs = cs :=
  ⟨cs.takeWhile isSpace, fun _ hc => List.mem_takeWhile_imp hc, List.takeWhile_append_dropWhile⟩

theorem exists_trimRight_blank (cs : List Char) :
    ∃ blanks, IsBlank blanks ∧ trimRight cs ++ blanks = cs := by
  obtain ⟨blanks, hblanks, hsplit⟩ := exists_blank_trimLeft cs.reverse
  refine ⟨blanks.reverse, hblanks.reverse, ?_⟩
  rw [trimRight, ← List.reverse_append]
  exact List.reverse_eq_iff.mpr hsplit

variable {blanks : List Char}

theorem trim_blank_append (h : IsBlank blanks) (cs : List Char) : trim (blanks ++ cs) = trim cs := by
  rw [trim, trimLeft, List.dropWhile_append_of_pos h, trim, trimLeft]

theorem trimRight_append_blank (h : IsBlank blanks) (cs : List Char) :
    trimRight (cs ++ blanks) = trimRight cs := by
  rw [trimRight, List.reverse_append, List.dropWhile_append_of_pos h.reverse, trimRight]

theorem trim_append_blank (h : IsBlank blanks) (cs : List Char) : trim (cs ++ blanks) = trim cs := by
  have hblanks : trimLeft blanks = [] := List.dropWhile_eq_nil_iff.mpr h
  unfold trim
  rw [trimLeft, List.dropWhile_append]
  split
  next hempty =>
    have hcs : trimLeft cs = [] := List.isEmpty_iff.mp hempty
    rw [hcs]
    exact congrArg _ hblanks
  next => exact trimRight_append_blank h _

theorem joined_cons {sep s : String} {rest : List String} (h : rest ≠ []) :
    joined sep (s :: rest) = s ++ sep ++ joined sep rest := by
  cases rest with
  | nil => exact absurd rfl h
  | cons => rfl

/-- What follows the start of a text is all the rest of it. -/
theorem afterStart?_eq_some_iff {α : Type} [DecidableEq α] {start cs rest : List α} :
    afterStart? start cs = some rest ↔ cs = start ++ rest := by
  induction start generalizing cs with
  | nil => simp [afterStart?]
  | cons s start ih =>
      cases cs with
      | nil => simp [afterStart?]
      | cons c cs =>
          rw [afterStart?, List.cons_append, List.cons.injEq]
          split
          next heq => simp [ih, heq]
          next hne => simp [Ne.symm hne]

end CppReflect.Text
