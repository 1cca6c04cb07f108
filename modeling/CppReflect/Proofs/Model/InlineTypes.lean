import CppReflect.Proofs.Model.Told

/-!
# Types that are spelled inline

The text of a type that is made without functions, arrays and references ends where the name of a
declarator would stand. A sign can be written behind it, and what the text then denotes is made of
the type by this sign. The text of a function or an array ends behind the place of the declarator,
and so does that of a pointer to one.
-/

namespace CppReflect

open Spelling (Local Sound closesWithSuffix sigil opQuals print printOps)

namespace Spelling

variable {ops : List DeclaratorOp}

/-- The operators make pointers and pointers to members. -/
def Pointing (ops : List DeclaratorOp) : Prop :=
  ∀ o ∈ ops, o.isPrefix = true ∧ o.isReference = false

/-! ## The last character -/

theorem baseText_ends (base : String) (q : Quals) (x : String) :
    ∃ front, Model.baseText base q x = front ++ x := by
  unfold Model.baseText
  simp only
  split
  next hx => exact ⟨_, by rw [String.isEmpty_iff.mp hx, String.append_empty]⟩
  next =>
    split
    · exact ⟨_, rfl⟩
    · exact ⟨_, rfl⟩

theorem printOps_ends (h : ∀ o ∈ ops, o.isPrefix = true) (x : String) :
    ∃ front, printOps ops x = front ++ x := by
  induction ops with
  | nil => exact ⟨"", by rw [printOps, String.empty_append]⟩
  | cons o ops ih =>
      obtain ⟨ho, hops⟩ := List.forall_mem_cons.mp h
      obtain ⟨front, hfront⟩ := ih hops
      rw [printOps, if_pos ho, Model.operatorText]
      split
      · exact ⟨sigil o ++ front, by rw [hfront, String.append_assoc]⟩
      · exact ⟨_, by rw [hfront, ← String.append_assoc]⟩

theorem qualsText_getLast? (q : Quals) : (Model.qualsText q).toList.getLast? ≠ some '&' := by
  unfold Model.qualsText Quals.words
  cases q.contains .const <;> cases q.contains .volatile <;> cases q.contains .restrict <;>
    decide +kernel

theorem operatorText_getLast? {o : DeclaratorOp} (ho : o.isReference = false) :
    (Model.operatorText (sigil o) (opQuals o) "").toList ≠ [] ∧
      (Model.operatorText (sigil o) (opQuals o) "").toList.getLast? ≠ some '&' := by
  obtain ⟨front, hsigil⟩ := sigil_endsWith_star ho
  have hstar : (sigil o).toList.getLast? ≠ some '&' := by simp [hsigil]
  unfold Model.operatorText
  split
  · exact ⟨by simp [hsigil], by simpa using hstar⟩
  · have hends := getLast?_append_ne hstar (qualsText_getLast? (opQuals o))
    exact ⟨by simp [hsigil], by simpa using hends⟩

theorem Base.getLast?_ne {base : Base} (h : base.Sound Local) :
    base.text.toList.getLast? ≠ some '&' := by
  cases base with
  | void => decide
  | builtin b => cases b <;> decide
  | complex b => cases b <;> decide
  | name n => exact h.1.toOfWords.getLast?_ne

theorem baseText_getLast? {base : String} (h : base.toList.getLast? ≠ some '&') (q : Quals) :
    (Model.baseText base q "").toList.getLast? ≠ some '&' := by
  change (if q.isEmpty then base else Model.qualsText q ++ " " ++ base).toList.getLast? ≠ some '&'
  split
  · exact h
  · rw [String.toList_append]
    exact getLast?_append_ne (by simp) h

/-- A reference sign behind a type that is spelled so stands for itself. -/
theorem print_getLast? {base : Base} {q : Quals} (hbase : base.Sound Local) (h : Pointing ops) :
    (print (.mk base q ops) "").toList.getLast? ≠ some '&' := by
  rw [print]
  rcases List.eq_nil_or_concat ops with rfl | ⟨ops, o, rfl⟩
  · rw [printOps]
    exact baseText_getLast? (Base.getLast?_ne hbase) q
  · rw [List.concat_eq_append] at h ⊢
    obtain ⟨hops, ho⟩ := List.forall_mem_append.mp h
    obtain ⟨hsigil, hreference⟩ := ho o (List.mem_singleton_self o)
    have hopen : closesWithSuffix ops = false := by
      rw [closesWithSuffix, Option.any_eq_false]
      intro o' ho'
      simp [(hops o' (List.mem_of_getLast? ho')).1]
    rw [printOps_concat_sigil hsigil, hopen, if_neg (by simp)]
    -- what is printed ends with the last operator
    obtain ⟨front, hfront⟩ := printOps_ends (fun o' ho' => (hops o' ho').1)
      (Model.operatorText (sigil o) (opQuals o) "")
    obtain ⟨front', hfront'⟩ := baseText_ends base.text q
      (printOps ops (Model.operatorText (sigil o) (opQuals o) ""))
    obtain ⟨hne, hlast⟩ := operatorText_getLast? hreference
    rwa [hfront', hfront, String.toList_append, String.toList_append, ← List.append_assoc,
      List.getLast?_append_of_ne_nil _ hne]

end Spelling

namespace Model

variable {m scope : Model} {t : TypeId}

/-- The type is made by pointers over a base, and the names that are written for it mean in the
scope what is meant. -/
def Inline (m scope : Model) (t : TypeId) : Prop :=
  ∃ s, m.Tells scope s t ∧ Spelling.Pointing s.ops

theorem Inline.fronts (h : m.WellFormed) (ht : m.Inline scope t) :
    scope.Fronts root (m.typeText t) (m.canonTree t) := by
  obtain ⟨s, hs, hops⟩ := ht
  have htold := hs.told h
  refine ⟨?_, hs.denotes h⟩
  obtain ⟨base, quals, ops⟩ := s
  rw [typeText, htold.printed]
  exact ⟨_, _, _, .of_print (Spelling.sound_mono (fun _ _ => trivial) htold.sound) htold.tidy
    (Spelling.legible_of_local htold.sound trivial) fun o ho => (hops o ho).1⟩

theorem Inline.getLast?_ne (h : m.WellFormed) (ht : m.Inline scope t) :
    (m.typeText t).toList.getLast? ≠ some '&' := by
  obtain ⟨⟨base, quals, ops⟩, hs, hops⟩ := ht
  have htold := hs.told h
  rw [typeText, htold.printed]
  exact Spelling.print_getLast? htold.sound.1 hops

theorem Inline.not_isReference (h : m.WellFormed) (ht : m.Inline scope t) :
    (m.canonTree t).isReference = false := by
  obtain ⟨s, hs, hops⟩ := ht
  rw [← (hs.told h).reference, Spelling.closesWithReference, Option.any_eq_false]
  intro o ho
  simp [(hops o (List.mem_of_getLast? ho)).2]

end Model

end CppReflect
