import CppReflect.Proofs.Spelling.Legible

/-!
# Plain names

Names of words that have no other meaning in a type. What is printed for such names begins with
`::` or with a word that is nothing else, so that all operators in front of a declarator are told
from what follows them. Only a class that begins with `::` can go on with what stands before it.
-/

namespace CppReflect.Spelling

/-- No word that has another meaning comes first, and no template arguments. -/
def Benign : List Token → Prop
  | .word w :: _ => ¬Reserved w
  | t :: _ => t.isPunct "<" = false
  | [] => True

namespace Benign

variable {ts : List Token}

theorem noSpecifier (h : Benign ts) : NoSpecifier ts := by
  match ts, h with
  | [], _ | .number _ :: _, _ | .punct _ :: _, _ => trivial
  | .word w :: _, h =>
      simp only [Benign, Reserved, not_or, Bool.not_eq_true, Option.isSome_eq_false_iff,
        Option.isNone_iff_eq_none] at h
      exact ⟨h.1, h.2.1⟩

theorem noQual (h : Benign ts) : NoQual ts := by
  match ts, h.noSpecifier with
  | [], _ | .number _ :: _, _ | .punct _ :: _, _ => trivial
  | .word _ :: _, h => exact h.1

theorem noBuiltin (h : Benign ts) : NoBuiltin ts := by
  match ts, h with
  | [], _ | .number _ :: _, _ | .punct _ :: _, _ => trivial
  | .word w :: _, h =>
      simp only [Benign, Reserved, not_or, Bool.not_eq_true] at h
      exact h.2.2

theorem nextIs_angle (h : Benign ts) : nextIs "<" ts = false := by
  match ts, h with
  | [], _ | .word _ :: _, _ | .number _ :: _, _ => rfl
  | .punct p :: _, h => exact h

theorem endsName (h : Benign ts) (hcolons : nextIs "::" ts = false) : EndsName ts := by
  refine ⟨h.nextIs_angle, ?_⟩
  cases ts with
  | nil => rfl
  | cons t ts =>
      have ht : t.isPunct "::" = false := hcolons
      cases ts with
      | nil => rfl
      | cons u ts => cases u <;> simp [afterScopeMark?, ht]

end Benign

theorem Closed.benign {ts : List Token} (h : Closed ts) : Benign ts := by
  cases ts with
  | nil => trivial
  | cons t ts =>
      simp only [Closed, List.mem_cons, List.not_mem_nil, or_false] at h
      rcases h with rfl | rfl | rfl | rfl <;> rfl

theorem Closed.nextIs_colons {ts : List Token} (h : Closed ts) : nextIs "::" ts = false := by
  cases ts with
  | nil => rfl
  | cons t ts =>
      simp only [Closed, List.mem_cons, List.not_mem_nil, or_false] at h
      rcases h with rfl | rfl | rfl | rfl <;> rfl

/-! ## How a plain name begins -/

theorem nextIs_nameTokens {n : QualifiedName} (h : OfWords n) (behind : List Token) :
    nextIs "::" (nameTokens n ++ behind) = n.global := by
  obtain ⟨w, -, ts, hts⟩ := h.exists_wordTokens
  unfold nameTokens
  rw [hts]
  cases n.global <;> rfl

theorem Plain.benign {n : QualifiedName} (h : Plain n) (behind : List Token) :
    Benign (nameTokens n ++ behind) := by
  obtain ⟨w, hw, ts, hts⟩ := h.exists_wordTokens
  unfold nameTokens
  rw [hts]
  cases n.global with
  | false => exact h.unreserved w hw
  | true => rfl

theorem Plain.beginsName {n : QualifiedName} (h : Plain n) : BeginsName (nameTokens n) := by
  obtain ⟨w, hw, ts, hts⟩ := h.exists_wordTokens
  unfold nameTokens
  rw [hts]
  cases n.global with
  | false => exact h.unreserved w hw
  | true => rfl

/-- A plain name stays plain in print. -/
theorem Plain.canon {n : QualifiedName} (h : Plain n) : Plain n.canon := by
  unfold QualifiedName.canon
  split
  next =>
    have hwords : ∀ w ∈ ["std", "nullptr_t"], Identifier w ∧ ¬Reserved w := by
      have hstd : Identifier "std" :=
        ⟨'s', ['t', 'd'], rfl, by decide, List.all_eq_true.mp (by decide)⟩
      have hnull : Identifier "nullptr_t" :=
        ⟨'n', ['u', 'l', 'l', 'p', 't', 'r', '_', 't'], rfl, by decide,
          List.all_eq_true.mp (by decide)⟩
      intro w hw
      rcases List.mem_cons.mp hw with rfl | hw
      · exact ⟨hstd, by decide⟩
      · rw [List.mem_singleton.mp hw]
        exact ⟨hnull, by decide⟩
    exact { nonempty := by simp, words := fun w hw => (hwords w hw).1,
            unreserved := fun w hw => (hwords w hw).2 }
  next => exact h

/-- A name of words begins with `::` or the first letter of a word. -/
theorem OfWords.text_head? {n : QualifiedName} (h : OfWords n) :
    n.text.toList.head? ≠ some '&' := by
  unfold QualifiedName.text
  cases hsegments : n.segments with
  | nil => exact absurd hsegments h.nonempty
  | cons w rest =>
      obtain ⟨c, cs, hw, hc, _⟩ := h.words w (by simp [hsegments])
      obtain ⟨b, hb⟩ := joined_head w rest
      cases n.global with
      | false =>
          simp only [Bool.false_eq_true, if_false, String.empty_append, hb, hw]
          rintro ⟨rfl⟩
          exact absurd hc (by decide)
      | true => simp

/-! ## Operators of plain names -/

/-- Nothing or an identifier that means nothing else in a type. -/
def PlainId : List Token → Prop
  | [] => True
  | [.word w] => ¬Reserved w
  | _ => False

theorem legiblePrefix_of_plain {o : DeclaratorOp} {behind : List Token} (hsound : OpSound OfWords o)
    (h : NoQual behind) : LegiblePrefix o behind := by
  cases o with
  | pointer | lvalueReference | rvalueReference | array | function => exact h
  | memberPointer klass q =>
      refine ⟨memberPointerClass_text hsound.1, ?_, h⟩
      rw [memberPointer?_class hsound.1]
      rfl

/-- A class that begins with `::` is the innermost operator. -/
def opensWithGlobal : List DeclaratorOp → Bool
  | .memberPointer klass _ :: _ => klass.global
  | _ => false

/-- What is printed for operators goes on with a name exactly if a class that begins with `::` is
the innermost one, and never with template arguments or a word that has another meaning. -/
theorem opTokens_begin {ops : List DeclaratorOp} {x behind : List Token}
    (hsound : OpsSound Plain ops) (hx : PlainId x) (h : Closed behind) :
    Benign (opTokens ops x ++ behind) ∧
      nextIs "::" (opTokens ops x ++ behind) = opensWithGlobal ops := by
  induction ops generalizing behind with
  | nil =>
      unfold opTokens
      match x, hx with
      | [], _ => exact ⟨h.benign, h.nextIs_colons⟩
      | [.word w], hx => exact ⟨hx, rfl⟩
  | cons o ops ih =>
      unfold opTokens
      cases ho : o.isPrefix with
      | true =>
          rw [if_pos rfl, List.append_assoc]
          cases o with
          | array | function => exact absurd ho (by simp [DeclaratorOp.isPrefix])
          | pointer q => rw [prefixTokens_pointer]; exact ⟨rfl, rfl⟩
          | lvalueReference => rw [prefixTokens_lvalueReference]; exact ⟨rfl, rfl⟩
          | rvalueReference => rw [prefixTokens_rvalueReference]; exact ⟨rfl, rfl⟩
          | memberPointer klass q =>
              have hklass : Plain klass := hsound.1.1
              simp only [prefixTokens, sigil, textTokens_class hklass.toOfWords, List.append_assoc]
              exact ⟨hklass.benign _, nextIs_nameTokens hklass.toOfWords _⟩
      | false =>
          rw [if_neg (by simp)]
          have hglobal : opensWithGlobal (o :: ops) = false := by
            cases o <;> first | rfl | exact absurd ho (by simp [DeclaratorOp.isPrefix])
          rw [hglobal]
          cases hinner : opensWithPrefix ops with
          | true => exact ⟨rfl, rfl⟩
          | false =>
              have hops : opensWithGlobal ops = false := by
                cases ops with
                | nil => rfl
                | cons o' ops =>
                    cases o' <;> first | rfl | exact absurd hinner (by simp [opensWithPrefix,
                      DeclaratorOp.isPrefix])
              rw [if_neg (by simp), List.append_assoc, ← hops]
              exact ih hsound.2 (closed_suffixTokens ho behind)

end CppReflect.Spelling
