import Mathlib.Data.List.DropRight
import CppReflect.Proofs.Model.Printed
import CppReflect.Proofs.Model.Spelled
import CppReflect.Proofs.Spelling.Glued

/-!
# Printed types are read back

The text of a type is read back as the type exactly if the canonical spelling of the type is, and
that is a matter of spellings alone. Legible spellings are read back, also around an identifier, and
a spelling with plain names always is legible.
-/

namespace CppReflect

namespace Text

theorem trimLeft_trim (cs : List Char) : trimLeft (trim cs) = trim cs := by
  refine List.dropWhile_eq_self_iff.mpr fun hl => ?_
  -- what is left of the text behind its blanks begins like that text
  have hfront : trim cs <+: trimLeft cs := List.rdropWhile_prefix isSpace _
  have hne : trimLeft cs ≠ [] := fun hnil => (List.ne_nil_of_length_pos hl) (by
    rw [hnil] at hfront
    exact List.prefix_nil.mp hfront)
  rw [hfront.getElem hl]
  exact List.dropWhile_get_zero_not isSpace cs (List.length_pos_iff.mpr hne)

theorem trimmed_trimmed (s : String) : trimmed (trimmed s) = trimmed s := by
  have hright : trimRight (trim s.toList) = trim s.toList := List.rdropWhile_idempotent isSpace _
  unfold trimmed
  rw [String.toList_ofList]
  conv_lhs => rw [trim, trimLeft_trim, hright]

end Text

namespace Spelling

/-! ## What a text spells -/

/-- Blanks around a text make no difference to what is read. -/
theorem read_trimmed (text : String) : read (Text.trimmed text) = read text := by
  unfold read Text.trimmed
  rw [String.toList_ofList, Token.scan_trim]

theorem read_nullptr : read "nullptr_t" = .ok (.mk (.name ⟨false, ["nullptr_t"]⟩) .none []) := by
  have hscan : Token.scan "nullptr_t".toList = [.word "nullptr_t"] := by decide +kernel
  unfold read
  rw [hscan]
  rfl

theorem read_std_nullptr :
    read "std::nullptr_t" = .ok (.mk (.name ⟨false, ["std", "nullptr_t"]⟩) .none []) := by
  have hscan : Token.scan "std::nullptr_t".toList =
      [.word "std", .punct "::", .word "nullptr_t"] := by decide +kernel
  unfold read
  rw [hscan]
  rfl

/-- The spelling whose only name is a text that is not read. -/
def raw (text : String) : Spelling := .mk (.name ⟨false, [Text.trimmed text]⟩) .none []

/-- What a text spells where nothing is declared. -/
def spelled (text : String) : Spelling :=
  match read text with
  | .ok s => canon s
  | .error _ => raw text

theorem raw_text (text : String) :
    QualifiedName.text ⟨false, [Text.trimmed text]⟩ = Text.trimmed text := by
  simp [QualifiedName.text, Text.joined]

theorem raw_ne_nullptr {text : String} {e : SpellingError} (h : read text = .error e) :
    Text.trimmed text ≠ "nullptr_t" ∧ Text.trimmed text ≠ "std::nullptr_t" := by
  rw [← read_trimmed] at h
  constructor <;> intro heq <;> rw [heq] at h
  · cases read_nullptr.symm.trans h
  · cases read_std_nullptr.symm.trans h

theorem spelled_of_ok {text : String} {s : Spelling} (h : read text = .ok s) :
    spelled text = canon s := by
  rw [spelled, h]

theorem spelled_of_error {text : String} {e : SpellingError} (h : read text = .error e) :
    spelled text = raw text := by
  rw [spelled, h]

theorem sound_spelled (text : String) : Sound QualifiedName.Settled (spelled text) := by
  cases hread : read text with
  | ok s =>
      rw [spelled_of_ok hread]
      have hsound : Sound (fun _ => True) s := ofTokens_sound (fun _ _ _ _ _ => trivial) hread
      exact sound_canon (fun n _ => n.settled_canon) s hsound
  | error e =>
      rw [spelled_of_error hread]
      refine ⟨?_, by decide, trivial⟩
      change QualifiedName.canon _ = _
      rw [QualifiedName.canon, raw_text, if_neg (raw_ne_nullptr hread).1]

end Spelling

namespace Model

open Spelling
variable {m : Model}

/-- A text is resolved to the type that it spells. -/
theorem parseType_means (hwf : m.WellFormed) (hb : m.Bare) (text : String) :
    m.Keeps (parseType text root) fun t m' =>
      m'.Bare ∧ m'.HasType t ∧ m'.Means (spelled text) t := by
  unfold parseType
  cases hread : Spelling.read text with
  | ok s =>
      rw [spelled_of_ok hread]
      exact resolve_means root s hwf hb
  | error e =>
      rw [spelled_of_error hread]
      have hnull := raw_ne_nullptr hread
      refine (internKind_bare hwf hb (by simp [TypeKind.parts]) (by simp [TypeKind.decl?])).weaken
        fun t m' _ _ ht => ⟨ht.1, hasType_of_get? ht.2, t, ?_, rfl⟩
      change m'.types.get? t = some ⟨QualifiedName.kind _, .none⟩
      rw [QualifiedName.kind, raw_text, if_neg (by simp [hnull])]
      exact ht.2

/-- A type is read back from what is printed for it exactly if its spelling is. -/
theorem parseType_printType_iff (hwf : m.WellFormed) (hb : m.Bare) {s : Spelling}
    (hs : Sound QualifiedName.Settled s) {t : TypeId} (hex : m.HasType t) (ht : m.Means s t)
    (x : String) :
    ((parseType (m.printType t x) root).run m).1 = t ↔ flat (spelled (print s x)) = flat s := by
  rw [printType_means hwf hs hex ht x]
  have hparse := parseType_means hwf hb (print s x)
  have hnew := hparse.answer.2.2
  have hold := Means.mono hparse.grows s ht
  constructor
  · intro h
    rw [h] at hnew
    exact flat_unique hparse.wellFormed (sound_spelled _) hs hnew hold
  · intro h
    have hflat := (means_flat _).mpr hnew
    rw [h] at hflat
    exact Means.unique hparse.wellFormed s ((means_flat s).mp hflat) hold

/-- A type that is spelled legibly is read back from what is printed for it. -/
theorem parseType_printType (hwf : m.WellFormed) (hb : m.Bare) {s : Spelling}
    (hsound : Sound QualifiedName.Settled s) (htidy : Tidy s) {t : TypeId} (hex : m.HasType t)
    (ht : m.Means s t) {x : String} (hx : x.toList.head? ≠ some '&')
    (hlegible : Legible s (textTokens x) []) :
    ((parseType (m.printType t x) root).run m).1 = t := by
  have hread := read_print (sound_mono (fun _ _ => trivial) hsound) htidy hx hlegible
  rw [parseType_printType_iff hwf hb hsound hex ht, spelled_of_ok hread,
    canon_of_tidy s htidy hsound]

/-- The empty model keeps nothing but what is read into it. -/
theorem bare_empty : empty.Bare := rfl

/-! ## Stable texts -/

/-- The type that a text spells where nothing is declared is read back from what is printed for
it. -/
def Stable (text : String) : Prop :=
  let t := ((parseType text root).run empty).1
  let m := ((parseType text root).run empty).2
  ((parseType (m.typeText t) root).run m).1 = t

/-- A text is stable exactly if the spelling that is printed for it is read back as the same
spelling, up to the segments of the names in it. -/
theorem stable_iff (text : String) :
    Stable text ↔ flat (spelled (print (spelled text) "")) = flat (spelled text) := by
  have hparse := parseType_means wellFormed_empty bare_empty text
  exact parseType_printType_iff hparse.wellFormed hparse.answer.1 (sound_spelled text)
    hparse.answer.2.1 hparse.answer.2.2 ""

/-! ## Stable texts with any names -/

/-- Print takes no ampersand to the front of a name. -/
theorem canon_text_head? {n : QualifiedName} (hn : n.text.toList.head? ≠ some '&') :
    n.canon.text.toList.head? ≠ some '&' := by
  unfold QualifiedName.canon
  split
  · decide
  · exact hn

/-- A text that cannot be read names a type by itself, blanks around it apart, and stays unread. -/
theorem stable_of_unread {text : String} {e : SpellingError} (h : Spelling.read text = .error e) :
    Stable text := by
  have hagain : Spelling.read (Text.trimmed text) = .error e := by rw [read_trimmed, h]
  have hprint : print (raw text) "" = Text.trimmed text := by
    have hbare : Quals.none.isEmpty = true := rfl
    simp [raw, print, printOps, Model.baseText, Base.text, raw_text, hbare]
  rw [stable_iff, spelled_of_error h, hprint, spelled_of_error hagain, raw, raw,
    Text.trimmed_trimmed]

/-- A text is stable if it cannot be read, or if each part of what is printed for it is told from
what follows. Names may be global and have template arguments. -/
theorem stable_of_legible {text : String}
    (h : ∀ s, Spelling.read text = .ok s → Legible (canon s) [] []) : Stable text := by
  cases hread : Spelling.read text with
  | error e => exact stable_of_unread hread
  | ok s =>
      have hparse := parseType_means wellFormed_empty bare_empty text
      obtain ⟨hb, hex, hmeans⟩ := hparse.answer
      rw [spelled_of_ok hread] at hmeans
      have hsettled : Sound QualifiedName.Settled (canon s) := spelled_of_ok hread ▸ sound_spelled text
      have htidy : Tidy (canon s) :=
        tidy_canon (fun _ hn => canon_text_head? hn) s (ofTokens_sound namesRead_head? hread)
      exact parseType_printType hparse.wellFormed hb hsettled htidy hex hmeans (by simp) (h s hread)

/-- Pointers to members of `::D` that are pointers to a specialization of `A`. -/
def memberSpelling : Spelling :=
  .mk (.name ⟨false, ["A<B, ::C>"]⟩) .none [.pointer .none, .memberPointer ⟨true, ["D"]⟩ .none]

theorem stable_template_member :
    Spelling.read "A<B, ::C> *::D::*" = .ok memberSpelling ∧
      Legible (canon memberSpelling) [] [] ∧ Stable "A<B, ::C> *::D::*" := by
  have hread : Spelling.read "A<B, ::C> *::D::*" = .ok memberSpelling := by
    have hscan : Token.scan "A<B, ::C> *::D::*".toList = tokens memberSpelling [] := by
      decide +kernel
    unfold Spelling.read
    rw [hscan]
    rfl
  have hbase : textTokens "A<B, ::C>" =
      [.word "A", .punct "<", .word "B", .punct ",", .punct "::", .word "C", .punct ">"] := by
    decide +kernel
  have hclass : textTokens "::D::*" = [.punct "::", .word "D", .punct "::", .punct "*"] := by
    decide +kernel
  have hlegible : Legible (canon memberSpelling) [] [] := by
    refine ⟨⟨?_, ?_, ⟨rfl, rfl⟩, trivial⟩, ?_, ⟨?_, ?_, trivial⟩, trivial⟩
    · change Spelling.qualifiedName (textTokens "A<B, ::C>") = _
      rw [hbase]
      rfl
    · change BeginsName (textTokens "A<B, ::C>")
      rw [hbase]
      exact show ¬Reserved "A" by decide
    · trivial
    · change memberPointerClass (textTokens "::D::*") = _
      rw [hclass]
      rfl
    · change (memberPointer? (textTokens "::D::*" ++ _)).isSome = true
      rw [hclass]
      rfl
  refine ⟨hread, hlegible, stable_of_legible fun s hs => ?_⟩
  obtain rfl := Except.ok.inj (hread.symm.trans hs)
  exact hlegible

/-- A global class goes on with a name in front of it. -/
example : ¬Stable "A (::B::*)" := by
  unfold Stable
  decide +kernel

/-! ## Plain names -/

/-- Printing a type and reading the text is the identity where names are words without another
meaning, also with an identifier in the place of the declarator. -/
theorem reads_back_of_plain_names {text : String} {s : Spelling} (hread : read text = .ok s)
    (hangle : '<' ∉ text.toList)
    (hnames : ∀ n ∈ names s, n.global = false ∧ ∀ w ∈ n.segments, ¬Reserved w) :
    let t := ((parseType text root).run empty).1
    let m := ((parseType text root).run empty).2
    (∀ x, Identifier x → ¬Reserved x → ((parseType (m.printType t x) root).run m).1 = t) ∧
      ((parseType (m.typeText t) root).run m).1 = t := by
  have hplain : Sound (fun n => Plain n ∧ n.global = false) s :=
    sound_of_names s (read_ofWords hread hangle) fun n hn hwords =>
      ⟨⟨hwords, (hnames n hn).2⟩, (hnames n hn).1⟩
  have hcanon : Sound (fun n => Plain n ∧ n.global = false ∧ n.Settled) (canon s) :=
    sound_canon (fun n hn => ⟨hn.1.canon, n.global_canon hn.2, n.settled_canon⟩) s hplain
  have hparse : (parseType text root).run empty = (resolve root s).run empty := by
    unfold parseType
    rw [hread]
  have hresolved := resolve_means root s wellFormed_empty bare_empty
  obtain ⟨hb, hex, hmeans⟩ := hresolved.answer
  have htidy : Tidy (canon s) := tidy_canon (fun n hn => hn.1.canon.text_head?) s hplain
  have hlocal : glued (canon s) = false :=
    glued_of_local (canon s) (sound_mono (fun _ h => h.2.1) hcanon)
  have hback : ∀ x : String, PlainId (textTokens x) → x.toList.head? ≠ some '&' →
      ((parseType (((resolve root s).run empty).2.printType ((resolve root s).run empty).1 x)
        root).run ((resolve root s).run empty).2).1 = ((resolve root s).run empty).1 := by
    intro x hx hamp
    refine parseType_printType hresolved.wellFormed hb (sound_mono (fun _ h => h.2.2) hcanon) htidy
      hex hmeans hamp ?_
    exact legible_of_not_glued (canon s) (sound_mono (fun _ h => h.1) hcanon) hlocal hx trivial
  rw [hparse]
  refine ⟨fun x hx hreserved => hback x ?_ ?_, hback "" trivial (by simp)⟩
  · rw [textTokens, scan_identifier hx]
    exact hreserved
  · obtain ⟨c, cs, hcs, hc, _⟩ := hx
    rw [hcs]
    rintro ⟨rfl⟩
    exact absurd hc (by decide)

/-- Constant methods of `N::B` that take a pointer to an array and return a reference. -/
def methodSpelling : Spelling :=
  .mk (.name ⟨false, ["N", "A"]⟩) .const
    [.lvalueReference,
      .function [.mk (.builtin .int) .none [.array (some 3), .pointer .none]] false .const .none,
      .memberPointer ⟨false, ["N", "B"]⟩ .none]

theorem reads_back_method :
    let text := "const N::A &(N::B::*)(int (*)[3]) const"
    let t := ((parseType text root).run empty).1
    let m := ((parseType text root).run empty).2
    Spelling.read text = .ok methodSpelling ∧
      ((parseType (m.printType t "x") root).run m).1 = t ∧
      ((parseType (m.typeText t) root).run m).1 = t := by
  have hscan : Token.scan "const N::A &(N::B::*)(int (*)[3]) const".toList =
      tokens methodSpelling [] := by decide +kernel
  have hread : Spelling.read "const N::A &(N::B::*)(int (*)[3]) const" = .ok methodSpelling := by
    unfold Spelling.read
    rw [hscan]
    rfl
  obtain ⟨hprint, htext⟩ := reads_back_of_plain_names hread (by decide) (by decide +kernel)
  exact ⟨hread, hprint "x" ⟨'x', [], rfl, by decide, by simp⟩ (by decide), htext⟩

end Model

end CppReflect
