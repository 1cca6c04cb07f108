import CppReflect.Proofs.Trampoline.Numbers

/-!
# Words in the texts of trampolines

A word is mentioned where nothing goes on with it on either side, so that texts that are put one
behind the other mention no more words than before if no word reaches across. The words that matter
are the names of typedefs.
-/

namespace CppReflect

open Spelling.Token (continuesWord)

namespace Trampoline

/-! ## Words in a text -/

/-- The word stands in the text, and nothing that would go on with a word is next to it. -/
def Mentions (text word : String) : Prop :=
  ∃ before behind, text.toList = before ++ (word.toList ++ behind) ∧
    (∀ c ∈ before.getLast?, continuesWord c = false) ∧
    ∀ c ∈ behind.head?, continuesWord c = false

/-- No word goes on behind the text. -/
def Closes (text : String) : Prop := ∀ c ∈ text.toList.getLast?, continuesWord c = false

/-- No word goes on in the text. -/
def Opens (text : String) : Prop := ∀ c ∈ text.toList.head?, continuesWord c = false

/-- Nothing in the text goes on with a word. -/
def Wordless (text : String) : Prop := ∀ c ∈ text.toList, continuesWord c = false

/-- The text has none of the characters in it. -/
def Lacks (text : String) (chars : List Char) : Prop := ∀ c ∈ text.toList, c ∉ chars

-- The instances are given since a search for them can find the one that tries all characters.
instance (text : String) : Decidable (Closes text) :=
  Option.decidableForallMem _

instance (text : String) : Decidable (Opens text) :=
  Option.decidableForallMem _

instance (text : String) : Decidable (Wordless text) :=
  List.decidableBAll _ _

instance (text : String) (chars : List Char) : Decidable (Lacks text chars) :=
  List.decidableBAll _ _

section Borders

variable {a b : String}

theorem Wordless.closes (h : Wordless a) : Closes a :=
  fun c hc => h c (List.mem_of_getLast? hc)

theorem Wordless.opens (h : Wordless a) : Opens a :=
  fun c hc => h c (List.mem_of_head? hc)

theorem Wordless.append (ha : Wordless a) (hb : Wordless b) : Wordless (a ++ b) := by
  intro c hc
  rw [String.toList_append] at hc
  rcases List.mem_append.mp hc with h | h
  · exact ha c h
  · exact hb c h

theorem Closes.behind (hb : Closes b) (hne : b ≠ "") (a : String) : Closes (a ++ b) := by
  have hlist : b.toList ≠ [] := fun hnil => hne (String.toList_eq_nil_iff.mp hnil)
  intro c hc
  rw [String.toList_append, List.getLast?_append_of_ne_nil _ hlist] at hc
  exact hb c hc

theorem Opens.before (ha : Opens a) (hne : a ≠ "") (b : String) : Opens (a ++ b) := by
  have hlist : a.toList ≠ [] := fun hnil => hne (String.toList_eq_nil_iff.mp hnil)
  intro c hc
  rw [String.toList_append, List.head?_append_of_ne_nil _ hlist] at hc
  exact ha c hc

end Borders

/-- A word does not reach across a place where no word goes on. -/
theorem Mentions.of_append {a b word : String} (h : Mentions (a ++ b) word)
    (hword : ∀ c ∈ word.toList, continuesWord c = true) (hborder : Closes a ∨ Opens b) :
    Mentions a word ∨ Mentions b word := by
  obtain ⟨before, behind, htext, hbefore, hbehind⟩ := h
  rw [String.toList_append, List.append_eq_append_iff] at htext
  rcases htext with ⟨between, rfl, hb⟩ | ⟨start, ha, hrest⟩
  · refine .inr ⟨between, behind, hb, ?_, hbehind⟩
    intro c hc
    apply hbefore c
    rw [List.getLast?_append, hc]
    rfl
  · rcases List.append_eq_append_iff.mp hrest with ⟨between, rfl, rfl⟩ | ⟨stop, hw, hb⟩
    · refine .inl ⟨before, between, ha, hbefore, ?_⟩
      intro c hc
      apply hbehind c
      rw [List.head?_append, hc]
      rfl
    · rw [hw] at hword
      obtain ⟨hstart, hstop⟩ := List.forall_mem_append.mp hword
      by_cases hnone : stop = []
      · rw [hnone, List.append_nil] at hw
        exact .inl ⟨before, [], by rw [ha, hw, List.append_nil], hbefore, nofun⟩
      by_cases hall : start = []
      · rw [hall, List.nil_append] at hw
        exact .inr ⟨[], behind, by rw [hb, hw, List.nil_append], nofun, hbehind⟩
      -- The word has characters on both sides of the border, which all go on with words.
      obtain ⟨c, cs, rfl⟩ := List.exists_cons_of_ne_nil hnone
      exfalso
      rcases hborder with hcloses | hopens
      · have hlast := hcloses (start.getLast hall)
          (by rw [ha, List.getLast?_append, List.getLast?_eq_getLast_of_ne_nil hall]; rfl)
        rw [hstart _ (List.getLast_mem hall)] at hlast
        cases hlast
      · have hhead := hopens c (by rw [hb]; rfl)
        rw [hstop c List.mem_cons_self] at hhead
        cases hhead

/-- A text that is one word mentions no other. -/
theorem Mentions.eq_of_word {text word : String} (h : Mentions text word)
    (htext : ∀ c ∈ text.toList, continuesWord c = true) : word = text := by
  obtain ⟨before, behind, heq, hbefore, hbehind⟩ := h
  rw [heq] at htext
  have hempty : before = [] := by
    cases hlast : before.getLast? with
    | none => exact List.getLast?_eq_none_iff.mp hlast
    | some c =>
        have hc := htext c (List.mem_append_left _ (List.mem_of_getLast? hlast))
        rw [hbefore c hlast] at hc
        cases hc
  have hempty' : behind = [] := by
    cases behind with
    | nil => rfl
    | cons c cs =>
        have hc := htext c (by simp)
        rw [hbehind c rfl] at hc
        cases hc
  apply String.toList_inj.mp
  rw [heq, hempty, hempty', List.nil_append, List.append_nil]

/-! ## Names of typedefs in a text -/

/-- The names that typedefs of trampolines have: that of a class in its destructor trampoline, and
those that end in numbers. -/
def IsTypedefName (word : String) : Prop := word = "Nm" ∨ IsAuxName word

/-- The characters that the names of typedefs with numbers start with. -/
def auxInitials : List Char := ['F', 'M', 'A']

/-- The characters that the names of typedefs start with. -/
def typedefInitials : List Char := 'N' :: auxInitials

theorem IsTypedefName.continuesWord {word : String} (h : IsTypedefName word) :
    ∀ c ∈ word.toList, continuesWord c = true := by
  rcases h with rfl | haux
  · exact List.all_eq_true.mp rfl
  · exact haux.identifier.1.continuesWord

theorem IsAuxName.exists_head? {word : String} (h : IsAuxName word) :
    ∃ c ∈ auxInitials, word.toList.head? = some c := by
  obtain ⟨stem, hstem, n, rfl⟩ := h
  have hinitial : ∀ s ∈ typedefStems, s.toList.head?.any auxInitials.contains = true := by decide
  obtain ⟨c, hhead, hc⟩ := (Option.any_eq_true _ _).mp (hinitial stem hstem)
  have hname : (stem ++ toString n).toList.head? = some c := by
    rw [String.toList_append, List.head?_append, hhead]
    rfl
  exact ⟨c, List.contains_iff_mem.mp hc, hname⟩

theorem IsTypedefName.exists_head? {word : String} (h : IsTypedefName word) :
    ∃ c ∈ typedefInitials, word.toList.head? = some c := by
  rcases h with rfl | haux
  · exact ⟨'N', List.mem_cons_self, rfl⟩
  · obtain ⟨c, hc, hhead⟩ := haux.exists_head?
    exact ⟨c, List.mem_cons_of_mem _ hc, hhead⟩

/-- A typedef name that the text mentions is one of the given names, unless it is a word of its own
accord. -/
def UsesOnly (own : String → Prop) (names : List String) (text : String) : Prop :=
  ∀ word, IsTypedefName word → Mentions text word → word ∈ names ∨ own word

theorem Mentions.toList_subset {text word : String} (h : Mentions text word) :
    word.toList ⊆ text.toList := by
  obtain ⟨before, behind, htext, -⟩ := h
  rw [htext]
  exact List.subset_append_of_subset_right _ (List.subset_append_left _ _)

namespace UsesOnly

variable {own : String → Prop} {names names' : List String} {a b : String}

/-- A text without the initials of their names mentions no typedefs. -/
theorem of_initials (h : Lacks a typedefInitials) : UsesOnly own names a := by
  intro word hword hmentions
  obtain ⟨c, hinitial, hhead⟩ := hword.exists_head?
  exact absurd hinitial (h c (hmentions.toList_subset (List.mem_of_head? hhead)))

/-- A text without the initials of the names that end in numbers mentions `Nm` at most. -/
theorem of_auxInitials (h : Lacks a auxInitials) : UsesOnly own ["Nm"] a := by
  rintro word (rfl | haux) hmentions
  · exact .inl (List.mem_singleton_self _)
  · obtain ⟨c, hinitial, hhead⟩ := haux.exists_head?
    exact absurd hinitial (h c (hmentions.toList_subset (List.mem_of_head? hhead)))

/-- Signs and blanks mention nothing. -/
theorem of_wordless (h : Wordless a) : UsesOnly own names a := by
  intro word hword hmentions
  obtain ⟨c, -, hhead⟩ := hword.exists_head?
  have hc := List.mem_of_head? hhead
  have hnot := h c (hmentions.toList_subset hc)
  rw [hword.continuesWord c hc] at hnot
  cases hnot

/-- A word with another initial mentions no typedefs. -/
theorem of_word (h : ∀ c ∈ a.toList, continuesWord c = true)
    (hhead : ∀ c ∈ a.toList.head?, c ∉ typedefInitials) : UsesOnly own names a := by
  intro word hword hmentions
  obtain ⟨c, hinitial, hc⟩ := hword.exists_head?
  rw [hmentions.eq_of_word h] at hc
  exact absurd hinitial (hhead c hc)

/-- The name of a typedef mentions itself alone. -/
theorem of_name (h : IsTypedefName a) : UsesOnly own [a] a := by
  intro word _ hmentions
  rw [hmentions.eq_of_word h.continuesWord]
  exact .inl (List.mem_singleton_self a)

theorem of_number (i : Nat) : UsesOnly own names (toString i) := by
  apply of_initials
  intro c hc hinitial
  have hnone : typedefInitials.all (fun d => !d.isDigit) = true := by decide
  have hdigit := List.all_eq_true.mp hnone c hinitial
  rw [isDigit_toString i c hc] at hdigit
  cases hdigit

theorem mono (h : UsesOnly own names a) (hsub : names ⊆ names') : UsesOnly own names' a :=
  fun word hword hmentions => (h word hword hmentions).imp_left fun hmem => hsub hmem

theorem append (ha : UsesOnly own names a) (hb : UsesOnly own names b)
    (hborder : Closes a ∨ Opens b) : UsesOnly own names (a ++ b) := by
  intro word hword hmentions
  rcases hmentions.of_append hword.continuesWord hborder with h | h
  · exact ha word hword h
  · exact hb word hword h

theorem behind_wordless (hb : UsesOnly own names b) (ha : Wordless a) :
    UsesOnly own names (a ++ b) :=
  (of_wordless ha).append hb (.inl ha.closes)

theorem before_wordless (ha : UsesOnly own names a) (hb : Wordless b) :
    UsesOnly own names (a ++ b) :=
  ha.append (of_wordless hb) (.inr hb.opens)

/-- A text with one behind it that mentions nothing and does not go on with a word. -/
theorem followed (ha : UsesOnly own names a) (hopens : Opens b)
    (hb : Lacks b typedefInitials) : UsesOnly own names (a ++ b) :=
  ha.append (of_initials hb) (.inr hopens)

/-- A text behind one that mentions nothing and that no word goes on behind. -/
theorem behind (hb : UsesOnly own names b) (hcloses : Closes a)
    (ha : Lacks a typedefInitials) : UsesOnly own names (a ++ b) :=
  (of_initials ha).append hb (.inl hcloses)

/-- Signs or blanks between two texts keep their words apart. -/
theorem apart (ha : UsesOnly own names a) (hb : UsesOnly own names b) {signs : String}
    (hsigns : Wordless signs) (hne : signs ≠ "") : UsesOnly own names (a ++ signs ++ b) :=
  (ha.before_wordless hsigns).append hb (.inl (hsigns.closes.behind hne a))

end UsesOnly

end Trampoline

end CppReflect
