import CppReflect.Proofs.Model.SoleNames
import CppReflect.Proofs.Spelling.Arguments

/-!
# Reading paths

A path such as `N :: A< int , 3 >::B` is a row of words with `::` between them, each with template
arguments behind it or without, and with blanks wherever tokens meet. Cut at each `::` outside
brackets it falls into its segments, and the reader of spellings reads it as a name of the same
words, whose arguments differ from those that are written in blanks alone.
-/

namespace CppReflect.Spelling

open Token (scan)

/-! ## Segments as they are written -/

/-- A segment of a path as it is written: a word, behind it template arguments or none, and blanks
in front of the word, in front of the arguments and behind the segment. -/
structure WrittenSegment where
  word : String
  args : Option (List Char)
  front : List Char
  gap : List Char
  behind : List Char
  isWord : Identifier word
  balanced : ∀ cs ∈ args, Name.Balanced cs
  blankFront : Text.IsBlank front
  blankGap : Text.IsBlank gap
  blankBehind : Text.IsBlank behind

namespace WrittenSegment

/-- The arguments in their brackets, and the blanks in front of them. -/
def argsPart (s : WrittenSegment) : List Char :=
  s.args.elim [] fun cs => s.gap ++ '<' :: (cs ++ ['>'])

/-- The segment without the blanks around it. -/
def bare (s : WrittenSegment) : List Char := s.word.toList ++ s.argsPart

/-- The segment with all that is written. -/
def chars (s : WrittenSegment) : List Char := s.front ++ (s.bare ++ s.behind)

/-- The segment without the blanks around it, as a string. -/
def text (s : WrittenSegment) : String := String.ofList s.bare

/-- The tokens of the segment. -/
def tokens (s : WrittenSegment) : List Token :=
  .word s.word :: s.args.elim [] fun cs => .punct "<" :: (scan cs ++ [.punct ">"])

end WrittenSegment

/-- The text of a path: its segments with `::` between two. -/
def pathChars : List WrittenSegment → List Char
  | [] => []
  | [s] => s.chars
  | s :: t :: rest => s.chars ++ ':' :: ':' :: pathChars (t :: rest)

/-- The tokens of a path. -/
def pathTokens : List WrittenSegment → List Token
  | [] => []
  | [s] => s.tokens
  | s :: t :: rest => s.tokens ++ .punct "::" :: pathTokens (t :: rest)

/-! ## Tokens -/

/-- What follows does not go on with a word: a blank, a bracket, a colon, or nothing. -/
def PartsFromWord (cs : List Char) : Prop :=
  ∀ f ∈ cs.head?, Text.isSpace f = true ∨ f = '<' ∨ f = ':'

theorem partsFromWord_nil : PartsFromWord [] := fun f hf => absurd hf (Option.not_mem_none f)

theorem partsFromWord_colon (cs : List Char) : PartsFromWord (':' :: cs) := by
  rintro f ⟨rfl⟩
  exact .inr (.inr rfl)

theorem partsFromWord_blank_append {blanks rest : List Char} (h : Text.IsBlank blanks)
    (hrest : PartsFromWord rest) : PartsFromWord (blanks ++ rest) := by
  cases blanks with
  | nil => exact hrest
  | cons b blanks =>
      rintro f ⟨rfl⟩
      exact .inl (h b List.mem_cons_self)

theorem Identifier.separate {w : String} (h : Identifier w) {cs : List Char}
    (hcs : PartsFromWord cs) : Token.Separate w.toList cs := by
  intro l hl f hf
  rcases hcs f hf with hspace | rfl | rfl
  · exact Token.apart_of_isSpace l hspace
  · exact separate_of_lone_right (f := '<') (by decide) _ [] l hl '<' rfl
  · exact separate_colon_right h [] l hl ':' rfl

theorem scan_blank_append {blanks : List Char} (h : Text.IsBlank blanks) (cs : List Char) :
    scan (blanks ++ cs) = scan cs := by
  induction blanks with
  | nil => rfl
  | cons b blanks ih =>
      rw [List.cons_append, Token.scan_cons, if_pos (h b List.mem_cons_self)]
      exact ih fun c hc => h c (List.mem_cons_of_mem b hc)

theorem scan_open (cs : List Char) : scan ('<' :: cs) = .punct "<" :: scan cs :=
  scan_lone_append (l := '<') (by decide) [] cs

theorem scan_close (cs : List Char) : scan ('>' :: cs) = .punct ">" :: scan cs :=
  scan_lone_append (l := '>') (by decide) [] cs

theorem scan_colons (cs : List Char) : scan (':' :: ':' :: cs) = .punct "::" :: scan cs := by
  rw [Token.scan_cons, if_neg (by decide), if_neg (by decide), if_neg (by decide)]
  rfl

namespace WrittenSegment

variable (s : WrittenSegment)

theorem partsFromWord_argsPart {rest : List Char} (hrest : PartsFromWord rest) :
    PartsFromWord (s.argsPart ++ rest) := by
  unfold argsPart
  cases s.args with
  | none => exact hrest
  | some cs =>
      rw [Option.elim_some, List.append_assoc]
      apply partsFromWord_blank_append s.blankGap
      rintro f ⟨rfl⟩
      exact .inr (.inl rfl)

theorem scan_bare_append (rest : List Char) (hrest : PartsFromWord rest) :
    scan (s.bare ++ rest) = s.tokens ++ scan rest := by
  rw [bare, List.append_assoc,
    Token.scan_append (s.isWord.separate (s.partsFromWord_argsPart hrest)),
    scan_identifier s.isWord, tokens, argsPart]
  cases s.args with
  | none => rfl
  | some cs =>
      have hargs : scan ('<' :: (cs ++ ['>']) ++ rest) =
          .punct "<" :: (scan cs ++ .punct ">" :: scan rest) := by
        rw [List.cons_append, List.append_assoc, List.singleton_append, scan_open,
          scan_append_lone (by decide), scan_close]
      rw [Option.elim_some, Option.elim_some, List.append_assoc, scan_blank_append s.blankGap,
        hargs]
      simp

theorem scan_chars_append (rest : List Char) (hrest : PartsFromWord rest) :
    scan (s.chars ++ rest) = s.tokens ++ scan rest := by
  rw [chars, List.append_assoc, scan_blank_append s.blankFront, List.append_assoc,
    s.scan_bare_append _ (partsFromWord_blank_append s.blankBehind hrest),
    scan_blank_append s.blankBehind]

theorem scan_bare : scan s.bare = s.tokens := by
  have hscan := s.scan_bare_append [] partsFromWord_nil
  rwa [List.append_nil, Token.scan_nil, List.append_nil] at hscan

end WrittenSegment

/-- However a path is spaced, its tokens are those of its segments with `::` between two. -/
theorem scan_pathChars (p : List WrittenSegment) : scan (pathChars p) = pathTokens p := by
  fun_induction pathChars p with
  | case1 => rfl
  | case2 s =>
      have hscan := s.scan_chars_append [] partsFromWord_nil
      rwa [List.append_nil, Token.scan_nil, List.append_nil] at hscan
  | case3 s t rest ih =>
      rw [s.scan_chars_append _ (partsFromWord_colon _), scan_colons, ih, pathTokens]

/-! ## Reading segments -/

/-- The segment is what the other one is read as: the same word and without blanks around the parts,
with arguments that have the same characters but for blanks. -/
structure WrittenSegment.ReadAs (s t : WrittenSegment) : Prop where
  word : t.word = s.word
  args : t.args.map Text.squash = s.args.map Text.squash
  noBlanks : t.chars = t.bare
  reads : ∀ rest, nextIs "<" rest = false → nameSegment (s.tokens ++ rest) = .ok (t.text, rest)

theorem WrittenSegment.exists_readAs (s : WrittenSegment) : ∃ t, s.ReadAs t := by
  have hblank : Text.IsBlank [] := fun c hc => absurd hc List.not_mem_nil
  cases hargs : s.args with
  | none =>
      let t : WrittenSegment := { s with
        front := [], gap := [], behind := []
        blankFront := hblank, blankGap := hblank, blankBehind := hblank }
      have htext : t.text = s.word := by simp [text, bare, argsPart, t, hargs]
      refine ⟨t, rfl, by rw [hargs], List.append_nil _, fun rest hrest => ?_⟩
      rw [tokens, hargs, htext]
      cases rest with
      | nil => rfl
      | cons u rest => exact if_neg (by rw [show u.isPunct "<" = false from hrest]; decide)
  | some cs =>
      have hcs := s.balanced cs hargs
      obtain ⟨args, hread, hsquash⟩ := templateArgsFrom_balanced hcs []
      let t : WrittenSegment := { s with
        args := some (Text.joined ", " args).toList
        balanced := fun ds hds => Option.some.inj hds ▸ balanced_of_squash_eq hsquash.symm hcs
        front := [], gap := [], behind := []
        blankFront := hblank, blankGap := hblank, blankBehind := hblank }
      have htext : t.text = s.word ++ "<" ++ Text.joined ", " args ++ ">" := by
        apply String.toList_injective
        simp [text, bare, argsPart, t]
      refine ⟨t, rfl, ?_, List.append_nil _, fun rest _ => ?_⟩
      · rw [hargs, Option.map_some, Option.map_some, hsquash]
      · have happend := templateArgsFrom_append rest hread
        rw [List.append_assoc, List.singleton_append, List.nil_append] at happend
        rw [tokens, hargs, htext]
        simp only [Option.elim_some, List.cons_append, List.append_assoc, List.nil_append,
          nameSegment, happend]
        rfl

/-! ## Reading paths -/

theorem nextIs_pathTokens {s : WrittenSegment} {p : List WrittenSegment} :
    ∃ rest, pathTokens (s :: p) = .word s.word :: rest := by
  cases p with
  | nil => exact ⟨_, rfl⟩
  | cons t p => exact ⟨_, rfl⟩

/-- Each segment of the one path is what that of the other one is read as. -/
def ReadAs (p q : List WrittenSegment) : Prop := List.Forall₂ WrittenSegment.ReadAs p q

theorem exists_readAs (p : List WrittenSegment) : ∃ q, ReadAs p q := by
  induction p with
  | nil => exact ⟨[], .nil⟩
  | cons s p ih =>
      obtain ⟨t, ht⟩ := s.exists_readAs
      obtain ⟨q, hq⟩ := ih
      exact ⟨t :: q, .cons ht hq⟩

theorem nameSegments_pathTokens {p q : List WrittenSegment} (hne : p ≠ []) (h : ReadAs p q)
    {fuel : Nat} (hfuel : p.length ≤ fuel) :
    nameSegments fuel (pathTokens p) = .ok (q.map WrittenSegment.text, []) := by
  induction h generalizing fuel with
  | nil => exact absurd rfl hne
  | @cons s t p q hs hrest ih =>
      obtain ⟨fuel, rfl⟩ := Nat.exists_eq_succ_of_ne_zero (Nat.ne_zero_of_lt hfuel)
      cases hrest with
      | nil =>
          have hread := hs.reads [] rfl
          rw [List.append_nil] at hread
          rw [pathTokens, nameSegments, hread]
          rfl
      | @cons s' t' p q hs' hrest =>
          obtain ⟨behind, hbehind⟩ := nextIs_pathTokens (s := s') (p := p)
          have htail := ih (List.cons_ne_nil _ _) (Nat.le_of_succ_le_succ hfuel)
          have hread := hs.reads (.punct "::" :: pathTokens (s' :: p)) rfl
          have hmark : afterScopeMark? (.punct "::" :: pathTokens (s' :: p)) =
              some (pathTokens (s' :: p)) := by rw [hbehind]; rfl
          rw [pathTokens, nameSegments, hread, ok_bind]
          simp only [hmark, htail, ok_bind, List.map_cons]

theorem length_pathTokens (p : List WrittenSegment) : p.length ≤ (pathTokens p).length := by
  fun_induction pathTokens p with
  | case1 => exact Nat.le_refl _
  | case2 s => exact Nat.succ_le_succ (Nat.zero_le _)
  | case3 s t rest ih =>
      simp only [List.length_append, List.length_cons] at ih ⊢
      omega

/-- The name that is read from a path. -/
def pathName (q : List WrittenSegment) : QualifiedName := ⟨false, q.map WrittenSegment.text⟩

theorem qualifiedName_pathTokens {p q : List WrittenSegment} (hne : p ≠ []) (h : ReadAs p q) :
    qualifiedName (pathTokens p) = .ok (pathName q, []) := by
  cases p with
  | nil => exact absurd rfl hne
  | cons s p =>
      obtain ⟨rest, htokens⟩ := nextIs_pathTokens (s := s) (p := p)
      have hskip : skipGlobal (pathTokens (s :: p)) = (false, pathTokens (s :: p)) := by
        rw [htokens]
        rfl
      rw [qualifiedName_eq, hskip, nameSegments_pathTokens hne h (length_pathTokens _)]
      rfl

/-- A path that begins with a word that means nothing else is read as a name. -/
theorem readsFront_path {text : String} {s : WrittenSegment} {p q : List WrittenSegment}
    (htext : text.toList = pathChars (s :: p)) (hfree : ¬Reserved s.word)
    (h : ReadAs (s :: p) q) : ReadsFront text (.name (pathName q)) .none [] := by
  obtain ⟨rest, htokens⟩ := nextIs_pathTokens (s := s) (p := p)
  have hread := qualifiedName_pathTokens (List.cons_ne_nil s p) h
  have hturn : Specifiers.turn {} (.word s.word) = .readName := by
    obtain ⟨hqual, helaborated, hbuiltin⟩ : Quals.ofWord? s.word = none ∧
        elaboratedWords.contains s.word = false ∧ builtinWords.contains s.word = false := by
      simpa [Reserved] using hfree
    simp only [Specifiers.turn, hqual, helaborated, hbuiltin]
    rfl
  refine ⟨[], ?_, rfl⟩
  rw [textTokens, htext, scan_pathChars, declSpecifiers]
  rw [htokens] at hread ⊢
  rw [List.length_cons, specifiersFrom_cons, hturn]
  simp only [hread, ok_bind]
  cases rest.length <;> rfl

/-! ## Cutting paths -/

theorem solid_of_isBlank {blanks : List Char} (h : Text.IsBlank blanks) : Name.Solid blanks :=
  Name.segmentsFrom_blanks h 0

namespace WrittenSegment

variable (s : WrittenSegment)

theorem solid_bare : Name.Solid s.bare := by
  have hword := Name.Solid.of_plain s.isWord.isPlain
  rw [bare, argsPart]
  cases hargs : s.args with
  | none => rwa [Option.elim_none, List.append_nil]
  | some cs =>
      have hbrackets := Name.Solid.brackets (s.balanced cs hargs)
      exact hword.append ((solid_of_isBlank s.blankGap).append hbrackets)

theorem solid_chars : Name.Solid s.chars :=
  (solid_of_isBlank s.blankFront).append (s.solid_bare.append (solid_of_isBlank s.blankBehind))

theorem bare_bare : Name.Bare s.bare where
  first := by
    obtain ⟨c, cs, hword, hc, -⟩ := s.isWord
    have hcontinues := Token.continuesWord_of_startsWord hc
    refine ⟨c, cs ++ s.argsPart, by rw [bare, hword]; rfl,
      Token.not_isSpace_of_continuesWord hcontinues, ?_⟩
    rintro rfl
    exact absurd hcontinues (by decide)
  last c hc := by
    rw [bare, argsPart] at hc
    cases hargs : s.args with
    | none =>
        rw [hargs, Option.elim_none, List.append_nil] at hc
        exact Token.not_isSpace_of_continuesWord
          (s.isWord.continuesWord c (List.mem_of_getLast? hc))
    | some cs =>
        rw [hargs, Option.elim_some, ← List.cons_append, ← List.append_assoc, ← List.append_assoc,
          List.getLast?_concat] at hc
        exact Option.some.inj hc ▸ by decide

theorem trim_chars : Text.trim s.chars = s.bare := by
  rw [chars, Text.trim_blank_append s.blankFront, Text.trim_append_blank s.blankBehind,
    s.bare_bare.trim_eq]

end WrittenSegment

/-- Cut at each `::` outside brackets, a path falls into its segments. -/
theorem segments_pathChars {p : List WrittenSegment} (hne : p ≠ []) :
    Name.segments (pathChars p) = p.map WrittenSegment.bare := by
  fun_induction pathChars p with
  | case1 => exact absurd rfl hne
  | case2 s =>
      have hread := s.solid_chars [] []
      rw [List.append_nil, List.append_nil] at hread
      rw [Name.segments, hread, Name.segmentsFrom, List.reverse_reverse, s.trim_chars]
      rfl
  | case3 s t rest ih =>
      rw [Name.segments, s.solid_chars, List.append_nil, Name.segmentsFrom, if_pos rfl,
        List.reverse_reverse, s.trim_chars]
      exact congrArg _ (ih (List.cons_ne_nil t rest))

end CppReflect.Spelling
