import CppReflect.Proofs.Pieces
import CppReflect.Proofs.Spelling.Names

/-!
# Reading template arguments

The tokens of a text are its characters but for the blanks, and writing tokens back adds nothing but
blanks. So where the brackets of a text match, the arguments that are read from it, written in a
row, have the characters of the text, and their brackets match again.
-/

namespace CppReflect.Spelling

open Token (scan)

/-! ## The characters of tokens -/

/-- The characters of the tokens in a row. -/
def letters (ts : List Token) : List Char := ts.flatMap fun t => t.text.toList

/-- The characters that make a difference where template arguments are read. -/
def isMark (c : Char) : Bool :=
  c = '<' || c = '(' || c = '[' || Name.closes c || c = ','

/-- What a token is made of: no blanks, and marks only if it is one character. -/
structure Token.Visible (t : Token) : Prop where
  noBlank : ∀ c ∈ t.text.toList, Text.isSpace c = false
  marks : (∃ c, t.text.toList = [c]) ∨ ∀ c ∈ t.text.toList, isMark c = false

theorem isMark_of_continues {c : Char} (h : Token.continues c = true) : isMark c = false := by
  have hne : ∀ d : Char, Token.continues d = false → c ≠ d := by
    rintro d hd rfl
    rw [h] at hd
    cases hd
  simp [isMark, Name.closes, hne '<' (by decide), hne '(' (by decide), hne '[' (by decide),
    hne '>' (by decide), hne ')' (by decide), hne ']' (by decide), hne ',' (by decide)]

theorem isSpace_of_continues {c : Char} (h : Token.continues c = true) :
    Text.isSpace c = false := by
  by_contra hspace
  have hnot := Token.not_continues_of_isSpace (Bool.not_eq_false _ ▸ hspace)
  rw [Token.continues, hnot.1, hnot.2] at h
  cases h

theorem Token.visible_of_continues {t : Token}
    (h : ∀ c ∈ t.text.toList, Token.continues c = true) : t.Visible where
  noBlank c hc := isSpace_of_continues (h c hc)
  marks := .inr fun c hc => isMark_of_continues (h c hc)

theorem visible_punctAt {c : Char} (hc : Text.isSpace c = false) (rest : List Char) :
    (Token.punct (Token.punctAt c rest).1).Visible := by
  have hlong (p : String) (hp : p.toList.all fun c => !Text.isSpace c && !isMark c) :
      (Token.punct p).Visible := by
    have hall := List.all_eq_true.mp hp
    simp only [Bool.and_eq_true, Bool.not_eq_true'] at hall
    exact ⟨fun c hc => (hall c hc).1, .inr fun c hc => (hall c hc).2⟩
  fun_cases Token.punctAt c rest
  · exact hlong "..." (by decide)
  · exact hlong "::" (by decide)
  · exact hlong "&&" (by decide)
  · exact ⟨by simpa [Token.text] using hc, .inl ⟨c, by simp [Token.text]⟩⟩

theorem punctAt_letters (c : Char) (rest : List Char) :
    (Token.punctAt c rest).1.toList ++ (Token.punctAt c rest).2 = c :: rest := by
  fun_cases Token.punctAt c rest <;> simp

/-- A character and those behind it that go on with its token are the text of that token. -/
theorem visible_run {c : Char} (rest : List Char) {p : Char → Bool} (hc : p c = true)
    (hp : ∀ d, p d = true → Token.continues d = true) {t : Token}
    (ht : t.text = String.ofList (c :: rest.takeWhile p)) :
    t.Visible ∧ t.text.toList ++ rest.dropWhile p = c :: rest := by
  rw [ht, String.toList_ofList, List.cons_append, List.takeWhile_append_dropWhile]
  refine ⟨Token.visible_of_continues ?_, rfl⟩
  rw [ht, String.toList_ofList]
  intro d hd
  apply hp
  rcases List.mem_cons.mp hd with rfl | hd
  · exact hc
  · exact List.mem_takeWhile_imp hd

/-- A text that starts with no blank starts with its first token. -/
theorem scan_cons_visible {c : Char} (hc : Text.isSpace c = false) (rest : List Char) :
    ∃ t behind, scan (c :: rest) = t :: scan behind ∧ t.Visible ∧
      t.text.toList ++ behind = c :: rest ∧ behind.length ≤ rest.length := by
  have hshorter (p : Char → Bool) : (rest.dropWhile p).length ≤ rest.length :=
    (List.dropWhile_suffix p).length_le
  rw [Token.scan_cons, if_neg (by simp [hc])]
  by_cases hword : Token.startsWord c = true
  · obtain ⟨hvisible, htext⟩ := visible_run rest
      (Token.continuesWord_of_startsWord hword) (fun _ => Token.continues_of_continuesWord)
      (t := .word _) rfl
    exact ⟨_, _, if_pos hword, hvisible, htext, hshorter _⟩
  rw [if_neg hword]
  by_cases hdigit : c.isDigit = true
  · obtain ⟨hvisible, htext⟩ := visible_run rest
      (Token.continuesNumber_of_isDigit hdigit) (fun _ => Token.continues_of_continuesNumber)
      (t := .number _) rfl
    exact ⟨_, _, if_pos hdigit, hvisible, htext, hshorter _⟩
  · rw [if_neg hdigit]
    exact ⟨_, _, rfl, visible_punctAt hc rest, punctAt_letters c rest, Token.punctAt_length c rest⟩

theorem squash_append (cs ds : List Char) :
    Text.squash (cs ++ ds) = Text.squash cs ++ Text.squash ds := List.filter_append cs ds

theorem squash_of_noBlank {cs : List Char} (h : ∀ c ∈ cs, Text.isSpace c = false) :
    Text.squash cs = cs := List.filter_eq_self.mpr fun c hc => by rw [h c hc]; rfl

/-- The tokens of a text are its characters but for the blanks. -/
theorem scan_letters (cs : List Char) :
    (∀ t ∈ scan cs, t.Visible) ∧ letters (scan cs) = Text.squash cs := by
  induction hlength : cs.length using Nat.strongRecOn generalizing cs with
  | ind n ih =>
      cases cs with
      | nil => exact ⟨fun t ht => absurd ht List.not_mem_nil, rfl⟩
      | cons c rest =>
          rw [List.length_cons] at hlength
          cases hspace : Text.isSpace c with
          | true =>
              have hsquash : Text.squash (c :: rest) = Text.squash rest :=
                List.filter_cons_of_neg (by simp [hspace])
              rw [Token.scan_cons, if_pos hspace, hsquash]
              exact ih rest.length (by omega) rest rfl
          | false =>
              obtain ⟨t, behind, hscan, ht, htext, hshorter⟩ := scan_cons_visible hspace rest
              obtain ⟨hvisible, hletters⟩ := ih behind.length (by omega) behind rfl
              rw [hscan, ← htext, squash_append, squash_of_noBlank ht.noBlank, ← hletters]
              exact ⟨List.forall_mem_cons.mpr ⟨ht, hvisible⟩, rfl⟩

/-- Tokens are written back with nothing but blanks between them. -/
theorem squash_render {ts : List Token} (h : ∀ t ∈ ts, t.Visible) :
    Text.squash (Token.render ts).toList = letters ts := by
  induction ts with
  | nil => rfl
  | cons t ts ih =>
      obtain ⟨ht, hts⟩ := List.forall_mem_cons.mp h
      have hfront := squash_of_noBlank ht.noBlank
      cases ts with
      | nil =>
          rw [Token.render, hfront]
          exact (List.append_nil _).symm
      | cons u ts =>
          have hbetween : Text.squash (if Token.spaced t u then " " else "").toList = [] := by
            split <;> decide
          rw [Token.render, String.toList_append, String.toList_append, squash_append,
            squash_append, hfront, hbetween, List.append_nil, ih hts]
          rfl

/-! ## Brackets -/

theorem levelBehind?_blank {c : Char} (hc : Text.isSpace c = true) (depth : Nat) (cs : List Char) :
    Name.levelBehind? depth (c :: cs) = Name.levelBehind? depth cs := by
  have hne : ∀ d : Char, Text.isSpace d = false → c ≠ d := by
    rintro d hd rfl
    rw [hc] at hd
    cases hd
  simp [Name.levelBehind?, Name.depthAfter, Name.closes, hne '<' (by decide), hne '(' (by decide),
    hne '[' (by decide), hne '>' (by decide), hne ')' (by decide), hne ']' (by decide)]

theorem levelBehind?_squash (depth : Nat) (cs : List Char) :
    Name.levelBehind? depth (Text.squash cs) = Name.levelBehind? depth cs := by
  induction cs generalizing depth with
  | nil => rfl
  | cons c cs ih =>
      cases hspace : Text.isSpace c with
      | true =>
          rw [Text.squash, List.filter_cons_of_neg (by simp [hspace]), levelBehind?_blank hspace]
          exact ih depth
      | false =>
          rw [Text.squash, List.filter_cons_of_pos (by simp [hspace]), Name.levelBehind?,
            Name.levelBehind?]
          exact congrArg _ (ih _)

/-- Blanks make no difference to whether brackets match. -/
theorem balanced_of_squash_eq {cs ds : List Char} (heq : Text.squash cs = Text.squash ds)
    (h : Name.Balanced cs) : Name.Balanced ds := by
  rw [Name.Balanced, ← levelBehind?_squash, ← heq, levelBehind?_squash]
  exact h

theorem depthAfter_of_noMark {c : Char} (hc : isMark c = false) (depth : Nat) :
    Name.depthAfter depth c = depth := by
  simp only [isMark, Name.closes, Bool.or_eq_false_iff, decide_eq_false_iff_not] at hc
  simp [Name.depthAfter, hc]

theorem closes_of_noMark {c : Char} (hc : isMark c = false) : Name.closes c = false := by
  simp only [isMark, Bool.or_eq_false_iff] at hc
  exact hc.1.2

theorem levelBehind?_noMarks {cs : List Char} (h : ∀ c ∈ cs, isMark c = false) (depth : Nat)
    (ds : List Char) : Name.levelBehind? depth (cs ++ ds) = Name.levelBehind? depth ds := by
  induction cs with
  | nil => rfl
  | cons c cs ih =>
      obtain ⟨hc, hcs⟩ := List.forall_mem_cons.mp h
      rw [List.cons_append, Name.levelBehind?, depthAfter_of_noMark hc,
        if_neg fun hclose => by simp [closes_of_noMark hc] at hclose]
      exact ih hcs

/-! ## One token of the arguments -/

variable {t : Token} {depth : Nat} {arg ts : List Token}

/-- A token without marks goes to the argument. -/
theorem templateArgsFrom_noMarks (h : ∀ c ∈ t.text.toList, isMark c = false) (depth : Nat)
    (arg ts : List Token) :
    templateArgsFrom depth arg (t :: ts) = templateArgsFrom depth (t :: arg) ts := by
  have hne : ∀ d : Char, isMark d = true → t.text ≠ String.ofList [d] := by
    intro d hd heq
    rw [heq, String.toList_ofList, List.forall_mem_singleton, hd] at h
    cases h
  have hangle : t.text ≠ ">" := hne '>' (by decide)
  have hcomma : t.text ≠ "," := hne ',' (by decide)
  have hopen : ¬(t.text = "<" ∨ t.text = "(" ∨ t.text = "[") := by
    rintro (heq | heq | heq)
    · exact hne '<' (by decide) heq
    · exact hne '(' (by decide) heq
    · exact hne '[' (by decide) heq
  have hclose : ¬(t.text = ">" ∨ t.text = ")" ∨ t.text = "]") := by
    rintro (heq | heq | heq)
    · exact hangle heq
    · exact hne ')' (by decide) heq
    · exact hne ']' (by decide) heq
  rw [templateArgsFrom]
  simp only [if_neg hopen, if_neg hclose, if_neg fun h : t.text = ">" ∧ depth = 0 => hangle h.1,
    if_neg fun h : t.text = "," ∧ depth = 0 => hcomma h.1]

theorem text_eq_iff {c d : Char} (h : t.text.toList = [c]) :
    t.text = String.ofList [d] ↔ c = d := by
  rw [← String.ofList_toList (s := t.text), h]
  constructor
  · intro heq
    have hchars := congrArg String.toList heq
    rw [String.toList_ofList, String.toList_ofList] at hchars
    exact (List.cons.inj hchars).1
  · rintro rfl
    rfl

/-- A character goes to the argument, and a bracket opens or closes, unless the arguments end there
or the next one begins. -/
theorem templateArgsFrom_single {c : Char} (hc : t.text.toList = [c])
    (hinside : ¬(depth = 0 ∧ Name.closes c = true)) (hcomma : ¬(c = ',' ∧ depth = 0))
    (arg ts : List Token) :
    templateArgsFrom depth arg (t :: ts) =
      templateArgsFrom (Name.depthAfter depth c) (t :: arg) ts := by
  have hangle : ¬(c = '>' ∧ depth = 0) := by
    rintro ⟨rfl, hzero⟩
    exact hinside ⟨hzero, by decide⟩
  have htext (d : Char) : t.text = String.ofList [d] ↔ c = d := text_eq_iff hc
  rw [templateArgsFrom]
  simp only [show t.text = "<" ↔ c = '<' from htext '<', show t.text = "(" ↔ c = '(' from htext '(',
    show t.text = "[" ↔ c = '[' from htext '[', show t.text = ">" ↔ c = '>' from htext '>',
    show t.text = ")" ↔ c = ')' from htext ')', show t.text = "]" ↔ c = ']' from htext ']',
    show t.text = "," ↔ c = ',' from htext ',', if_neg hangle, if_neg hcomma, Name.depthAfter]
  split_ifs <;> rfl

theorem templateArgsFrom_comma (hcomma : t.text = ",") (arg ts : List Token) :
    templateArgsFrom 0 arg (t :: ts) = templateArgsFrom 0 [] ts >>= fun r =>
      .ok (Token.render arg.reverse :: r.1, r.2) := by
  rw [templateArgsFrom]
  simp only [hcomma]
  rfl

theorem templateArgsFrom_end (arg ts : List Token) :
    templateArgsFrom 0 arg (.punct ">" :: ts) = .ok ([Token.render arg.reverse], ts) := rfl

/-! ## All of the arguments -/

theorem visible_nil : ∀ t ∈ ([] : List Token), t.Visible := fun _ ht => absurd ht List.not_mem_nil

/-- Where the brackets of the tokens match, all of them are read as arguments. -/
theorem templateArgsFrom_level (harg : ∀ t ∈ arg, t.Visible) (hts : ∀ t ∈ ts, t.Visible)
    (hlevel : Name.levelBehind? depth (letters ts) = some 0) (rest : List Token) :
    ∃ args, templateArgsFrom depth arg (ts ++ .punct ">" :: rest) = .ok (args, rest) ∧ args ≠ [] ∧
      Text.squash (Text.joined ", " args).toList = letters arg.reverse ++ letters ts := by
  have hrender {arg : List Token} (harg : ∀ t ∈ arg, t.Visible) :
      Text.squash (Token.render arg.reverse).toList = letters arg.reverse :=
    squash_render fun t ht => harg t (List.mem_reverse.mp ht)
  have hmove (t : Token) (arg ts : List Token) :
      letters (t :: arg).reverse ++ letters ts = letters arg.reverse ++ letters (t :: ts) := by
    simp [letters]
  induction ts generalizing depth arg with
  | nil =>
      obtain rfl : depth = 0 := Option.some.inj hlevel
      refine ⟨_, templateArgsFrom_end arg rest, List.cons_ne_nil _ _, ?_⟩
      rw [Text.joined, hrender harg]
      exact (List.append_nil _).symm
  | cons t ts ih =>
      obtain ⟨ht, hts⟩ := List.forall_mem_cons.mp hts
      have hletters : letters (t :: ts) = t.text.toList ++ letters ts := rfl
      rw [hletters] at hlevel
      rw [List.cons_append]
      rcases ht.marks with ⟨c, hc⟩ | hnone
      · rw [hc, List.singleton_append, Name.levelBehind?] at hlevel
        split at hlevel
        next => cases hlevel
        next hinside =>
          by_cases hcomma : c = ',' ∧ depth = 0
          · -- the next argument begins
            obtain ⟨rfl, rfl⟩ := hcomma
            have htext : t.text = "," := (text_eq_iff hc).mpr rfl
            have hbehind : Name.levelBehind? 0 (letters ts) = some 0 := hlevel
            obtain ⟨args, hread, hne, hsquash⟩ := ih visible_nil hts hbehind
            refine ⟨Token.render arg.reverse :: args, ?_, List.cons_ne_nil _ _, ?_⟩
            · rw [templateArgsFrom_comma htext, hread]
              rfl
            · rw [Text.joined_cons hne, String.toList_append, String.toList_append, squash_append,
                squash_append, hrender harg, hsquash, hletters, hc, List.append_assoc]
              rfl
          · obtain ⟨args, hread, hne, hsquash⟩ :=
              ih (List.forall_mem_cons.mpr ⟨ht, harg⟩) hts hlevel
            exact ⟨args, (templateArgsFrom_single hc hinside hcomma arg _).trans hread, hne,
              hsquash.trans (hmove t arg ts)⟩
      · rw [levelBehind?_noMarks hnone] at hlevel
        obtain ⟨args, hread, hne, hsquash⟩ :=
          ih (List.forall_mem_cons.mpr ⟨ht, harg⟩) hts hlevel
        exact ⟨args, (templateArgsFrom_noMarks hnone depth arg _).trans hread, hne,
          hsquash.trans (hmove t arg ts)⟩

/-- A text whose brackets match is read as arguments that have its characters in a row. -/
theorem templateArgsFrom_balanced {cs : List Char} (h : Name.Balanced cs) (rest : List Token) :
    ∃ args, templateArgsFrom 0 [] (scan cs ++ .punct ">" :: rest) = .ok (args, rest) ∧
      Text.squash (Text.joined ", " args).toList = Text.squash cs := by
  obtain ⟨hvisible, hletters⟩ := scan_letters cs
  have hlevel : Name.levelBehind? 0 (letters (scan cs)) = some 0 := by
    rw [hletters, levelBehind?_squash]
    exact h
  obtain ⟨args, hread, -, hsquash⟩ :=
    templateArgsFrom_level visible_nil hvisible hlevel rest
  exact ⟨args, hread, hsquash.trans hletters⟩

end CppReflect.Spelling
