import CppReflect.Proofs.Text
import CppReflect.Spelling.Token

/-!
# Cutting texts that are put together

A text is cut into tokens from the left, and where a token ends depends on what follows it. Two
texts that do not touch at a token are cut one after the other; in particular every piece of a
printed type is cut on its own, whatever is printed behind it.
-/

namespace CppReflect.Spelling.Token

/-- The white space characters. -/
def spaceCodes : List Nat :=
  [9, 10, 11, 12, 13, 32, 0x85, 0xA0, 0x1680, 0x2000, 0x2001, 0x2002, 0x2003, 0x2004, 0x2005, 0x2006,
    0x2007, 0x2008, 0x2009, 0x200A, 0x2028, 0x2029, 0x202F, 0x205F, 0x3000]

theorem mem_spaceCodes {c : Char} (h : Text.isSpace c = true) : c.toNat ∈ spaceCodes := by
  simp only [Text.isSpace] at h
  simp only [spaceCodes, List.mem_cons, List.not_mem_nil, or_false]
  split at h <;>
    simp only [Bool.or_eq_true, Bool.and_eq_true, beq_iff_eq, decide_eq_true_eq] at h <;> omega

/-- No blank goes on with a word or a number. -/
theorem not_continues_of_isSpace {c : Char} (h : Text.isSpace c = true) :
    continuesWord c = false ∧ continuesNumber c = false := by
  have hall : ∀ n ∈ spaceCodes,
      continuesWord (Char.ofNat n) = false ∧ continuesNumber (Char.ofNat n) = false := by
    decide +kernel
  have hc := hall c.toNat (mem_spaceCodes h)
  rwa [Char.ofNat_toNat] at hc

theorem continuesWord_of_startsWord {c : Char} (h : startsWord c = true) :
    continuesWord c = true := by
  simp only [startsWord, continuesWord, Text.isAlphanumeric, Bool.or_eq_true] at h ⊢
  rcases h with h | h
  · exact Or.inl (Or.inl h)
  · exact Or.inr h

theorem not_isSpace_of_continuesWord {c : Char} (h : continuesWord c = true) :
    Text.isSpace c = false := by
  cases hs : Text.isSpace c with
  | false => rfl
  | true => rw [(not_continues_of_isSpace hs).1] at h; exact absurd h (by decide)

/-! ## One token at a time -/

/-- The punctuation that a character begins, and what is behind it. -/
def punctAt : Char → List Char → String × List Char
  | '.', '.' :: '.' :: rest => ("...", rest)
  | ':', ':' :: rest => ("::", rest)
  | '&', '&' :: rest => ("&&", rest)
  | c, rest => (String.ofList [c], rest)

theorem punctAt_length (c : Char) (rest : List Char) : (punctAt c rest).2.length ≤ rest.length := by
  unfold punctAt
  split <;> simp only [List.length_cons] <;> omega

theorem scanFrom_succ (fuel : Nat) (c : Char) (rest : List Char) :
    scanFrom (fuel + 1) (c :: rest) =
      if Text.isSpace c then scanFrom fuel rest
      else if startsWord c then
        word (String.ofList (c :: rest.takeWhile continuesWord)) ::
          scanFrom fuel (rest.dropWhile continuesWord)
      else if c.isDigit then
        number (String.ofList (c :: rest.takeWhile continuesNumber)) ::
          scanFrom fuel (rest.dropWhile continuesNumber)
      else punct (punctAt c rest).1 :: scanFrom fuel (punctAt c rest).2 := by
  conv => lhs; unfold scanFrom
  split
  · rfl
  split
  · rfl
  split
  · rfl
  split
  · rfl
  · rfl
  · rfl
  next hdots hcolons hamps => rw [punctAt.eq_4 c rest hdots hcolons hamps]

/-- The number of rounds is that of the characters; further ones find nothing. -/
theorem scanFrom_congr {fuel fuel' : Nat} {cs : List Char} (h : cs.length ≤ fuel)
    (h' : cs.length ≤ fuel') : scanFrom fuel cs = scanFrom fuel' cs := by
  induction fuel generalizing cs fuel' with
  | zero =>
      cases cs with
      | nil => cases fuel' <;> rfl
      | cons c cs => simp at h
  | succ fuel ih =>
      cases cs with
      | nil => cases fuel' <;> rfl
      | cons c rest =>
          obtain ⟨fuel', rfl⟩ := Nat.exists_eq_succ_of_ne_zero (n := fuel') (by
            rintro rfl
            simp at h')
          simp only [List.length_cons, Nat.add_le_add_iff_right] at h
          simp only [List.length_cons, Nat.succ_eq_add_one, Nat.add_le_add_iff_right] at h'
          have hword := (List.dropWhile_suffix continuesWord (l := rest)).length_le
          have hnumber := (List.dropWhile_suffix continuesNumber (l := rest)).length_le
          have hpunct := punctAt_length c rest
          rw [scanFrom_succ, Nat.succ_eq_add_one, scanFrom_succ, ih h h',
            ih (Nat.le_trans hword h) (Nat.le_trans hword h'),
            ih (Nat.le_trans hnumber h) (Nat.le_trans hnumber h'),
            ih (Nat.le_trans hpunct h) (Nat.le_trans hpunct h')]

theorem scan_nil : scan [] = [] := rfl

theorem scan_cons (c : Char) (rest : List Char) :
    scan (c :: rest) =
      if Text.isSpace c then scan rest
      else if startsWord c then
        word (String.ofList (c :: rest.takeWhile continuesWord)) :: scan (rest.dropWhile continuesWord)
      else if c.isDigit then
        number (String.ofList (c :: rest.takeWhile continuesNumber)) ::
          scan (rest.dropWhile continuesNumber)
      else punct (punctAt c rest).1 :: scan (punctAt c rest).2 := by
  have hword := (List.dropWhile_suffix continuesWord (l := rest)).length_le
  have hnumber := (List.dropWhile_suffix continuesNumber (l := rest)).length_le
  unfold scan
  rw [List.length_cons, scanFrom_succ, scanFrom_congr hword (Nat.le_refl _),
    scanFrom_congr hnumber (Nat.le_refl _), scanFrom_congr (punctAt_length c rest) (Nat.le_refl _)]

/-! ## Texts that are put together -/

/-- A character that goes on with a word or a number. -/
def continues (c : Char) : Bool := continuesWord c || continuesNumber c

/-- Two characters that do not belong to one token where the second follows the first. -/
def Apart (l f : Char) : Prop :=
  (continues l = false ∨ continues f = false) ∧ ¬(l = f ∧ (f = '.' ∨ f = ':' ∨ f = '&'))

/-- The texts do not touch at a token. -/
def Separate (a b : List Char) : Prop := ∀ l ∈ a.getLast?, ∀ f ∈ b.head?, Apart l f

theorem Separate.tail {c : Char} {a b : List Char} (h : Separate (c :: a) b) : Separate a b := by
  intro l hl
  refine h l ?_
  rw [Option.mem_def] at hl
  cases a with
  | nil => simp at hl
  | cons d a => simpa using hl

theorem Separate.of_suffix {a a' b : List Char} (h : Separate a b) (hsuffix : a' <:+ a) :
    Separate a' b := by
  obtain ⟨front, rfl⟩ := hsuffix
  induction front with
  | nil => exact h
  | cons c front ih => exact ih h.tail

theorem continues_of_continuesWord {c : Char} (h : continuesWord c = true) : continues c = true := by
  simp [continues, h]

theorem continuesNumber_of_isDigit {c : Char} (h : c.isDigit = true) : continuesNumber c = true := by
  simp [continuesNumber, Text.isAlphanumeric_of_isDigit h]

theorem continues_of_continuesNumber {c : Char} (h : continuesNumber c = true) :
    continues c = true := by
  simp [continues, h]

/-- What a class of characters takes from the front of two texts is taken from the first one, if the
class ends there or the second text does not go on with it. -/
theorem takeWhile_dropWhile_append {p : Char → Bool} {a b : List Char}
    (h : a.dropWhile p = [] → ∀ f ∈ b.head?, p f = false) :
    (a ++ b).takeWhile p = a.takeWhile p ∧ (a ++ b).dropWhile p = a.dropWhile p ++ b := by
  induction a with
  | nil =>
      cases b with
      | nil => exact ⟨rfl, rfl⟩
      | cons f b =>
          have hf := h rfl f rfl
          simp [hf]
  | cons c a ih =>
      by_cases hc : p c = true
      · simp only [List.cons_append, List.takeWhile_cons, List.dropWhile_cons, hc, if_true] at h ⊢
        obtain ⟨htake, hdrop⟩ := ih h
        exact ⟨by rw [htake], hdrop⟩
      · simp [hc]

/-- The last character of a text whose class reaches to its end goes on with a token. -/
theorem getLast?_of_dropWhile_eq_nil {p : Char → Bool} (hp : ∀ d, p d = true → continues d = true)
    {c : Char} {rest : List Char} (hc : continues c = true) (h : rest.dropWhile p = []) :
    ∃ l, (c :: rest).getLast? = some l ∧ continues l = true := by
  induction rest generalizing c with
  | nil => exact ⟨c, rfl, hc⟩
  | cons d rest ih =>
      rw [List.dropWhile_cons] at h
      split at h
      next hd => simpa using ih (hp d hd) h
      next => simp at h

/-- A class of characters that words or numbers are made of takes nothing from behind. -/
theorem Separate.not_class {p : Char → Bool} (hp : ∀ d, p d = true → continues d = true) {c : Char}
    {rest b : List Char} (h : Separate (c :: rest) b) (hc : continues c = true) :
    rest.dropWhile p = [] → ∀ f ∈ b.head?, p f = false := by
  intro hnil f hf
  obtain ⟨l, hl, hlc⟩ := getLast?_of_dropWhile_eq_nil hp hc hnil
  cases hpf : p f with
  | false => rfl
  | true =>
      rcases (h l hl f hf).1 with hfalse | hfalse
      · rw [hlc] at hfalse
        exact absurd hfalse (by decide)
      · rw [hp f hpf] at hfalse
        exact absurd hfalse (by decide)

theorem not_apart_self {c : Char} (hc : c = '.' ∨ c = ':' ∨ c = '&') : ¬Apart c c :=
  fun h => h.2 ⟨rfl, hc⟩

/-- No punctuation reaches from one text into the other. -/
theorem punctAt_append {c : Char} {rest b : List Char} (h : Separate (c :: rest) b) :
    punctAt c (rest ++ b) = ((punctAt c rest).1, (punctAt c rest).2 ++ b) := by
  fun_cases punctAt c rest
  · rfl
  · rfl
  · rfl
  next hdots hcolons hamps =>
    have hself : ∀ {f : Char} {r : List Char}, (f = '.' ∨ f = ':' ∨ f = '&') →
        (c :: rest).getLast? = some f → b ≠ f :: r := by
      rintro f r hf hlast rfl
      exact not_apart_self hf (h f hlast f rfl)
    refine punctAt.eq_4 c (rest ++ b) ?_ ?_ ?_
    · rintro r rfl hr
      match rest, hr with
      | [], hr => exact hself (Or.inl rfl) rfl hr
      | [d], hr =>
          obtain ⟨rfl, hb⟩ := List.cons.inj hr
          exact hself (Or.inl rfl) rfl hb
      | d :: e :: rest, hr =>
          simp only [List.cons_append, List.cons.injEq] at hr
          obtain ⟨rfl, rfl, _⟩ := hr
          exact hdots rest rfl rfl
    · rintro r rfl hr
      match rest, hr with
      | [], hr => exact hself (Or.inr (Or.inl rfl)) rfl hr
      | d :: rest, hr =>
          obtain ⟨rfl, _⟩ := List.cons.inj hr
          exact hcolons rest rfl rfl
    · rintro r rfl hr
      match rest, hr with
      | [], hr => exact hself (Or.inr (Or.inr rfl)) rfl hr
      | d :: rest, hr =>
          obtain ⟨rfl, _⟩ := List.cons.inj hr
          exact hamps rest rfl rfl

theorem punctAt_suffix (c : Char) (rest : List Char) : (punctAt c rest).2 <:+ rest := by
  unfold punctAt
  split
  next rest => exact ⟨['.', '.'], rfl⟩
  next rest => exact ⟨[':'], rfl⟩
  next rest => exact ⟨['&'], rfl⟩
  next => exact List.suffix_refl _

/-- Texts that do not touch at a token are cut one after the other. -/
theorem scan_append {a b : List Char} (h : Separate a b) : scan (a ++ b) = scan a ++ scan b := by
  induction hlength : a.length using Nat.strongRecOn generalizing a with
  | ind n ih =>
      cases a with
      | nil => rfl
      | cons c rest =>
          have hstep : ∀ {rest'}, rest' <:+ rest → scan (rest' ++ b) = scan rest' ++ scan b := by
            intro rest' hsuffix
            refine ih rest'.length ?_ (h.of_suffix (hsuffix.trans (List.suffix_cons c rest))) rfl
            have hle := hsuffix.length_le
            simp only [List.length_cons] at hlength
            omega
          rw [List.cons_append, scan_cons, scan_cons]
          by_cases hspace : Text.isSpace c = true
          · rw [if_pos hspace, if_pos hspace]
            exact hstep (List.suffix_refl rest)
          rw [if_neg hspace, if_neg hspace]
          by_cases hword : startsWord c = true
          · obtain ⟨htake, hdrop⟩ := takeWhile_dropWhile_append (h.not_class
              (fun _ => continues_of_continuesWord)
              (continues_of_continuesWord (continuesWord_of_startsWord hword)))
            rw [if_pos hword, if_pos hword, htake, hdrop, hstep (List.dropWhile_suffix _),
              List.cons_append]
          rw [if_neg hword, if_neg hword]
          by_cases hdigit : c.isDigit = true
          · obtain ⟨htake, hdrop⟩ := takeWhile_dropWhile_append (h.not_class
              (fun _ => continues_of_continuesNumber)
              (continues_of_continuesNumber (continuesNumber_of_isDigit hdigit)))
            rw [if_pos hdigit, if_pos hdigit, htake, hdrop, hstep (List.dropWhile_suffix _),
              List.cons_append]
          rw [if_neg hdigit, if_neg hdigit, punctAt_append h, hstep (punctAt_suffix c rest),
            List.cons_append]

/-! ## Blanks around a text -/

theorem scan_of_isSpace {cs : List Char} (h : ∀ c ∈ cs, Text.isSpace c = true) : scan cs = [] := by
  induction cs with
  | nil => rfl
  | cons c cs ih =>
      rw [scan_cons, if_pos (h c List.mem_cons_self)]
      exact ih fun d hd => h d (List.mem_cons_of_mem _ hd)

theorem scan_trimLeft (cs : List Char) : scan (Text.trimLeft cs) = scan cs := by
  unfold Text.trimLeft
  induction cs with
  | nil => rfl
  | cons c cs ih =>
      cases hspace : Text.isSpace c with
      | true => rw [List.dropWhile_cons_of_pos hspace, ih, scan_cons, if_pos hspace]
      | false => rw [List.dropWhile_cons_of_neg (by simp [hspace])]

theorem apart_of_isSpace (l : Char) {f : Char} (h : Text.isSpace f = true) : Apart l f := by
  have hcontinues := not_continues_of_isSpace h
  refine ⟨Or.inr (by simp [continues, hcontinues]), ?_⟩
  rintro ⟨_, rfl | rfl | rfl⟩ <;> exact absurd h (by decide)

theorem scan_trimRight (cs : List Char) : scan (Text.trimRight cs) = scan cs := by
  obtain ⟨blanks, hblanks, hsplit⟩ := Text.exists_trimRight_blank cs
  have hseparate : Separate (Text.trimRight cs) blanks :=
    fun l _ f hf => apart_of_isSpace l (hblanks f (List.mem_of_mem_head? hf))
  calc scan (Text.trimRight cs)
      = scan (Text.trimRight cs) ++ scan blanks := by rw [scan_of_isSpace hblanks, List.append_nil]
    _ = scan cs := by rw [← scan_append hseparate, hsplit]

/-- Blanks around a text make no difference to its tokens. -/
theorem scan_trim (cs : List Char) : scan (Text.trim cs) = scan cs := by
  rw [Text.trim, scan_trimRight, scan_trimLeft]

end CppReflect.Spelling.Token
