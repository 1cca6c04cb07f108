import CppReflect.Proofs.Segments

/-!
# Template arguments in a row

The texts of template arguments stand in a row with commas between them. They can be told from one
another in there if each comma of their own is inside brackets: the text is cut at the other commas,
and the pieces are the arguments again. Blanks around or inside them make no difference.
-/

namespace CppReflect.Name

/-! ## Cutting at commas -/

/-- The pieces of a text between the commas outside brackets, where `piece` is the part of the first
one that has been read already, last character first. -/
def piecesFrom (depth : Nat) (piece : List Char) : List Char → List (List Char)
  | [] => [piece.reverse]
  | c :: rest =>
    if depth = 0 ∧ c = ',' then piece.reverse :: piecesFrom 0 [] rest
    else piecesFrom (depthAfter depth c) (c :: piece) rest

/-- The pieces of a text between the commas outside brackets. -/
def pieces (text : String) : List (List Char) := piecesFrom 0 [] text.toList

/-- From a depth on the brackets match and each comma is inside some. -/
def wholeFrom (depth : Nat) : List Char → Bool
  | [] => depth == 0
  | c :: cs => !(depth == 0 && (c == ',' || closes c)) && wholeFrom (depthAfter depth c) cs

/-- A text that is one piece: its brackets match and each comma is inside some. -/
def IsWhole (text : String) : Prop := wholeFrom 0 text.toList = true

instance (text : String) : Decidable (IsWhole text) := inferInstanceAs (Decidable (_ = _))

theorem piecesFrom_whole {depth : Nat} {cs : List Char} (h : wholeFrom depth cs = true)
    (piece rest : List Char) :
    piecesFrom depth piece (cs ++ rest) = piecesFrom 0 (cs.reverse ++ piece) rest := by
  induction cs generalizing depth piece with
  | nil =>
      obtain rfl : depth = 0 := beq_iff_eq.mp h
      rfl
  | cons c cs ih =>
      rw [wholeFrom, Bool.and_eq_true] at h
      have hcomma : ¬(depth = 0 ∧ c = ',') := by
        rintro ⟨rfl, rfl⟩
        exact absurd h.1 (by decide)
      rw [List.cons_append, piecesFrom, if_neg hcomma, ih h.2]
      simp

theorem levelBehind?_of_whole {depth : Nat} {cs : List Char} (h : wholeFrom depth cs = true) :
    levelBehind? depth cs = some 0 := by
  induction cs generalizing depth with
  | nil =>
      obtain rfl : depth = 0 := beq_iff_eq.mp h
      rfl
  | cons c cs ih =>
      rw [wholeFrom, Bool.and_eq_true] at h
      have hclose : ¬(depth = 0 ∧ closes c = true) := by
        rintro ⟨rfl, hc⟩
        simp [hc] at h
      rw [levelBehind?, if_neg hclose, ih h.2]

theorem levelBehind?_append {depth : Nat} (cs ds : List Char) :
    levelBehind? depth (cs ++ ds) = (levelBehind? depth cs).bind (levelBehind? · ds) := by
  induction cs generalizing depth with
  | nil => rfl
  | cons c cs ih =>
      rw [List.cons_append, levelBehind?, levelBehind?]
      split
      next => rfl
      next => exact ih

/-- Texts that are whole have no bracket open behind them. -/
theorem balanced_joined {texts : List String} (h : ∀ s ∈ texts, IsWhole s) :
    Balanced (Text.joined ", " texts).toList := by
  fun_induction Text.joined ", " texts with
  | case1 => rfl
  | case2 s => exact levelBehind?_of_whole (h s List.mem_cons_self)
  | case3 s rest hrest ih =>
      obtain ⟨hs, hrest⟩ := List.forall_mem_cons.mp h
      rw [Balanced, String.toList_append, String.toList_append, List.append_assoc,
        levelBehind?_append, levelBehind?_of_whole hs]
      exact ih hrest

/-- The pieces are the texts that were put in a row. -/
theorem pieces_joined {texts : List String} (hne : texts ≠ []) (h : ∀ s ∈ texts, IsWhole s) :
    pieces (Text.joined "," texts) = texts.map String.toList := by
  fun_induction Text.joined "," texts with
  | case1 => exact absurd rfl hne
  | case2 s =>
      have hread := piecesFrom_whole (h s List.mem_cons_self) [] []
      rw [List.append_nil, List.append_nil] at hread
      rw [pieces, hread, piecesFrom, List.reverse_reverse]
      rfl
  | case3 s rest hrest ih =>
      obtain ⟨hs, htail⟩ := List.forall_mem_cons.mp h
      rw [pieces, String.toList_append, String.toList_append, List.append_assoc,
        piecesFrom_whole hs, List.append_nil, List.map_cons, ← ih hrest htail]
      change piecesFrom 0 _ (',' :: _) = _
      rw [piecesFrom, if_pos ⟨rfl, rfl⟩, List.reverse_reverse]
      rfl

/-! ## Blanks -/

theorem squashed_append (s t : String) :
    Text.squashed (s ++ t) = Text.squashed s ++ Text.squashed t := by
  simp [Text.squashed, Text.squash]

theorem squashed_joined (texts : List String) :
    Text.squashed (Text.joined ", " texts) = Text.joined "," (texts.map Text.squashed) := by
  fun_induction Text.joined ", " texts with
  | case1 => rfl
  | case2 s => rfl
  | case3 s rest hrest ih =>
      rw [squashed_append, squashed_append, ih]
      cases rest with
      | nil => exact absurd rfl hrest
      | cons t rest => rfl

/-- A blank is no bracket and no comma. -/
theorem wholeFrom_blank {c : Char} (hc : Text.isSpace c = true) (depth : Nat) (cs : List Char) :
    wholeFrom depth (c :: cs) = wholeFrom depth cs := by
  have hmarks : ['<', '(', '[', '>', ')', ']', ','].all (!Text.isSpace ·) = true := by decide
  have hne : ∀ d ∈ ['<', '(', '[', '>', ')', ']', ','], c ≠ d := by
    rintro d hd rfl
    have hvisible := List.all_eq_true.mp hmarks c hd
    rw [hc] at hvisible
    cases hvisible
  simp only [List.forall_mem_cons] at hne
  simp [wholeFrom, depthAfter, closes, hne]

theorem wholeFrom_squash (depth : Nat) (cs : List Char) :
    wholeFrom depth (Text.squash cs) = wholeFrom depth cs := by
  induction cs generalizing depth with
  | nil => rfl
  | cons c cs ih =>
      by_cases hc : Text.isSpace c = true
      · rw [Text.squash, List.filter_cons_of_neg (by simpa using hc), wholeFrom_blank hc]
        exact ih depth
      · rw [Text.squash, List.filter_cons_of_pos (by simpa using hc), wholeFrom, wholeFrom]
        exact congrArg _ (ih _)

/-- A text that stands for a template argument: it is one piece, and not blank. -/
structure IsArgument (text : String) : Prop where
  whole : IsWhole text
  visible : Text.squashed text ≠ ""

theorem IsArgument.isWhole_squashed {text : String} (h : IsArgument text) :
    IsWhole (Text.squashed text) := by
  rw [IsWhole, Text.squashed, String.toList_ofList, wholeFrom_squash]
  exact h.whole

theorem pieces_squashed {texts : List String} (hne : texts ≠ []) (h : ∀ s ∈ texts, IsArgument s) :
    pieces (Text.squashed (Text.joined ", " texts)) =
      (texts.map Text.squashed).map String.toList := by
  rw [squashed_joined]
  exact pieces_joined (mt List.map_eq_nil_iff.mp hne)
    (List.forall_mem_map.mpr fun s hs => (h s hs).isWhole_squashed)

theorem squashed_joined_ne {texts : List String} (hne : texts ≠ [])
    (h : ∀ s ∈ texts, IsArgument s) : Text.squashed (Text.joined ", " texts) ≠ "" := by
  intro hempty
  have hpieces := pieces_squashed hne h
  rw [hempty] at hpieces
  cases texts with
  | nil => exact hne rfl
  | cons s texts =>
      have hhead : [] = (Text.squashed s).toList := (List.cons.inj hpieces).1
      exact (h s List.mem_cons_self).visible (String.toList_eq_nil_iff.mp hhead.symm)

/-- Arguments in a row have the same text up to blanks only if each of them has. -/
theorem squashed_eq_of_joined {as bs : List String} (has : ∀ s ∈ as, IsArgument s)
    (hbs : ∀ s ∈ bs, IsArgument s)
    (h : Text.squashed (Text.joined ", " as) = Text.squashed (Text.joined ", " bs)) :
    as.map Text.squashed = bs.map Text.squashed := by
  by_cases hane : as = []
  · subst hane
    by_contra hne
    exact squashed_joined_ne (fun hnil => hne (by rw [hnil])) hbs h.symm
  by_cases hbne : bs = []
  · subst hbne
    exact absurd h (squashed_joined_ne hane has)
  have hpieces := congrArg pieces h
  rw [pieces_squashed hane has, pieces_squashed hbne hbs] at hpieces
  exact List.map_injective_iff.mpr (fun _ _ heq => String.toList_injective heq) hpieces

end CppReflect.Name
