import CppReflect.Proofs.Segments

/-!
# Cutting and joining

Cutting a name at its `::` and joining segments with `::` undo each other. Joined segments are found
again if none of them has an open bracket at its end or a `::` outside brackets; a closing bracket
too many makes no difference. Where segments meet, three colons may stand in a row. The first two of
them cut, so a segment may begin with a colon but not end in one. A name without blanks is joined
again from its segments.
-/

namespace CppReflect.Name

/-! ## Joining, then cutting -/

/-- Read from a depth on, the text has no `::` outside brackets. -/
def uncutFrom (depth : Nat) : List Char → Bool
  | [] => true
  | c :: cs =>
    !(depth == 0 && c == ':' && cs.head? == some ':') && uncutFrom (depthAfter depth c) cs

/-- A text that nothing cuts goes to the segment. It does not end in a colon, which might begin a
`::` with what follows. -/
theorem segmentsFrom_uncut {depth : Nat} {cs : List Char} (huncut : uncutFrom depth cs = true)
    (hlast : cs.getLast? ≠ some ':') (segment rest : List Char) :
    segmentsFrom depth segment (cs ++ rest) =
      segmentsFrom (cs.foldl depthAfter depth) (cs.reverse ++ segment) rest := by
  induction cs generalizing depth segment with
  | nil => rfl
  | cons c cs ih =>
      rw [uncutFrom, Bool.and_eq_true] at huncut
      have hcut : ¬(depth = 0 ∧ c = ':' ∧ (cs ++ rest).head? = some ':') := by
        rintro ⟨rfl, rfl, hhead⟩
        cases cs with
        | nil => exact hlast rfl
        | cons d cs =>
            obtain rfl : d = ':' := Option.some.inj hhead
            exact Bool.false_ne_true huncut.1
      have hbehind : cs.getLast? ≠ some ':' := by
        intro hcolon
        rw [List.getLast?_cons, hcolon] at hlast
        exact hlast rfl
      rw [List.cons_append, segmentsFrom_step hcut, ih huncut.2 hbehind]
      simp

/-- A text that stays a segment between others: no blank at either end, no colon at its end, no open
bracket behind it, and no `::` outside brackets in it. -/
structure IsClosedSegment (s : String) : Prop where
  noBlankFirst : ∀ c ∈ s.toList.head?, Text.isSpace c = false
  noBlankLast : ∀ c ∈ s.toList.getLast?, Text.isSpace c = false
  noColonLast : s.toList.getLast? ≠ some ':'
  level : s.toList.foldl depthAfter 0 = 0
  uncut : uncutFrom 0 s.toList = true

namespace IsClosedSegment

variable {s : String}

theorem trim_eq (h : IsClosedSegment s) : Text.trim s.toList = s.toList :=
  trim_of_ends h.noBlankFirst h.noBlankLast

theorem solid (h : IsClosedSegment s) : Solid s.toList := by
  intro segment rest
  rw [segmentsFrom_uncut h.uncut h.noColonLast, h.level]

end IsClosedSegment

/-- Joined segments are cut again where they were joined. -/
theorem split_joined {texts : List String} (hne : texts ≠ [])
    (h : ∀ s ∈ texts, IsClosedSegment s) : split (Text.joined "::" texts) = texts := by
  have hsegments : segments (Text.joined "::" texts).toList = texts.map String.toList := by
    induction texts with
    | nil => exact absurd rfl hne
    | cons s rest ih =>
        obtain ⟨hs, htail⟩ := List.forall_mem_cons.mp h
        by_cases hrest : rest = []
        · subst hrest
          exact segments_solid hs.solid hs.trim_eq
        · have htext : (s ++ "::" ++ Text.joined "::" rest).toList =
              s.toList ++ ':' :: ':' :: (Text.joined "::" rest).toList := by
            simp
          rw [Text.joined_cons hrest, htext, segments_append hs.solid hs.trim_eq, ih hrest htail,
            List.map_cons]
  rw [split, hsegments, List.map_map]
  exact List.map_id'' (fun _ => String.ofList_toList) texts

/-! ## Cutting, then joining -/

/-- There is no blank in the text. -/
def IsBlankless (cs : List Char) : Prop := ∀ c ∈ cs, Text.isSpace c = false

theorem isBlankless_nil : IsBlankless [] := fun _ hc => absurd hc List.not_mem_nil

theorem IsBlankless.trim_eq {cs : List Char} (h : IsBlankless cs) : Text.trim cs = cs :=
  trim_of_ends (fun c hc => h c (List.mem_of_head? hc)) fun c hc => h c (List.mem_of_getLast? hc)

/-- No character is lost or added between the segments but the `::`. -/
theorem joined_segmentsFrom (depth : Nat) {segment cs : List Char}
    (hsegment : IsBlankless segment) (hcs : IsBlankless cs) :
    Text.joined "::" ((segmentsFrom depth segment cs).map String.ofList) =
      String.ofList (segment.reverse ++ cs) := by
  have htrim {segment : List Char} (h : IsBlankless segment) :
      Text.trim segment.reverse = segment.reverse :=
    IsBlankless.trim_eq fun c hc => h c (List.mem_reverse.mp hc)
  fun_induction segmentsFrom depth segment cs with
  | case1 depth segment => rw [htrim hsegment, List.append_nil]; rfl
  | case2 segment rest ih =>
      have hrest : IsBlankless rest := fun c hc =>
        hcs c (List.mem_cons_of_mem _ (List.mem_cons_of_mem _ hc))
      have hjoined := ih isBlankless_nil hrest
      have hne : (segmentsFrom 0 [] rest).map String.ofList ≠ [] :=
        mt List.map_eq_nil_iff.mp (segmentsFrom_ne_nil 0 [] rest)
      rw [List.map_cons, Text.joined_cons hne, hjoined, htrim hsegment]
      apply String.toList_inj.mp
      simp
  | case3 depth segment rest _ ih =>
      obtain ⟨hc, hrest⟩ := List.forall_mem_cons.mp hcs
      rw [ih (List.forall_mem_cons.mpr ⟨hc, hsegment⟩) hrest]
      simp
  | case4 depth segment c rest _ ih =>
      obtain ⟨hc, hrest⟩ := List.forall_mem_cons.mp hcs
      rw [ih (List.forall_mem_cons.mpr ⟨hc, hsegment⟩) hrest]
      simp

/-- A name without blanks is what its segments are joined to. -/
theorem joined_split {name : String} (h : IsBlankless name.toList) :
    Text.joined "::" (split name) = name := by
  rw [split, segments, joined_segmentsFrom 0 isBlankless_nil h, List.reverse_nil,
    List.nil_append, String.ofList_toList]

/-- Cutting undoes the joining of closed segments, and joining undoes the cutting of a name without
blanks. -/
theorem split_inverts_joined :
    (∀ texts : List String, texts ≠ [] → (∀ s ∈ texts, IsClosedSegment s) →
      split (Text.joined "::" texts) = texts) ∧
    (∀ name : String, (∀ c ∈ name.toList, Text.isSpace c = false) →
      Text.joined "::" (split name) = name) :=
  ⟨fun _ hne h => split_joined hne h, fun _ h => joined_split h⟩

/-- Three colons in a row, an empty segment, a bracket too many and a `::` in brackets. -/
theorem split_inverts_joined_colons :
    (∀ s ∈ ["A>", ":B<C::D>", "", ":x"], IsClosedSegment s) ∧
      split "A>:::B<C::D>:::::x" = ["A>", ":B<C::D>", "", ":x"] ∧
      Text.joined "::" (split "A>:::B<C::D>:::::x") = "A>:::B<C::D>:::::x" := by
  have hclosed : ∀ s ∈ ["A>", ":B<C::D>", "", ":x"], IsClosedSegment s := by
    simp only [List.forall_mem_cons]
    refine ⟨?_, ?_, ?_, ?_, nofun⟩
    · exact ⟨by rintro _ ⟨⟩; decide, by rintro _ ⟨⟩; decide, by decide, by decide, by decide⟩
    · exact ⟨by rintro _ ⟨⟩; decide, by rintro _ ⟨⟩; decide, by decide, by decide, by decide⟩
    · exact ⟨nofun, nofun, by decide, by decide, by decide⟩
    · exact ⟨by rintro _ ⟨⟩; decide, by rintro _ ⟨⟩; decide, by decide, by decide, by decide⟩
  obtain ⟨hsplit, hjoined⟩ := split_inverts_joined
  exact ⟨hclosed, hsplit _ (by decide) hclosed, hjoined _ (by simp [Text.isSpace])⟩

end CppReflect.Name
