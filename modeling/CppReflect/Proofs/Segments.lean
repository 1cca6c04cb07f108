import CppReflect.Name
import CppReflect.Proofs.Text
import Mathlib.Data.List.Basic

/-!
# Cutting names that were put together

A name that is put together from segments is cut into the same segments again, if the brackets in
each segment match: a `::` inside brackets cuts nothing, and one between two segments is outside all
brackets. A segment with template arguments is taken apart into the name and the arguments.
-/

namespace CppReflect.Name

/-! ## Brackets -/

/-- The character closes a bracket. -/
def closes (c : Char) : Bool := c = '>' || c = ')' || c = ']'

/-- The bracket depth behind a text; `none` if it closes a bracket that was not opened. -/
def levelBehind? (depth : Nat) : List Char → Option Nat
  | [] => some depth
  | c :: cs => if depth = 0 ∧ closes c then none else levelBehind? (depthAfter depth c) cs

/-- Every bracket of the text is closed in it, and opened in front. -/
def Balanced (cs : List Char) : Prop := levelBehind? 0 cs = some 0

instance (cs : List Char) : Decidable (Balanced cs) := inferInstanceAs (Decidable (_ = _))

/-- The character is part of plain names: no blank, no colon and no bracket. -/
def isPlain (c : Char) : Bool :=
  !Text.isSpace c && c != ':' && c != '<' && c != '(' && c != '[' && !closes c

theorem depthAfter_succ {depth : Nat} {c : Char} (h : ¬(depth = 0 ∧ closes c = true)) :
    depthAfter (depth + 1) c = depthAfter depth c + 1 := by
  unfold depthAfter
  by_cases hopen : c = '<' ∨ c = '(' ∨ c = '['
  · simp only [if_pos hopen]
  · by_cases hclose : c = '>' ∨ c = ')' ∨ c = ']'
    · have hpos : depth ≠ 0 := fun hzero => h ⟨hzero, by simpa [closes, or_assoc] using hclose⟩
      simp only [if_neg hopen, if_pos hclose]
      omega
    · simp only [if_neg hopen, if_neg hclose]

theorem depthAfter_of_plain {c : Char} (hc : isPlain c = true) (depth : Nat) :
    depthAfter depth c = depth := by
  simp only [isPlain, closes, Bool.and_eq_true, Bool.not_eq_true', bne_iff_ne, ne_eq,
    Bool.or_eq_false_iff, decide_eq_false_iff_not] at hc
  simp [depthAfter, hc]

theorem ne_colon_of_plain {c : Char} (hc : isPlain c = true) : c ≠ ':' := by
  rintro rfl
  exact absurd hc (by decide)

/-! ## Reading a segment -/

/-- A `::` outside brackets cuts; every other character goes to the segment. -/
theorem segmentsFrom_step {depth : Nat} {c : Char} {rest : List Char}
    (h : ¬(depth = 0 ∧ c = ':' ∧ rest.head? = some ':')) (segment : List Char) :
    segmentsFrom depth segment (c :: rest) =
      segmentsFrom (depthAfter depth c) (c :: segment) rest := by
  rw [segmentsFrom.eq_def]
  split
  next heq => cases heq
  next rest' heq =>
    obtain ⟨rfl, rfl⟩ := List.cons.inj heq
    exact if_neg fun hdepth => h ⟨hdepth, rfl, rfl⟩
  next heq =>
    obtain ⟨rfl, rfl⟩ := List.cons.inj heq
    rfl

/-- A character that does not begin a `::` outside brackets goes to the segment. -/
theorem segmentsFrom_cons {depth : Nat} {c : Char} (h : depth ≠ 0 ∨ c ≠ ':')
    (segment rest : List Char) :
    segmentsFrom depth segment (c :: rest) =
      segmentsFrom (depthAfter depth c) (c :: segment) rest :=
  segmentsFrom_step (fun hcut => h.elim (· hcut.1) (· hcut.2.1)) segment

/-- A text that is read in one piece, wherever it stands outside brackets. -/
def Solid (cs : List Char) : Prop :=
  ∀ segment rest, segmentsFrom 0 segment (cs ++ rest) = segmentsFrom 0 (cs.reverse ++ segment) rest

namespace Solid

theorem append {cs ds : List Char} (hcs : Solid cs) (hds : Solid ds) : Solid (cs ++ ds) := by
  intro segment rest
  rw [List.append_assoc, hcs, hds, List.reverse_append, List.append_assoc]

theorem of_plain {cs : List Char} (hcs : cs.all isPlain = true) : Solid cs := by
  intro segment rest
  induction cs generalizing segment with
  | nil => rfl
  | cons c cs ih =>
      simp only [List.all_cons, Bool.and_eq_true] at hcs
      rw [List.cons_append, segmentsFrom_cons (.inr (ne_colon_of_plain hcs.1)),
        depthAfter_of_plain hcs.1, ih hcs.2]
      simp

end Solid

/-- Inside brackets no `::` cuts the text, as long as the brackets stay open. -/
theorem segmentsFrom_inside {cs : List Char} {depth behind : Nat}
    (hlevel : levelBehind? depth cs = some behind) (segment rest : List Char) :
    segmentsFrom (depth + 1) segment (cs ++ rest) =
      segmentsFrom (behind + 1) (cs.reverse ++ segment) rest := by
  induction cs generalizing depth segment with
  | nil =>
      obtain rfl : depth = behind := Option.some.inj hlevel
      rfl
  | cons c cs ih =>
      rw [levelBehind?] at hlevel
      split at hlevel
      next => cases hlevel
      next hopen =>
        rw [List.cons_append, segmentsFrom_cons (.inl (Nat.succ_ne_zero depth)),
          depthAfter_succ hopen, ih hlevel]
        simp

/-- Brackets around a text whose own brackets match. -/
theorem Solid.brackets {cs : List Char} (hcs : Balanced cs) : Solid ('<' :: (cs ++ ['>'])) := by
  intro segment rest
  rw [List.cons_append, segmentsFrom_cons (.inr (by decide)), List.append_assoc]
  change segmentsFrom (0 + 1) _ _ = _
  rw [segmentsFrom_inside hcs, List.singleton_append,
    segmentsFrom_cons (.inl (Nat.succ_ne_zero 0))]
  change segmentsFrom 0 _ _ = _
  simp

/-! ## Segments in a row -/

theorem dropWhile_of_head {p : Char → Bool} {cs : List Char} (h : ∀ c ∈ cs.head?, p c = false) :
    cs.dropWhile p = cs := by
  cases cs with
  | nil => rfl
  | cons c cs => simp [h c rfl]

theorem isSpace_of_plain {c : Char} (hc : isPlain c = true) : Text.isSpace c = false := by
  simp only [isPlain, Bool.and_eq_true, Bool.not_eq_true'] at hc
  exact hc.1.1.1.1.1

/-- Nothing is trimmed from a text with no blank at either end. -/
theorem trim_of_ends {cs : List Char} (hfirst : ∀ c ∈ cs.head?, Text.isSpace c = false)
    (hlast : ∀ c ∈ cs.getLast?, Text.isSpace c = false) : Text.trim cs = cs := by
  unfold Text.trim Text.trimLeft Text.trimRight
  rw [dropWhile_of_head hfirst, dropWhile_of_head, List.reverse_reverse]
  rw [List.head?_reverse]
  exact hlast

/-- A text with nothing at its ends that reading takes away: it starts with no blank and no colon,
and ends with no blank. -/
structure Bare (cs : List Char) : Prop where
  first : ∃ c rest, cs = c :: rest ∧ Text.isSpace c = false ∧ c ≠ ':'
  last : ∀ c ∈ cs.getLast?, Text.isSpace c = false

namespace Bare

variable {cs : List Char}

theorem trim_eq (h : Bare cs) : Text.trim cs = cs := by
  obtain ⟨c, rest, rfl, hc⟩ := h.first
  exact trim_of_ends (fun d hd => Option.some.inj hd ▸ hc.1) h.last

theorem afterStart?_colons (h : Bare cs) : Text.afterStart? [':', ':'] cs = none := by
  obtain ⟨c, rest, rfl, hc⟩ := h.first
  exact if_neg fun heq => hc.2 heq.symm

end Bare

/-- A text that is read in one piece and not trimmed is a segment in front of others. -/
theorem segments_append {cs : List Char} (hsolid : Solid cs) (htrim : Text.trim cs = cs)
    (rest : List Char) : segments (cs ++ ':' :: ':' :: rest) = cs :: segments rest := by
  unfold segments
  rw [hsolid, segmentsFrom.eq_def]
  simp [htrim]

/-- Alone it is the only segment. -/
theorem segments_solid {cs : List Char} (hsolid : Solid cs) (htrim : Text.trim cs = cs) :
    segments cs = [cs] := by
  have hread := hsolid [] []
  rw [List.append_nil, List.append_nil] at hread
  rw [segments, hread, segmentsFrom, List.reverse_reverse, htrim]

/-- A segment that is read as it stands, between others as well as at either end of a name. -/
structure IsSegment (s : String) : Prop where
  solid : Solid s.toList
  bare : Bare s.toList

theorem segments_cons {s : String} (hs : IsSegment s) (rest : List Char) :
    segments (s.toList ++ ':' :: ':' :: rest) = s.toList :: segments rest :=
  segments_append hs.solid hs.bare.trim_eq rest

theorem segments_last {s : String} (hs : IsSegment s) : segments s.toList = [s.toList] :=
  segments_solid hs.solid hs.bare.trim_eq

/-- The segments of a name in its scopes are the segments it was put together from. -/
theorem segments_join {scopes : List String} {last : String} (hscopes : ∀ s ∈ scopes, IsSegment s)
    (hlast : segments last.toList = [last.toList]) :
    split (String.join (scopes.map (· ++ "::")) ++ last) = scopes ++ [last] := by
  unfold split
  induction scopes with
  | nil =>
      rw [List.map_nil, String.join_nil, String.empty_append, hlast]
      simp
  | cons s scopes ih =>
      have hrest := ih fun t ht => hscopes t (List.mem_cons_of_mem s ht)
      have htext : (String.join ((s :: scopes).map (· ++ "::")) ++ last).toList =
          s.toList ++ ':' :: ':' :: (String.join (scopes.map (· ++ "::")) ++ last).toList := by
        simp [String.join_cons]
      rw [htext, segments_cons (hscopes s List.mem_cons_self), List.map_cons, hrest]
      simp

/-- A name in its scopes starts and ends as its first and its last segment do. -/
theorem bare_join {scopes : List String} {last : String} (hscopes : ∀ s ∈ scopes, IsSegment s)
    (hlast : Bare last.toList) : Bare (String.join (scopes.map (· ++ "::")) ++ last).toList where
  first := by
    cases scopes with
    | nil =>
        rw [List.map_nil, String.join_nil, String.empty_append]
        exact hlast.first
    | cons s scopes =>
        obtain ⟨c, rest, hfirst, hc⟩ := (hscopes s List.mem_cons_self).bare.first
        rw [List.map_cons, String.join_cons, String.append_assoc, String.append_assoc,
          String.toList_append, hfirst]
        exact ⟨c, _, List.cons_append, hc⟩
  last c hc := by
    obtain ⟨d, rest, hfirst, -⟩ := hlast.first
    rw [String.toList_append, hfirst, List.getLast?_append_cons, ← hfirst] at hc
    exact hlast.last c hc

/-! ## Blanks -/

theorem squash_dropWhile (cs : List Char) :
    Text.squash (cs.dropWhile Text.isSpace) = Text.squash cs := by
  induction cs with
  | nil => rfl
  | cons c cs ih =>
      rw [List.dropWhile_cons]
      split
      next hspace => simpa [Text.squash, hspace] using ih
      next => rfl

/-- The blanks around a text are none of its other characters. -/
theorem squash_trim (cs : List Char) : Text.squash (Text.trim cs) = Text.squash cs := by
  have hreverse (ds : List Char) : Text.squash ds.reverse = (Text.squash ds).reverse :=
    List.filter_reverse
  rw [Text.trim, Text.trimRight, hreverse, squash_dropWhile, ← hreverse, List.reverse_reverse,
    Text.trimLeft, squash_dropWhile]

/-! ## Reading segments again -/

/-- A blank goes to the segment and opens or closes nothing. -/
theorem segmentsFrom_blank {b : Char} (hb : Text.isSpace b = true) (depth : Nat)
    (segment rest : List Char) :
    segmentsFrom depth segment (b :: rest) = segmentsFrom depth (b :: segment) rest := by
  have hnot {c : Char} (hc : Text.isSpace c = false) : b ≠ c := fun heq => by simp [heq, hc] at hb
  rw [segmentsFrom_cons (.inr (hnot (by decide)))]
  congr 1
  have hopen : ¬(b = '<' ∨ b = '(' ∨ b = '[') := by
    rintro (h | h | h) <;> exact hnot (by decide) h
  have hclose : ¬(b = '>' ∨ b = ')' ∨ b = ']') := by
    rintro (h | h | h) <;> exact hnot (by decide) h
  rw [depthAfter, if_neg hopen, if_neg hclose]

theorem segmentsFrom_blanks {blanks : List Char} (h : Text.IsBlank blanks) (depth : Nat)
    (segment rest : List Char) :
    segmentsFrom depth segment (blanks ++ rest) =
      segmentsFrom depth (blanks.reverse ++ segment) rest := by
  induction blanks generalizing segment with
  | nil => rfl
  | cons b blanks ih =>
      rw [List.cons_append, segmentsFrom_blank (h b List.mem_cons_self),
        ih fun c hc => h c (List.mem_cons_of_mem b hc)]
      simp

/-- Blanks that were read in front of a segment do not belong to it. -/
theorem segmentsFrom_behind_blanks {blanks : List Char} (h : Text.IsBlank blanks) (depth : Nat)
    (segment cs : List Char) :
    segmentsFrom depth (segment ++ blanks) cs = segmentsFrom depth segment cs := by
  have htrim (segment : List Char) :
      Text.trim (segment ++ blanks).reverse = Text.trim segment.reverse := by
    rw [List.reverse_append, Text.trim_blank_append h.reverse]
  fun_induction segmentsFrom depth segment cs with
  | case1 depth segment => rw [segmentsFrom, htrim]
  | case2 segment rest _ => rw [segmentsFrom, if_pos rfl, htrim]
  | case3 depth segment rest hdepth ih => rw [segmentsFrom, if_neg hdepth]; exact ih
  | case4 depth segment c rest hcut ih =>
      rw [segmentsFrom]
      · exact ih
      · exact hcut

/-- Blanks behind a text do not belong to its last segment. -/
theorem segmentsFrom_append_blanks {blanks : List Char} (h : Text.IsBlank blanks) (depth : Nat)
    (segment cs : List Char) :
    segmentsFrom depth segment (cs ++ blanks) = segmentsFrom depth segment cs := by
  fun_induction segmentsFrom depth segment cs with
  | case1 depth segment =>
      have hread := segmentsFrom_blanks h depth segment []
      rw [List.append_nil] at hread
      rw [List.nil_append, hread, segmentsFrom, List.reverse_append, List.reverse_reverse,
        Text.trim_append_blank h]
  | case2 segment rest ih =>
      rw [List.cons_append, List.cons_append, segmentsFrom, if_pos rfl, ih]
  | case3 depth segment rest hdepth ih =>
      rw [List.cons_append, List.cons_append, segmentsFrom, if_neg hdepth]
      exact ih
  | case4 depth segment c rest hcut ih =>
      rw [List.cons_append, segmentsFrom_step, ih]
      rintro ⟨-, hc, hhead⟩
      cases rest with
      | nil =>
          -- what follows the colon is a blank, if anything
          have hcolon := h ':' (List.mem_of_head? hhead)
          exact absurd hcolon (by decide)
      | cons next rest => exact hcut rest hc (congrArg (· :: rest) (Option.some.inj hhead))

theorem segments_trimRight (cs : List Char) : segments (Text.trimRight cs) = segments cs := by
  obtain ⟨behind, hbehind, hcs⟩ := Text.exists_trimRight_blank cs
  have happend := segmentsFrom_append_blanks hbehind 0 [] (Text.trimRight cs)
  rw [hcs] at happend
  exact happend.symm

/-- Blanks around a text belong to none of its segments. -/
theorem segments_trim (cs : List Char) : segments (Text.trim cs) = segments cs := by
  obtain ⟨front, hfront, hcs⟩ := Text.exists_blank_trimLeft cs
  have hleft : segments (Text.trimLeft cs) = segments cs := by
    calc segments (Text.trimLeft cs)
        = segmentsFrom 0 ([] ++ front.reverse) (Text.trimLeft cs) :=
          (segmentsFrom_behind_blanks hfront.reverse 0 [] _).symm
      _ = segmentsFrom 0 [] (front ++ Text.trimLeft cs) := by
          rw [segmentsFrom_blanks hfront, List.append_nil, List.nil_append]
      _ = segments cs := by rw [hcs, segments]
  rw [Text.trim, segments_trimRight, hleft]

/-- A segment is what was read of it already and some characters behind that, which are read as the
same segment where nothing follows, or else it is a later one, which is read as it stands. -/
theorem segmentsFrom_mem {depth : Nat} {segment cs s : List Char}
    (hs : s ∈ segmentsFrom depth segment cs) :
    (∃ front, front <+: cs ∧ s = Text.trim (segment.reverse ++ front) ∧
      segmentsFrom depth segment front = [s]) ∨ segments s = [s] := by
  fun_induction segmentsFrom depth segment cs with
  | case1 depth segment =>
      obtain rfl := List.mem_singleton.mp hs
      exact .inl ⟨[], List.nil_prefix, by rw [List.append_nil], rfl⟩
  | case2 segment rest ih =>
      rcases List.mem_cons.mp hs with rfl | hs
      · exact .inl ⟨[], List.nil_prefix, by rw [List.append_nil], rfl⟩
      · right
        rcases ih hs with ⟨front, -, hfront, hread⟩ | hread
        · rw [hfront, List.reverse_nil, List.nil_append, segments_trim]
          rw [hfront, List.reverse_nil, List.nil_append] at hread
          exact hread
        · exact hread
  | case3 depth segment rest hdepth ih =>
      rcases ih hs with ⟨front, hprefix, hfront, hread⟩ | hread
      · refine .inl ⟨':' :: front, (List.cons_prefix_cons).mpr ⟨rfl, hprefix⟩, ?_, ?_⟩
        · simp [hfront]
        · rw [segmentsFrom_cons (.inl hdepth)]
          exact hread
      · exact .inr hread
  | case4 depth segment c rest hcut ih =>
      rcases ih hs with ⟨front, hprefix, hfront, hread⟩ | hread
      · refine .inl ⟨c :: front, (List.cons_prefix_cons).mpr ⟨rfl, hprefix⟩, ?_, ?_⟩
        · simp [hfront]
        · rw [segmentsFrom_step]
          · exact hread
          · rintro ⟨-, hc, hhead⟩
            obtain ⟨rest', hfront'⟩ := List.head?_eq_some_iff.mp hhead
            obtain ⟨behind, rfl⟩ := hprefix
            exact hcut (rest' ++ behind) hc (by rw [hfront', List.cons_append])
      · exact .inr hread

/-- A segment of a name is read as one segment again. -/
theorem segments_of_mem {cs s : List Char} (hs : s ∈ segments cs) : segments s = [s] := by
  rcases segmentsFrom_mem hs with ⟨front, -, hfront, hread⟩ | hread
  · rw [List.reverse_nil, List.nil_append] at hfront
    rw [← hread, hfront, segments_trim, segments]
  · exact hread

theorem segmentsFrom_ne_nil (depth : Nat) (segment cs : List Char) :
    segmentsFrom depth segment cs ≠ [] := by
  fun_induction segmentsFrom depth segment cs <;> simp_all

/-! ## Template arguments -/

theorem cutAt_eq_none {p : Char → Bool} {cs : List Char} (h : ∀ c ∈ cs, p c = false) :
    Text.cutAt p cs = none := by
  induction cs with
  | nil => rfl
  | cons c cs ih =>
      have hrest := ih fun d hd => h d (List.mem_cons_of_mem c hd)
      simp [Text.cutAt, h c List.mem_cons_self, hrest]

theorem cutAt_append {p : Char → Bool} {cs : List Char} (h : ∀ c ∈ cs, p c = false) {d : Char}
    (hd : p d = true) (rest : List Char) : Text.cutAt p (cs ++ d :: rest) = some (cs, rest) := by
  induction cs with
  | nil => simp [Text.cutAt, hd]
  | cons c cs ih =>
      have hrest := ih fun e he => h e (List.mem_cons_of_mem c he)
      simp [Text.cutAt, h c List.mem_cons_self, hrest]

theorem cutAtLast_append {p : Char → Bool} {d : Char} (hd : p d = true) (cs : List Char) :
    Text.cutAtLast p (cs ++ [d]) = some (cs, []) := by
  induction cs with
  | nil => simp [Text.cutAtLast, hd]
  | cons c cs ih => simp [Text.cutAtLast, ih]

/-- What begins with a text that has no `<` in it does so in front of the first `<`. -/
theorem isPrefixOf_append {start : List Char} (hstart : '<' ∉ start) (cs rest : List Char) :
    start.isPrefixOf (cs ++ '<' :: rest) = start.isPrefixOf cs := by
  induction start generalizing cs with
  | nil => simp
  | cons s start ih =>
      obtain ⟨hs, hrest⟩ := not_or.mp (mt List.mem_cons.mpr hstart)
      cases cs with
      | nil => simp [List.isPrefixOf, Ne.symm hs]
      | cons c cs => simp [List.isPrefixOf, ih hrest]

theorem toList_args (name args : String) : (name ++ "<" ++ args ++ ">").toList =
    name.toList ++ '<' :: (args.toList ++ ['>']) := by
  simp

/-- A name with template arguments starts as the name does, and ends with a bracket. -/
theorem bare_args {name : String}
    (hfirst : ∃ c rest, name.toList = c :: rest ∧ Text.isSpace c = false ∧ c ≠ ':')
    (args : String) : Bare (name ++ "<" ++ args ++ ">").toList where
  first := by
    obtain ⟨c, rest, hname, hc⟩ := hfirst
    exact ⟨c, _, by rw [toList_args, hname, List.cons_append], hc⟩
  last c hc := by
    rw [toList_args, ← List.cons_append, ← List.append_assoc, List.getLast?_concat] at hc
    exact Option.some.inj hc ▸ by decide

theorem startsWith_operator_args (name args : String) :
    Text.startsWith "operator" (name ++ "<" ++ args ++ ">") = Text.startsWith "operator" name := by
  rw [Text.startsWith, toList_args, isPrefixOf_append (by decide), Text.startsWith]

/-- A name that is read as it stands, with and without template arguments behind it. -/
structure IsPlainName (name : String) : Prop where
  nonempty : name ≠ ""
  plain : name.toList.all isPlain = true
  noOperator : Text.startsWith "operator" name = false

namespace IsPlainName

variable {name : String}

theorem isPlain_of_mem (h : IsPlainName name) {c : Char} (hc : c ∈ name.toList) :
    isPlain c = true := List.all_eq_true.mp h.plain c hc

theorem ne_open_of_mem (h : IsPlainName name) : ∀ c ∈ name.toList, (c == '<') = false := by
  intro c hc
  refine beq_false_of_ne ?_
  rintro rfl
  exact absurd (h.isPlain_of_mem hc) (by decide)

theorem first (h : IsPlainName name) :
    ∃ c rest, name.toList = c :: rest ∧ Text.isSpace c = false ∧ c ≠ ':' := by
  cases hname : name.toList with
  | nil => exact absurd (String.toList_eq_nil_iff.mp hname) h.nonempty
  | cons c rest =>
      have hc := h.isPlain_of_mem (hname ▸ List.mem_cons_self)
      exact ⟨c, rest, rfl, isSpace_of_plain hc, ne_colon_of_plain hc⟩

theorem isSegment (h : IsPlainName name) : IsSegment name where
  solid := Solid.of_plain h.plain
  bare := ⟨h.first, fun _ hc => isSpace_of_plain (h.isPlain_of_mem (List.mem_of_getLast? hc))⟩

theorem isSegment_args (h : IsPlainName name) {args : String} (hargs : Balanced args.toList) :
    IsSegment (name ++ "<" ++ args ++ ">") where
  solid := by
    rw [toList_args]
    exact (Solid.of_plain h.plain).append (Solid.brackets hargs)
  bare := bare_args h.first args

theorem templateId_self (h : IsPlainName name) : templateId name = (name, none) := by
  simp [templateId, cutAt_eq_none h.ne_open_of_mem]

theorem templateId_args (h : IsPlainName name) (args : String) :
    templateId (name ++ "<" ++ args ++ ">") = (name, some (Text.trimmed args)) := by
  have hstart : Text.startsWith "operator" (name ++ "<" ++ args ++ ">") = false := by
    rw [startsWith_operator_args, h.noOperator]
  have hargs := cutAtLast_append (p := (· == '>')) (beq_self_eq_true '>') args.toList
  unfold templateId
  simp only [toList_args, cutAt_append h.ne_open_of_mem (beq_self_eq_true '<'), hargs, hstart]
  simp [h.isSegment.bare.trim_eq, Text.trimmed]

end IsPlainName

/-! ## Operators -/

/-- The name of a template: a plain name, or that of an operator. -/
inductive IsTemplateName (name : String) : Prop
  | plain (h : IsPlainName name)
  | operator (hstart : Text.startsWith "operator" name = true) (hcolon : ':' ∉ name.toList)

/-- Without a colon nothing is cut, whatever the brackets are. -/
theorem segmentsFrom_colonless {cs : List Char} (h : ':' ∉ cs) (depth : Nat)
    (segment rest : List Char) : segmentsFrom depth segment (cs ++ rest) =
      segmentsFrom (cs.foldl depthAfter depth) (cs.reverse ++ segment) rest := by
  induction cs generalizing depth segment with
  | nil => rfl
  | cons c cs ih =>
      obtain ⟨hc, hcs⟩ := not_or.mp (mt List.mem_cons.mpr h)
      rw [List.cons_append, segmentsFrom_cons (.inr (Ne.symm hc)), ih hcs]
      simp

theorem levelBehind?_succ {depth behind : Nat} {cs : List Char}
    (h : levelBehind? depth cs = some behind) :
    levelBehind? (depth + 1) cs = some (behind + 1) := by
  induction cs generalizing depth with
  | nil =>
      obtain rfl : depth = behind := Option.some.inj h
      rfl
  | cons c cs ih =>
      rw [levelBehind?] at h ⊢
      split at h
      next => cases h
      next hopen =>
        rw [if_neg fun hzero => absurd hzero.1 (Nat.succ_ne_zero depth), depthAfter_succ hopen]
        exact ih h

/-- Matching brackets lead back to any depth that they start at. -/
theorem Balanced.levelBehind?_eq {cs : List Char} (h : Balanced cs) (depth : Nat) :
    levelBehind? depth cs = some depth := by
  induction depth with
  | zero => exact h
  | succ depth ih => exact levelBehind?_succ ih

namespace IsTemplateName

variable {name : String}

theorem colonless (h : IsTemplateName name) : ':' ∉ name.toList := by
  cases h with
  | plain h => exact fun hc => ne_colon_of_plain (h.isPlain_of_mem hc) rfl
  | operator _ hcolon => exact hcolon

theorem first (h : IsTemplateName name) :
    ∃ c rest, name.toList = c :: rest ∧ Text.isSpace c = false ∧ c ≠ ':' := by
  cases h with
  | plain h => exact h.first
  | operator hstart _ =>
      obtain ⟨rest, hrest⟩ := List.isPrefixOf_iff_prefix.mp hstart
      exact ⟨'o', _, hrest.symm, by decide, by decide⟩

theorem segments_args (h : IsTemplateName name) {args : String} (hargs : Balanced args.toList) :
    segments (name ++ "<" ++ args ++ ">").toList = [(name ++ "<" ++ args ++ ">").toList] := by
  have htrim := (bare_args h.first args).trim_eq
  rw [toList_args] at htrim ⊢
  rw [segments, segmentsFrom_colonless h.colonless, segmentsFrom_cons (.inr (by decide))]
  change segmentsFrom (name.toList.foldl depthAfter 0 + 1) _ _ = _
  rw [segmentsFrom_inside (hargs.levelBehind?_eq _), segmentsFrom_cons (.inr (by decide)),
    segmentsFrom]
  simp [htrim]

end IsTemplateName

theorem templateId_operator {segment : String} (h : Text.startsWith "operator" segment = true) :
    templateId segment = (segment, none) := by
  unfold templateId
  dsimp only
  split
  next => rfl
  next =>
    split
    next => rfl
    next => exact if_pos h

end CppReflect.Name
