import CppReflect.Proofs.Spelling.Reader
import Mathlib.Data.List.TakeWhile

/-!
# Reading names back

A name is read from its own tokens alone, whatever is written behind them, unless that goes on with
the name. Names of words that have no other meaning in a type are read back from their texts.
-/

namespace CppReflect.Spelling

open Token (scan)

/-! ## Words -/

/-- The text is a word and nothing else. -/
def Identifier (s : String) : Prop :=
  ∃ c cs, s.toList = c :: cs ∧ Token.startsWord c = true ∧ ∀ d ∈ cs, Token.continuesWord d = true

theorem scan_identifier {s : String} (h : Identifier s) : scan s.toList = [.word s] := by
  obtain ⟨c, cs, hs, hc, hcs⟩ := h
  have hspace := Token.not_isSpace_of_continuesWord (Token.continuesWord_of_startsWord hc)
  have htake : cs.takeWhile Token.continuesWord = cs := List.takeWhile_eq_self_iff.mpr hcs
  have hdrop : cs.dropWhile Token.continuesWord = [] := List.dropWhile_eq_nil_iff.mpr hcs
  rw [hs, Token.scan_cons, if_neg (by simp [hspace]), if_pos hc, htake, hdrop, Token.scan_nil, ← hs,
    String.ofList_toList]

/-- What a token of a text can be. -/
def TokenOf (cs : List Char) : Token → Prop
  | .word w => Identifier w
  | .number _ => True
  | .punct p => p ∈ ["...", "::", "&&"] ∨ ∃ c ∈ cs, p = String.ofList [c]

theorem TokenOf.mono {cs cs' : List Char} (h : ∀ c ∈ cs, c ∈ cs') {t : Token} (ht : TokenOf cs t) :
    TokenOf cs' t := by
  cases t with
  | word w => exact ht
  | number n => trivial
  | punct p =>
      rcases ht with ht | ⟨c, hc, rfl⟩
      · exact Or.inl ht
      · exact Or.inr ⟨c, h c hc, rfl⟩

theorem tokenOf_punctAt (c : Char) (rest : List Char) :
    TokenOf (c :: rest) (.punct (Token.punctAt c rest).1) := by
  unfold Token.punctAt
  split
  · exact Or.inl (by simp)
  · exact Or.inl (by simp)
  · exact Or.inl (by simp)
  · exact Or.inr ⟨_, List.mem_cons_self, rfl⟩

/-- The words of a text are words, and its punctuation is made of its characters. -/
theorem tokenOf_mem_scan {cs : List Char} : ∀ t ∈ scan cs, TokenOf cs t := by
  induction hlength : cs.length using Nat.strongRecOn generalizing cs with
  | ind n ih =>
      cases cs with
      | nil => simp [Token.scan_nil]
      | cons c rest =>
          have hrest : ∀ {rest'}, rest' <:+ rest → ∀ t ∈ scan rest', TokenOf (c :: rest) t := by
            intro rest' hsuffix t ht
            refine (ih rest'.length ?_ rfl t ht).mono fun d hd => ?_
            · have hle := hsuffix.length_le
              simp only [List.length_cons] at hlength
              omega
            · exact List.mem_cons_of_mem _ (hsuffix.subset hd)
          intro t ht
          rw [Token.scan_cons] at ht
          split at ht
          · exact hrest (List.suffix_refl _) t ht
          split at ht
          next hword =>
            rcases List.mem_cons.mp ht with rfl | ht
            · exact ⟨c, _, String.toList_ofList, hword, fun d hd => List.mem_takeWhile_imp hd⟩
            · exact hrest (List.dropWhile_suffix _) t ht
          split at ht
          · rcases List.mem_cons.mp ht with rfl | ht
            · trivial
            · exact hrest (List.dropWhile_suffix _) t ht
          · rcases List.mem_cons.mp ht with rfl | ht
            · exact tokenOf_punctAt c rest
            · exact hrest (Token.punctAt_suffix c rest) t ht

/-! ## Names in front of other tokens -/

variable {ts rest : List Token}

theorem templateArgsFrom_append {depth : Nat} {arg : List Token} {args : List String}
    (behind : List Token) (h : templateArgsFrom depth arg ts = .ok (args, rest)) :
    templateArgsFrom depth arg (ts ++ behind) = .ok (args, rest ++ behind) := by
  induction ts generalizing depth arg args rest with
  | nil => simp [templateArgsFrom] at h
  | cons t ts ih =>
      unfold templateArgsFrom at h
      rw [List.cons_append]
      unfold templateArgsFrom
      simp only at h ⊢
      split at h
      next hopen => rw [if_pos hopen, ih h]
      next hopen =>
        rw [if_neg hopen]
        split at h
        next hclose =>
          simp only [Except.ok.injEq, Prod.mk.injEq] at h
          rw [if_pos hclose, ← h.1, ← h.2]
        next hclose =>
          rw [if_neg hclose]
          split at h
          next hother => rw [if_pos hother, ih h]
          next hother =>
            rw [if_neg hother]
            split at h
            next hcomma =>
              obtain ⟨⟨args', rest'⟩, hargs, h⟩ := bind_eq_ok h
              simp only [Except.ok.injEq, Prod.mk.injEq] at h
              rw [if_pos hcomma, ih hargs, ← h.1, ← h.2]
              rfl
            next hcomma => rw [if_neg hcomma, ih h]

theorem nameSegment_append {segment : String} {behind : List Token}
    (h : nameSegment ts = .ok (segment, rest)) (hbehind : rest = [] → nextIs "<" behind = false) :
    nameSegment (ts ++ behind) = .ok (segment, rest ++ behind) := by
  unfold nameSegment at h
  split at h
  next w ts =>
    split at h
    next =>
      simp only [Except.ok.injEq, Prod.mk.injEq] at h
      obtain ⟨rfl, rfl⟩ := h
      cases behind with
      | nil => rfl
      | cons t behind =>
          have ht : t.isPunct "<" = false := hbehind rfl
          simp [nameSegment, ht]
    next t after =>
      simp only [List.cons_append, nameSegment]
      split at h
      next hangle =>
        obtain ⟨⟨args, rest'⟩, hargs, h⟩ := bind_eq_ok h
        simp only [Except.ok.injEq, Prod.mk.injEq] at h
        rw [if_pos hangle, templateArgsFrom_append behind hargs, ← h.1, ← h.2]
        rfl
      next hangle =>
        simp only [Except.ok.injEq, Prod.mk.injEq] at h
        rw [if_neg hangle, ← h.1, ← h.2, List.cons_append]
  next => simp at h

theorem afterScopeMark?_append {behind : List Token} (h : afterScopeMark? ts = some rest) :
    afterScopeMark? (ts ++ behind) = some (rest ++ behind) := by
  unfold afterScopeMark? at h
  split at h
  next t w ts =>
    split at h
    next hmark =>
      rw [← Option.some.inj h]
      simp [afterScopeMark?, hmark]
    next => simp at h
  next => simp at h

/-- Neither template arguments nor a further segment follow. -/
def EndsName (behind : List Token) : Prop :=
  nextIs "<" behind = false ∧ afterScopeMark? behind = none

instance (behind : List Token) : Decidable (EndsName behind) := inferInstanceAs (Decidable (_ ∧ _))

theorem nameSegments_append {fuel : Nat} (fuel' : Nat) {segments : List String} {behind : List Token}
    (h : nameSegments fuel ts = .ok (segments, rest)) (hfuel : fuel ≤ fuel')
    (hangle : rest = [] → nextIs "<" behind = false)
    (hmark : afterScopeMark? (rest ++ behind) = none) :
    nameSegments fuel' (ts ++ behind) = .ok (segments, rest ++ behind) := by
  induction fuel generalizing ts segments fuel' with
  | zero => simp [nameSegments] at h
  | succ fuel ih =>
      obtain ⟨fuel', rfl⟩ : ∃ n, fuel' = n + 1 := ⟨fuel' - 1, by omega⟩
      unfold nameSegments at h ⊢
      obtain ⟨⟨segment, rest₁⟩, hsegment, h⟩ := bind_eq_ok h
      simp only at h
      split at h
      next rest₂ hscope =>
        have hne : rest₁ ≠ [] := by
          rintro rfl
          cases hscope
        obtain ⟨⟨segments', rest₃⟩, hsegments, h⟩ := bind_eq_ok h
        simp only [Except.ok.injEq, Prod.mk.injEq] at h
        obtain ⟨rfl, rfl⟩ := h
        have hrest := ih fuel' hsegments (Nat.le_of_succ_le_succ hfuel)
        rw [nameSegment_append hsegment fun hnil => absurd hnil hne]
        simp [afterScopeMark?_append hscope, hrest]
      next =>
        simp only [Except.ok.injEq, Prod.mk.injEq] at h
        obtain ⟨rfl, rfl⟩ := h
        rw [nameSegment_append hsegment hangle]
        simp [hmark]

theorem expect_cons_eq_ok {p : String} {t : Token} (h : expect p (t :: ts) = .ok rest) :
    t.isPunct p = true ∧ rest = ts := by
  simp only [expect] at h
  split at h
  next ht => exact ⟨ht, (Except.ok.inj h).symm⟩
  next => simp at h

theorem skipGlobal_append {behind : List Token} (h : ts ≠ []) :
    skipGlobal (ts ++ behind) = ((skipGlobal ts).1, (skipGlobal ts).2 ++ behind) := by
  cases ts with
  | nil => exact absurd rfl h
  | cons t ts =>
      simp only [List.cons_append, skipGlobal]
      split <;> rfl

theorem qualifiedName_eq (ts : List Token) :
    qualifiedName ts = nameSegments (skipGlobal ts).2.length (skipGlobal ts).2 >>= fun r =>
      .ok (⟨(skipGlobal ts).1, r.1⟩, r.2) := rfl

theorem memberPointerClass_eq (ts : List Token) :
    memberPointerClass ts =
      memberPointerClassFrom (skipGlobal ts).2.length (skipGlobal ts).2 >>= fun r =>
        .ok (⟨(skipGlobal ts).1, r.1⟩, r.2) := rfl

/-- A name is read from its own tokens whatever follows, if that does not go on with the name. -/
theorem qualifiedName_append {n : QualifiedName} {behind : List Token}
    (h : qualifiedName ts = .ok (n, rest)) (hangle : rest = [] → nextIs "<" behind = false)
    (hmark : afterScopeMark? (rest ++ behind) = none) :
    qualifiedName (ts ++ behind) = .ok (n, rest ++ behind) := by
  have hne : ts ≠ [] := by
    rintro rfl
    exact absurd h (by simp [qualifiedName, skipGlobal, nameSegments, bind, Except.bind])
  rw [qualifiedName_eq] at h ⊢
  obtain ⟨⟨segments, rest'⟩, hsegments, h⟩ := bind_eq_ok h
  simp only [Except.ok.injEq, Prod.mk.injEq] at h
  obtain ⟨rfl, rfl⟩ := h
  rw [skipGlobal_append hne]
  have hread := nameSegments_append ((skipGlobal ts).2 ++ behind).length hsegments (by simp) hangle
    hmark
  rw [hread]
  rfl

theorem memberPointerClassFrom_append {fuel : Nat} (fuel' : Nat) {segments : List String}
    (behind : List Token) (h : memberPointerClassFrom fuel ts = .ok (segments, rest))
    (hfuel : fuel ≤ fuel') :
    memberPointerClassFrom fuel' (ts ++ behind) = .ok (segments, rest ++ behind) := by
  induction fuel generalizing ts segments fuel' rest with
  | zero => simp [memberPointerClassFrom] at h
  | succ fuel ih =>
      obtain ⟨fuel', rfl⟩ : ∃ n, fuel' = n + 1 := ⟨fuel' - 1, by omega⟩
      unfold memberPointerClassFrom at h ⊢
      obtain ⟨⟨segment, rest₁⟩, hsegment, h⟩ := bind_eq_ok h
      obtain ⟨rest₂, hcolons, hrest⟩ := bind_eq_ok h
      cases rest₁ with
      | nil => simp [expect] at hcolons
      | cons t rest₁ =>
          obtain ⟨hmark, rfl⟩ := expect_cons_eq_ok hcolons
          rw [nameSegment_append hsegment (by simp)]
          split at hrest
          next u after =>
            split at hrest
            next hstar =>
              simp only [Except.ok.injEq, Prod.mk.injEq] at hrest
              obtain ⟨rfl, rfl⟩ := hrest
              simp [expect, hmark, hstar]
            next hstar =>
              obtain ⟨⟨segments', rest₃⟩, hsegments, hrest⟩ := bind_eq_ok hrest
              simp only [Except.ok.injEq, Prod.mk.injEq] at hrest
              obtain ⟨rfl, rfl⟩ := hrest
              have hread := ih fuel' hsegments (Nat.le_of_succ_le_succ hfuel)
              rw [List.cons_append] at hread
              simp [expect, hmark, hstar, hread]
          next => simp at hrest

/-- The class of a member pointer is read from its own tokens. -/
theorem memberPointerClass_append {klass : QualifiedName} (behind : List Token)
    (h : memberPointerClass ts = .ok (klass, rest)) :
    memberPointerClass (ts ++ behind) = .ok (klass, rest ++ behind) := by
  have hne : ts ≠ [] := by
    rintro rfl
    exact absurd h (by simp [memberPointerClass, skipGlobal, memberPointerClassFrom, bind,
      Except.bind])
  rw [memberPointerClass_eq] at h ⊢
  obtain ⟨⟨segments, rest'⟩, hsegments, h⟩ := bind_eq_ok h
  simp only [Except.ok.injEq, Prod.mk.injEq] at h
  obtain ⟨rfl, rfl⟩ := h
  rw [skipGlobal_append hne]
  have hread := memberPointerClassFrom_append ((skipGlobal ts).2 ++ behind).length behind hsegments
    (by simp)
  rw [hread]
  rfl

/-! ## Names made of words -/

/-- The words that mean something else than a name in a type. -/
def Reserved (w : String) : Prop :=
  (Quals.ofWord? w).isSome = true ∨ elaboratedWords.contains w = true ∨
    builtinWords.contains w = true

instance (w : String) : Decidable (Reserved w) := inferInstanceAs (Decidable (_ ∨ _))

/-- The name is made of words alone, without template arguments. -/
structure OfWords (n : QualifiedName) : Prop where
  nonempty : n.segments ≠ []
  words : ∀ w ∈ n.segments, Identifier w

/-- The name is made of words that have no other meaning. -/
structure Plain (n : QualifiedName) : Prop extends OfWords n where
  unreserved : ∀ w ∈ n.segments, ¬Reserved w

/-- The tokens of words with `::` between two. -/
def wordTokens : List String → List Token
  | [] => []
  | [w] => [.word w]
  | w :: rest => .word w :: .punct "::" :: wordTokens rest

theorem separate_colon_right {w : String} (h : Identifier w) (b : List Char) :
    Token.Separate w.toList (':' :: b) := by
  obtain ⟨c, cs, hw, hc, hcs⟩ := h
  rintro l hl _ ⟨rfl⟩
  refine ⟨Or.inr (by decide), ?_⟩
  rintro ⟨rfl, _⟩
  rw [hw] at hl
  have hmem : ':' ∈ c :: cs := List.mem_of_getLast? hl
  rcases List.mem_cons.mp hmem with rfl | hmem
  · exact absurd hc (by decide)
  · exact absurd (hcs _ hmem) (by decide)

theorem separate_colon_left {w : String} (h : Identifier w) (b : List Char) :
    Token.Separate [':', ':'] (w.toList ++ b) := by
  obtain ⟨c, cs, hw, hc, _⟩ := h
  rintro _ ⟨rfl⟩ f hf
  rw [hw] at hf
  obtain rfl : c = f := Option.some.inj hf
  refine ⟨Or.inl (by decide), ?_⟩
  rintro ⟨rfl, _⟩
  exact absurd hc (by decide)

theorem joined_head (w : String) (rest : List String) :
    ∃ b, (Text.joined "::" (w :: rest)).toList = w.toList ++ b := by
  cases rest with
  | nil => exact ⟨[], by simp [Text.joined]⟩
  | cons v rest =>
      refine ⟨':' :: ':' :: (Text.joined "::" (v :: rest)).toList, ?_⟩
      simp [Text.joined, List.append_assoc]

/-- Words joined by `::` are cut into the words, in front of anything that parts from a word. -/
theorem scan_joined_append {segments : List String} {behind : List Char}
    (h : ∀ w ∈ segments, Identifier w) (hne : segments ≠ [])
    (hbehind : ∀ w, Identifier w → Token.Separate w.toList behind) :
    scan ((Text.joined "::" segments).toList ++ behind) = wordTokens segments ++ scan behind := by
  induction segments with
  | nil => exact absurd rfl hne
  | cons w rest ih =>
      have hw := h w List.mem_cons_self
      cases rest with
      | nil =>
          simp only [Text.joined, wordTokens]
          rw [Token.scan_append (hbehind w hw), scan_identifier hw]
      | cons v rest =>
          have hv := h v (List.mem_cons_of_mem _ List.mem_cons_self)
          have htail := ih (fun u hu => h u (List.mem_cons_of_mem _ hu)) (by simp)
          obtain ⟨b, hb⟩ := joined_head v rest
          have hcolons : ∀ b, scan ([':', ':'] ++ (v.toList ++ b)) =
              .punct "::" :: scan (v.toList ++ b) := fun b =>
            Token.scan_append (separate_colon_left hv b)
          rw [Text.joined_cons (by simp), String.toList_append, String.toList_append,
            List.append_assoc, List.append_assoc]
          change scan (w.toList ++ ':' :: ([':'] ++ (_ ++ behind))) = _
          rw [Token.scan_append (separate_colon_right hw _), scan_identifier hw]
          change [Token.word w] ++ scan ([':', ':'] ++ (_ ++ behind)) = _
          rw [hb, List.append_assoc, hcolons, ← List.append_assoc, ← hb, htail]
          rfl

/-- The tokens of a name made of words. -/
def nameTokens (n : QualifiedName) : List Token :=
  (if n.global then [.punct "::"] else []) ++ wordTokens n.segments

theorem scan_text_append {n : QualifiedName} (behind : List Char) (h : OfWords n)
    (hbehind : ∀ w, Identifier w → Token.Separate w.toList behind) :
    scan (n.text.toList ++ behind) = nameTokens n ++ scan behind := by
  have hjoined := scan_joined_append h.words h.nonempty hbehind
  unfold QualifiedName.text nameTokens
  cases n.global with
  | false => simpa using hjoined
  | true =>
      cases hsegments : n.segments with
      | nil => exact absurd hsegments h.nonempty
      | cons w rest =>
          rw [hsegments] at hjoined
          have hw := h.words w (by simp [hsegments])
          obtain ⟨b, hb⟩ := joined_head w rest
          rw [if_pos rfl, if_pos rfl, String.toList_append, List.append_assoc]
          change scan ([':', ':'] ++ ((Text.joined "::" (w :: rest)).toList ++ behind)) = _
          rw [hb, List.append_assoc, Token.scan_append (separate_colon_left hw _),
            ← List.append_assoc, ← hb, hjoined]
          rfl

theorem textTokens_text {n : QualifiedName} (h : OfWords n) : textTokens n.text = nameTokens n := by
  have hscan := scan_text_append [] h fun _ _ _ _ _ hf => absurd hf (by simp)
  simpa [textTokens, Token.scan_nil] using hscan

theorem textTokens_class {n : QualifiedName} (h : OfWords n) :
    textTokens (n.text ++ "::*") = nameTokens n ++ [.punct "::", .punct "*"] := by
  unfold textTokens
  rw [String.toList_append]
  exact scan_text_append _ h fun w hw => separate_colon_right hw _

/-- A name begins with its first word. -/
theorem exists_wordTokens (w : String) (rest : List String) :
    ∃ behind, wordTokens (w :: rest) = .word w :: behind := by
  cases rest with
  | nil => exact ⟨[], rfl⟩
  | cons v rest => exact ⟨_, rfl⟩

/-- Between the first word of a name and the second one stands `::`. -/
theorem exists_wordTokens_cons (w v : String) (rest : List String) :
    ∃ behind, wordTokens (v :: rest) = .word v :: behind ∧
      wordTokens (w :: v :: rest) = .word w :: .punct "::" :: .word v :: behind := by
  obtain ⟨behind, hv⟩ := exists_wordTokens v rest
  exact ⟨behind, hv, congrArg (Token.word w :: Token.punct "::" :: ·) hv⟩

theorem OfWords.exists_wordTokens {n : QualifiedName} (h : OfWords n) :
    ∃ w ∈ n.segments, ∃ behind, wordTokens n.segments = .word w :: behind := by
  obtain ⟨w, rest, hsegments⟩ := List.exists_cons_of_ne_nil h.nonempty
  rw [hsegments]
  exact ⟨w, List.mem_cons_self, Spelling.exists_wordTokens w rest⟩

theorem nameSegments_wordTokens {segments : List String} {fuel : Nat} (hne : segments ≠ [])
    (hfuel : segments.length ≤ fuel) :
    nameSegments fuel (wordTokens segments) = .ok (segments, []) := by
  induction segments generalizing fuel with
  | nil => exact absurd rfl hne
  | cons w rest ih =>
      obtain ⟨fuel, rfl⟩ : ∃ n, fuel = n + 1 := ⟨fuel - 1, by simp at hfuel; omega⟩
      cases rest with
      | nil => rfl
      | cons v rest =>
          have hrest := ih (by simp) (Nat.le_of_succ_le_succ hfuel)
          obtain ⟨behind, hv, hw⟩ := exists_wordTokens_cons w v rest
          rw [hv] at hrest
          rw [hw]
          unfold nameSegments
          simp [nameSegment, afterScopeMark?, Token.isPunct, hrest]

theorem length_wordTokens (segments : List String) :
    segments.length ≤ (wordTokens segments).length := by
  induction segments with
  | nil => exact Nat.le_refl _
  | cons w rest ih =>
      cases rest with
      | nil => exact Nat.le_refl _
      | cons v rest =>
          simp only [wordTokens, List.length_cons] at ih ⊢
          omega

theorem skipGlobal_nameTokens {n : QualifiedName} (h : OfWords n) (behind : List Token) :
    skipGlobal (nameTokens n ++ behind) = (n.global, wordTokens n.segments ++ behind) := by
  obtain ⟨w, -, b, hw⟩ := h.exists_wordTokens
  unfold nameTokens
  rw [hw]
  cases n.global <;> rfl

/-- A name made of words is read back from its text. -/
theorem qualifiedName_text {n : QualifiedName} (h : OfWords n) :
    qualifiedName (textTokens n.text) = .ok (n, []) := by
  have hskip := skipGlobal_nameTokens h []
  simp only [List.append_nil] at hskip
  rw [textTokens_text h, qualifiedName_eq, hskip,
    nameSegments_wordTokens h.nonempty (length_wordTokens _)]
  rfl

theorem memberPointerClassFrom_wordTokens {segments : List String} {fuel : Nat}
    (hne : segments ≠ []) (hfuel : segments.length ≤ fuel) :
    memberPointerClassFrom fuel (wordTokens segments ++ [.punct "::", .punct "*"]) =
      .ok (segments, []) := by
  induction segments generalizing fuel with
  | nil => exact absurd rfl hne
  | cons w rest ih =>
      obtain ⟨fuel, rfl⟩ : ∃ n, fuel = n + 1 := ⟨fuel - 1, by simp at hfuel; omega⟩
      cases rest with
      | nil => rfl
      | cons v rest =>
          have hrest := ih (by simp) (Nat.le_of_succ_le_succ hfuel)
          obtain ⟨behind, hv, hw⟩ := exists_wordTokens_cons w v rest
          rw [hv] at hrest
          rw [hw]
          unfold memberPointerClassFrom
          simp only [List.cons_append] at hrest ⊢
          simp [nameSegment, expect, Token.isPunct, hrest]

/-- The class of a member pointer that is made of words is read back from its text. -/
theorem memberPointerClass_text {n : QualifiedName} (h : OfWords n) :
    memberPointerClass (textTokens (n.text ++ "::*")) = .ok (n, []) := by
  rw [textTokens_class h, memberPointerClass_eq, skipGlobal_nameTokens h,
    memberPointerClassFrom_wordTokens h.nonempty]
  · rfl
  · exact Nat.le_trans (length_wordTokens _) (by simp)

theorem memberPointerSegments?_wordTokens {segments : List String} {fuel : Nat}
    (hne : segments ≠ []) (hfuel : segments.length ≤ fuel) (behind : List Token) :
    memberPointerSegments? fuel
      (wordTokens segments ++ .punct "::" :: .punct "*" :: behind) = some behind := by
  induction segments generalizing fuel with
  | nil => exact absurd rfl hne
  | cons w rest ih =>
      obtain ⟨fuel, rfl⟩ : ∃ n, fuel = n + 1 := ⟨fuel - 1, by simp at hfuel; omega⟩
      cases rest with
      | nil => rfl
      | cons v rest =>
          have hrest := ih (by simp) (Nat.le_of_succ_le_succ hfuel)
          obtain ⟨b, hv, hw⟩ := exists_wordTokens_cons w v rest
          rw [hv] at hrest
          rw [hw]
          unfold memberPointerSegments?
          simp only [List.cons_append] at hrest ⊢
          simp [nextIs, Token.isPunct, hrest]

/-- A member pointer to a class made of words is told from what else a word can begin. -/
theorem memberPointer?_class {n : QualifiedName} (h : OfWords n) (behind : List Token) :
    memberPointer? (textTokens (n.text ++ "::*") ++ behind) = some behind := by
  unfold memberPointer?
  rw [textTokens_class h, List.append_assoc, skipGlobal_nameTokens h]
  refine memberPointerSegments?_wordTokens h.nonempty ?_ behind
  refine Nat.le_trans (length_wordTokens _) ?_
  unfold nameTokens
  simp only [List.length_append]
  omega

/-! ## Names in a text without template arguments -/

theorem not_isPunct_angle {cs : List Char} (hcs : '<' ∉ cs) {t : Token} (ht : TokenOf cs t) :
    t.isPunct "<" = false := by
  cases t with
  | word | number => rfl
  | punct p =>
      rw [Token.isPunct, beq_eq_false_iff_ne]
      rintro rfl
      rcases ht with ht | ⟨c, hc, heq⟩
      · exact absurd ht (by decide)
      · have hchar : ['<'] = [c] := by
          rw [← String.toList_ofList (l := [c]), ← heq]
          rfl
        exact hcs ((List.cons.inj hchar).1 ▸ hc)

variable {cs : List Char}

theorem nameSegment_word {segment : String} (hcs : '<' ∉ cs) (hts : ∀ t ∈ ts, TokenOf cs t)
    (h : nameSegment ts = .ok (segment, rest)) : Identifier segment := by
  unfold nameSegment at h
  split at h
  next w ts =>
    have hw : Identifier w := hts _ List.mem_cons_self
    split at h
    · simp only [Except.ok.injEq, Prod.mk.injEq] at h
      exact h.1 ▸ hw
    next t after =>
      have ht := not_isPunct_angle hcs (hts t (List.mem_cons_of_mem _ List.mem_cons_self))
      rw [if_neg (by simp [ht])] at h
      simp only [Except.ok.injEq, Prod.mk.injEq] at h
      exact h.1 ▸ hw
  next => simp at h

theorem nameSegments_words {fuel : Nat} {segments : List String} (hcs : '<' ∉ cs)
    (hts : ∀ t ∈ ts, TokenOf cs t) (h : nameSegments fuel ts = .ok (segments, rest)) :
    segments ≠ [] ∧ ∀ w ∈ segments, Identifier w := by
  induction fuel generalizing ts segments rest with
  | zero => simp [nameSegments] at h
  | succ fuel ih =>
      unfold nameSegments at h
      obtain ⟨⟨segment, rest₁⟩, hsegment, h⟩ := bind_eq_ok h
      have hword := nameSegment_word hcs hts hsegment
      simp only at h
      split at h
      next rest₂ hmark =>
        obtain ⟨⟨segments', rest₃⟩, hsegments, h⟩ := bind_eq_ok h
        have hsuffix := (afterScopeMark?_suffix hmark).trans (nameSegment_suffix hsegment)
        obtain ⟨_, hwords⟩ := ih (fun t ht => hts t (hsuffix.subset ht)) hsegments
        simp only [Except.ok.injEq, Prod.mk.injEq] at h
        rw [← h.1]
        exact ⟨by simp, List.forall_mem_cons.mpr ⟨hword, hwords⟩⟩
      next =>
        simp only [Except.ok.injEq, Prod.mk.injEq] at h
        rw [← h.1]
        exact ⟨by simp, by simpa using hword⟩

theorem memberPointerClassFrom_words {fuel : Nat} {segments : List String} (hcs : '<' ∉ cs)
    (hts : ∀ t ∈ ts, TokenOf cs t) (h : memberPointerClassFrom fuel ts = .ok (segments, rest)) :
    segments ≠ [] ∧ ∀ w ∈ segments, Identifier w := by
  induction fuel generalizing ts segments rest with
  | zero => simp [memberPointerClassFrom] at h
  | succ fuel ih =>
      unfold memberPointerClassFrom at h
      obtain ⟨⟨segment, rest₁⟩, hsegment, h⟩ := bind_eq_ok h
      obtain ⟨rest₂, hcolons, hrest⟩ := bind_eq_ok h
      have hword := nameSegment_word hcs hts hsegment
      have hsuffix := (expect_suffix hcolons).trans (nameSegment_suffix hsegment)
      split at hrest
      next t after =>
        split at hrest
        · simp only [Except.ok.injEq, Prod.mk.injEq] at hrest
          rw [← hrest.1]
          exact ⟨by simp, by simpa using hword⟩
        · obtain ⟨⟨segments', rest₃⟩, hsegments, hrest⟩ := bind_eq_ok hrest
          obtain ⟨_, hwords⟩ := ih (fun t ht => hts t (hsuffix.subset ht)) hsegments
          simp only [Except.ok.injEq, Prod.mk.injEq] at hrest
          rw [← hrest.1]
          exact ⟨by simp, List.forall_mem_cons.mpr ⟨hword, hwords⟩⟩
      next => simp at hrest

/-- In a text without `<` all names are made of words. -/
theorem namesRead_ofWords (hcs : '<' ∉ cs) : NamesRead OfWords (scan cs) := by
  intro ts hsuffix n rest h
  have hts : ∀ t ∈ (skipGlobal ts).2, TokenOf cs t := fun t ht =>
    tokenOf_mem_scan t (hsuffix.subset ((skipGlobal_suffix ts).subset ht))
  rcases h with h | h
  · rw [qualifiedName_eq] at h
    obtain ⟨⟨segments, rest'⟩, hsegments, h⟩ := bind_eq_ok h
    obtain ⟨hne, hwords⟩ := nameSegments_words hcs hts hsegments
    simp only [Except.ok.injEq, Prod.mk.injEq] at h
    exact h.1 ▸ ⟨hne, hwords⟩
  · rw [memberPointerClass_eq] at h
    obtain ⟨⟨segments, rest'⟩, hsegments, h⟩ := bind_eq_ok h
    obtain ⟨hne, hwords⟩ := memberPointerClassFrom_words hcs hts hsegments
    simp only [Except.ok.injEq, Prod.mk.injEq] at h
    exact h.1 ▸ ⟨hne, hwords⟩

/-- The names of a spelling in a text without `<` are made of words. -/
theorem read_ofWords {text : String} {s : Spelling} (h : read text = .ok s)
    (htext : '<' ∉ text.toList) : Sound OfWords s :=
  ofTokens_sound (namesRead_ofWords htext) h

/-! ## How names begin -/

/-- A segment begins with the word in front of its template arguments. -/
theorem nameSegment_head? {segment : String} (hts : ∀ t ∈ ts, TokenOf cs t)
    (h : nameSegment ts = .ok (segment, rest)) :
    ∃ c, segment.toList.head? = some c ∧ Token.startsWord c = true := by
  unfold nameSegment at h
  split at h
  next w ts =>
    obtain ⟨c, ds, hw, hc, _⟩ : Identifier w := hts _ List.mem_cons_self
    split at h
    · simp only [Except.ok.injEq, Prod.mk.injEq] at h
      exact ⟨c, by rw [← h.1, hw]; rfl, hc⟩
    next t after =>
      split at h
      · obtain ⟨⟨args, rest₁⟩, _, h⟩ := bind_eq_ok h
        simp only [Except.ok.injEq, Prod.mk.injEq] at h
        exact ⟨c, by rw [← h.1]; simp [String.toList_append, hw], hc⟩
      · simp only [Except.ok.injEq, Prod.mk.injEq] at h
        exact ⟨c, by rw [← h.1, hw]; rfl, hc⟩
  next => simp at h

theorem nameSegments_head? {fuel : Nat} {segments : List String} (hts : ∀ t ∈ ts, TokenOf cs t)
    (h : nameSegments fuel ts = .ok (segments, rest)) :
    ∃ w more c, segments = w :: more ∧ w.toList.head? = some c ∧ Token.startsWord c = true := by
  cases fuel with
  | zero => simp [nameSegments] at h
  | succ fuel =>
      unfold nameSegments at h
      obtain ⟨⟨segment, rest₁⟩, hsegment, h⟩ := bind_eq_ok h
      obtain ⟨c, hhead, hc⟩ := nameSegment_head? hts hsegment
      simp only at h
      split at h
      · obtain ⟨⟨more, rest₂⟩, _, h⟩ := bind_eq_ok h
        simp only [Except.ok.injEq, Prod.mk.injEq] at h
        exact ⟨segment, more, c, h.1.symm, hhead, hc⟩
      · simp only [Except.ok.injEq, Prod.mk.injEq] at h
        exact ⟨segment, [], c, h.1.symm, hhead, hc⟩

theorem memberPointerClassFrom_head? {fuel : Nat} {segments : List String}
    (hts : ∀ t ∈ ts, TokenOf cs t) (h : memberPointerClassFrom fuel ts = .ok (segments, rest)) :
    ∃ w more c, segments = w :: more ∧ w.toList.head? = some c ∧ Token.startsWord c = true := by
  cases fuel with
  | zero => simp [memberPointerClassFrom] at h
  | succ fuel =>
      unfold memberPointerClassFrom at h
      obtain ⟨⟨segment, rest₁⟩, hsegment, h⟩ := bind_eq_ok h
      obtain ⟨rest₂, _, hrest⟩ := bind_eq_ok h
      obtain ⟨c, hhead, hc⟩ := nameSegment_head? hts hsegment
      split at hrest
      · split at hrest
        · simp only [Except.ok.injEq, Prod.mk.injEq] at hrest
          exact ⟨segment, [], c, hrest.1.symm, hhead, hc⟩
        · obtain ⟨⟨more, rest₃⟩, _, hrest⟩ := bind_eq_ok hrest
          simp only [Except.ok.injEq, Prod.mk.injEq] at hrest
          exact ⟨segment, more, c, hrest.1.symm, hhead, hc⟩
      next => simp at hrest

/-- The text of a name that is read begins with `::` or a word, with template arguments or not. -/
theorem namesRead_head? : NamesRead (fun n => n.text.toList.head? ≠ some '&') (scan cs) := by
  intro ts hsuffix n rest h
  have hts : ∀ t ∈ (skipGlobal ts).2, TokenOf cs t := fun t ht =>
    tokenOf_mem_scan t (hsuffix.subset ((skipGlobal_suffix ts).subset ht))
  have hbegins : ∀ {global : Bool} {segments : List String},
      (∃ w more c, segments = w :: more ∧ w.toList.head? = some c ∧ Token.startsWord c = true) →
      (QualifiedName.text ⟨global, segments⟩).toList.head? ≠ some '&' := by
    rintro global _ ⟨w, more, c, rfl, hhead, hc⟩
    obtain ⟨b, hb⟩ := joined_head w more
    cases global with
    | true => simp [QualifiedName.text]
    | false =>
        unfold QualifiedName.text
        simp only [Bool.false_eq_true, if_false, String.empty_append, hb, List.head?_append, hhead]
        rintro ⟨rfl⟩
        exact absurd hc (by decide)
  rcases h with h | h
  · rw [qualifiedName_eq] at h
    obtain ⟨⟨segments, rest'⟩, hsegments, h⟩ := bind_eq_ok h
    simp only [Except.ok.injEq, Prod.mk.injEq] at h
    exact h.1 ▸ hbegins (nameSegments_head? hts hsegments)
  · rw [memberPointerClass_eq] at h
    obtain ⟨⟨segments, rest'⟩, hsegments, h⟩ := bind_eq_ok h
    simp only [Except.ok.injEq, Prod.mk.injEq] at h
    exact h.1 ▸ hbegins (memberPointerClassFrom_head? hts hsegments)

end CppReflect.Spelling
