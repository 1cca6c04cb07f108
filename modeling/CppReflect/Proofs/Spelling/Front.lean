import CppReflect.Proofs.Spelling.Plain

/-!
# Spellings that go on

A spelling such as `const N::A *` consists of a base and operators in front of a declarator, and it
can be continued: by further operators, or by array and function suffixes. What is read of a
continued spelling is what is read of the spelling itself and then what is read of the continuation,
provided that this does not begin with a token that goes on with a name or with a word that has
another meaning in a type.
-/

namespace CppReflect.Spelling

open Token (scan)

variable {ts rest behind : List Token}

/-- The tokens go on with neither a name nor qualifiers. -/
def Halts (ts : List Token) : Prop := Benign ts ∧ nextIs "::" ts = false

theorem Closed.halts (h : Closed behind) : Halts behind := ⟨h.benign, h.nextIs_colons⟩

/-- Where no segment of a name follows, none does in front of such tokens either, unless `::` is all
that is left. -/
theorem Halts.afterScopeMark?_append (h : Halts behind) (hts : afterScopeMark? ts = none)
    (hcolons : ts ≠ [.punct "::"]) : afterScopeMark? (ts ++ behind) = none := by
  match ts with
  | [] => exact (h.1.endsName h.2).2
  | [t] =>
      have ht : t.isPunct "::" = false := by
        cases t with
        | word | number => rfl
        | punct p => simpa [Token.isPunct] using hcolons
      cases behind with
      | nil => exact hts
      | cons u behind => cases u <;> simp [afterScopeMark?, ht]
  | t :: u :: ts =>
      cases u with
      | word w =>
          unfold afterScopeMark? at hts ⊢
          simpa using hts
      | number | punct => rfl

/-! ## Names -/

/-- A segment of a name takes a word. -/
theorem nameSegment_tail {segment : String} (h : nameSegment ts = .ok (segment, rest)) :
    ∃ w ts', ts = .word w :: ts' ∧ rest <:+ ts' := by
  unfold nameSegment at h
  split at h
  next w ts =>
    refine ⟨w, ts, rfl, ?_⟩
    split at h
    · simp only [Except.ok.injEq, Prod.mk.injEq] at h
      exact h.2 ▸ List.suffix_refl _
    next t after =>
      split at h
      · obtain ⟨⟨args, rest'⟩, hargs, h⟩ := bind_eq_ok h
        simp only [Except.ok.injEq, Prod.mk.injEq] at h
        exact h.2 ▸ (templateArgsFrom_suffix hargs).trans (List.suffix_cons t after)
      · simp only [Except.ok.injEq, Prod.mk.injEq] at h
        exact h.2 ▸ List.suffix_refl _
  next => simp at h

/-- A name takes a token at least, and it ends where no further segment follows. -/
theorem nameSegments_end {fuel : Nat} {segments : List String}
    (h : nameSegments fuel ts = .ok (segments, rest)) :
    rest.length < ts.length ∧ afterScopeMark? rest = none := by
  induction fuel generalizing ts segments with
  | zero => simp [nameSegments] at h
  | succ fuel ih =>
      unfold nameSegments at h
      obtain ⟨⟨segment, rest₁⟩, hsegment, hrest⟩ := bind_eq_ok h
      have hlength : rest₁.length < ts.length := by
        obtain ⟨w, ts', rfl, hsuffix⟩ := nameSegment_tail hsegment
        exact Nat.lt_succ_of_le hsuffix.length_le
      simp only at hrest
      split at hrest
      next rest₂ hmark =>
        obtain ⟨⟨segments', rest₃⟩, hsegments, hrest⟩ := bind_eq_ok hrest
        simp only [Except.ok.injEq, Prod.mk.injEq] at hrest
        obtain ⟨-, rfl⟩ := hrest
        obtain ⟨hlt, hend⟩ := ih hsegments
        have hle := (afterScopeMark?_suffix hmark).length_le
        exact ⟨by omega, hend⟩
      next hmark =>
        simp only [Except.ok.injEq, Prod.mk.injEq] at hrest
        obtain ⟨-, rfl⟩ := hrest
        exact ⟨hlength, hmark⟩

theorem qualifiedName_end {n : QualifiedName} (h : qualifiedName ts = .ok (n, rest)) :
    rest.length < ts.length ∧ afterScopeMark? rest = none := by
  rw [qualifiedName_eq] at h
  obtain ⟨⟨segments, rest'⟩, hsegments, h⟩ := bind_eq_ok h
  simp only [Except.ok.injEq, Prod.mk.injEq] at h
  obtain ⟨-, rfl⟩ := h
  obtain ⟨hlt, hend⟩ := nameSegments_end hsegments
  exact ⟨Nat.lt_of_lt_of_le hlt (skipGlobal_suffix ts).length_le, hend⟩

/-! ## Specifiers -/

/-- A type is named, or words of a builtin type are there. -/
def Specifiers.Told (s : Specifiers) : Prop := s.name.isSome = true ∨ s.words ≠ []

theorem specifiersFrom_halts {fuel : Nat} {s : Specifiers} (hs : s.Told) (h : Halts behind) :
    specifiersFrom fuel s behind = .ok (s, behind) :=
  specifiersFrom_stop (hs.imp_right fun hwords => ⟨hwords, h.1.noBuiltin⟩) h.1.noSpecifier

/-- What is done with a token among the specifiers. -/
inductive Specifiers.Turn where
  | stop
  | goOn (s : Specifiers)
  | readName

/-- What a token is among the specifiers: the next of them, the beginning of a name, or behind
them. -/
def Specifiers.turn (s : Specifiers) : Token → Turn
  | .word w =>
    match Quals.ofWord? w with
    | some q => .goOn { s with quals := s.quals ∪ q }
    | none =>
      if elaboratedWords.contains w then .goOn s
      else if builtinWords.contains w then
        if s.name.isSome then .stop else .goOn { s with words := s.words ++ [w] }
      else if s.name.isNone && s.words.isEmpty then .readName
      else .stop
  | t => if t.isPunct "::" && s.name.isNone && s.words.isEmpty then .readName else .stop

theorem specifiersFrom_cons (fuel : Nat) (s : Specifiers) (t : Token) (ts : List Token) :
    specifiersFrom (fuel + 1) s (t :: ts) =
      match s.turn t with
      | .stop => .ok (s, t :: ts)
      | .goOn s₁ => specifiersFrom fuel s₁ ts
      | .readName =>
        qualifiedName (t :: ts) >>= fun r =>
          specifiersFrom fuel { s with name := some r.1 } r.2 := by
  conv => lhs; unfold specifiersFrom
  unfold Specifiers.turn
  cases t with
  | word w =>
      cases hq : Quals.ofWord? w with
      | some q => simp only [hq]
      | none =>
          simp only [hq]
          split_ifs <;> rfl
  | number n | punct p =>
      simp only
      split_ifs <;> rfl

theorem specifiersFrom_append {fuel fuel' : Nat} {s s' : Specifiers}
    (h : specifiersFrom fuel s ts = .ok (s', rest)) (hfuel : ts.length ≤ fuel)
    (hfuel' : (ts ++ behind).length ≤ fuel') (hs : s'.Told) (hcolons : rest ≠ [.punct "::"])
    (hbehind : Halts behind) :
    specifiersFrom fuel' s (ts ++ behind) = .ok (s', rest ++ behind) := by
  induction fuel generalizing s ts fuel' with
  | zero =>
      obtain rfl := List.length_eq_zero_iff.mp (Nat.le_zero.mp hfuel)
      rw [specifiersFrom] at h
      cases h
      exact specifiersFrom_halts hs hbehind
  | succ fuel ih =>
      cases ts with
      | nil =>
          rw [specifiersFrom] at h
          cases h
          exact specifiersFrom_halts hs hbehind
      | cons t ts =>
          simp only [List.cons_append, List.length_cons] at hfuel hfuel'
          obtain ⟨fuel', rfl⟩ : ∃ n, fuel' = n + 1 := ⟨fuel' - 1, by omega⟩
          rw [List.cons_append, specifiersFrom_cons]
          rw [specifiersFrom_cons] at h
          cases hturn : s.turn t with
          | stop =>
              simp only [hturn] at h
              cases h
              rfl
          | goOn s₁ =>
              simp only [hturn] at h
              exact ih h (by omega) (by omega)
          | readName =>
              simp only [hturn] at h
              obtain ⟨⟨n, rest₁⟩, hname, h⟩ := bind_eq_ok h
              obtain ⟨hlt, hend⟩ := qualifiedName_end hname
              -- a `::` at the end would be left over by the specifiers too
              have hmore : rest₁ ≠ [.punct "::"] := by
                rintro rfl
                have hstop : NoSpecifier [.punct "::"] := trivial
                rw [specifiersFrom_stop (.inl rfl) hstop] at h
                exact hcolons (Prod.mk.inj (Except.ok.inj h)).2.symm
              have hread := qualifiedName_append hname (fun _ => hbehind.1.nextIs_angle)
                (hbehind.afterScopeMark?_append hend hmore)
              simp only [List.length_cons] at hlt
              rw [List.cons_append] at hread
              simp only [hread]
              exact ih h (by omega) (by simp only [List.length_append] at hfuel' ⊢; omega)

theorem Base.ne_nil_of_ofWords? {words : List String} {base : Base}
    (h : ofWords? words = some base) : words ≠ [] := by
  rintro rfl
  cases h

theorem declSpecifiers_append {base : Base} {quals : Quals}
    (h : declSpecifiers ts = .ok (base, quals, rest)) (hcolons : rest ≠ [.punct "::"])
    (hbehind : Halts behind) :
    declSpecifiers (ts ++ behind) = .ok (base, quals, rest ++ behind) := by
  unfold declSpecifiers at h ⊢
  obtain ⟨⟨s, rest₁⟩, hspecifiers, h⟩ := bind_eq_ok h
  have happend := fun (hs : s.Told) (hrest : rest₁ ≠ [.punct "::"]) =>
    specifiersFrom_append hspecifiers (Nat.le_refl _) (Nat.le_refl (ts ++ behind).length) hs hrest
      hbehind
  simp only at h
  cases hname : s.name with
  | some name =>
      simp only [hname] at h
      cases h
      rw [happend (.inl (by simp [hname])) hcolons]
      simp only [ok_bind, hname]
  | none =>
      simp only [hname] at h
      cases hwords : Base.ofWords? s.words with
      | some base' =>
          simp only [hwords] at h
          cases h
          rw [happend (.inr (Base.ne_nil_of_ofWords? hwords)) hcolons]
          simp only [ok_bind, hname, hwords]
      | none => simp [hwords] at h

/-! ## Operators in front of a declarator -/

theorem cv_append (hbehind : Halts behind) (ts : List Token) :
    cv (ts ++ behind) = ((cv ts).1, (cv ts).2 ++ behind) := by
  fun_induction cv ts with
  | case1 w rest q hq qs rest' hcv ih =>
      rw [List.cons_append, cv]
      simp only [hq, ih, hcv]
  | case2 w rest hq =>
      rw [List.cons_append, cv]
      simp only [hq]
  | case3 ts hts =>
      cases ts with
      | nil => exact cv_of_noQual hbehind.1.noQual
      | cons t ts =>
          cases t with
          | word w => exact absurd rfl (hts w ts)
          | number | punct => rfl

theorem behindAngles_append {depth : Nat} (h : behindAngles depth ts ≠ []) :
    behindAngles depth (ts ++ behind) = behindAngles depth ts ++ behind := by
  induction ts generalizing depth with
  | nil => exact absurd rfl h
  | cons t ts ih =>
      rw [List.cons_append]
      unfold behindAngles at h ⊢
      split at h
      next hopen =>
        rw [if_pos hopen, if_pos hopen]
        exact ih h
      next hopen =>
        rw [if_neg hopen, if_neg hopen]
        split at h
        next hclose =>
          rw [if_pos hclose, if_pos hclose]
          split at h
          next hlast => rw [if_pos hlast, if_pos hlast]
          next hlast =>
            rw [if_neg hlast, if_neg hlast]
            exact ih h
        next hclose =>
          rw [if_neg hclose, if_neg hclose]
          exact ih h

/-- What is a member pointer is one whatever follows. -/
theorem memberPointerSegments?_append {fuel fuel' : Nat} (hfuel : fuel ≤ fuel')
    (h : memberPointerSegments? fuel ts = some rest) :
    memberPointerSegments? fuel' (ts ++ behind) = some (rest ++ behind) := by
  induction fuel generalizing ts fuel' with
  | zero => simp [memberPointerSegments?] at h
  | succ fuel ih =>
      obtain ⟨fuel', rfl⟩ : ∃ n, fuel' = n + 1 := ⟨fuel' - 1, by omega⟩
      unfold memberPointerSegments? at h
      split at h
      next => contradiction
      next k w ts heq =>
        cases heq
        rw [List.cons_append]
        unfold memberPointerSegments?
        simp only at h ⊢
        -- what is behind the template arguments is not empty, so the list goes on the same way
        have hbehind : ∀ us : List Token, us = (if nextIs "<" ts then behindAngles 0 ts else ts) →
            us ≠ [] → (if nextIs "<" (ts ++ behind) then behindAngles 0 (ts ++ behind)
              else ts ++ behind) = us ++ behind := by
          rintro us rfl hne
          have hnext : nextIs "<" (ts ++ behind) = nextIs "<" ts := by
            cases ts with
            | nil => simp [nextIs] at hne
            | cons t ts => rfl
          rw [hnext]
          split
          next hangle =>
            rw [if_pos hangle] at hne
            exact behindAngles_append hne
          next => rfl
        generalize (if nextIs "<" ts then behindAngles 0 ts else ts) = us at h hbehind
        obtain _ | ⟨colons, _ | ⟨star, us⟩⟩ := us
        · contradiction
        · contradiction
        · rw [hbehind _ rfl (by simp)]
          simp only [List.cons_append] at h ⊢
          split at h
          next hcolons =>
            rw [if_pos hcolons]
            split at h
            next hstar =>
              rw [if_pos hstar]
              cases h
              rfl
            next hstar =>
              rw [if_neg hstar]
              exact ih (Nat.le_of_succ_le_succ hfuel) h
          next => contradiction
      next => contradiction

theorem memberPointer?_append (h : memberPointer? ts = some rest) :
    memberPointer? (ts ++ behind) = some (rest ++ behind) := by
  have hne : ts ≠ [] := by
    rintro rfl
    cases h
  unfold memberPointer? at h ⊢
  rw [skipGlobal_append hne]
  exact memberPointerSegments?_append (by simp) h

/-- The operators at the front of the tokens are read as `ops`, with enough calls. -/
def ReadsOps (ts : List Token) (ops : List DeclaratorOp) (rest : List Token) : Prop :=
  ∀ fuel, ts.length ≤ fuel → pointerOpsFrom fuel ts = .ok (ops, rest)

/-- The operator at the front, with the tokens behind it. -/
def frontOp? (ts : List Token) : Option (Except SpellingError (DeclaratorOp × List Token)) :=
  match ts with
  | [] => none
  | t :: rest =>
    if t.isPunct "*" || t.isPunct "^" then some (.ok (.pointer (cv rest).1, (cv rest).2))
    else if t.isPunct "&" then some (.ok (.lvalueReference, (cv rest).2))
    else if t.isPunct "&&" then some (.ok (.rvalueReference, (cv rest).2))
    else if (t.isPunct "::" || t.isWord) && (memberPointer? (t :: rest)).isSome then
      some (memberPointerClass (t :: rest) >>= fun r =>
        .ok (.memberPointer r.1 (cv r.2).1, (cv r.2).2))
    else none

theorem pointerOpsFrom_eq (fuel : Nat) (ts : List Token) :
    pointerOpsFrom (fuel + 1) ts =
      (frontOp? ts).elim (.ok ([], ts)) fun read =>
        read >>= fun r => pointerOpsFrom fuel r.2 >>= fun rest => .ok (r.1 :: rest.1, rest.2) := by
  cases ts with
  | nil => rfl
  | cons t ts =>
      conv => lhs; unfold pointerOpsFrom
      unfold frontOp?
      simp only
      split_ifs with hstar hamp hamps hclass
      · rfl
      · rfl
      · rfl
      · cases memberPointerClass (t :: ts) <;> rfl
      · rfl

theorem frontOp?_append {o : DeclaratorOp} {us : List Token} (hbehind : Halts behind)
    (h : frontOp? ts = some (.ok (o, us))) :
    frontOp? (ts ++ behind) = some (.ok (o, us ++ behind)) := by
  cases ts with
  | nil => cases h
  | cons t ts =>
      rw [List.cons_append]
      unfold frontOp? at h ⊢
      simp only [cv_append hbehind] at h ⊢
      split_ifs at h with hstar hamp hamps hclass
      · cases h
        rw [if_pos hstar]
      · cases h
        rw [if_neg hstar, if_pos hamp]
      · cases h
        rw [if_neg hstar, if_neg hamp, if_pos hamps]
      · rw [if_neg hstar, if_neg hamp, if_neg hamps]
        obtain ⟨hhead, hsome⟩ := Bool.and_eq_true_iff.mp hclass
        obtain ⟨vs, hvs⟩ := Option.isSome_iff_exists.mp hsome
        -- the name is looked through up to its star, which comes before what is appended
        have hmember : memberPointer? (t :: (ts ++ behind)) = some (vs ++ behind) :=
          memberPointer?_append hvs
        rw [hhead, hmember, if_pos (by rfl)]
        obtain ⟨⟨klass, rest⟩, hread, hop⟩ := bind_eq_ok (Option.some.inj h)
        have hread := memberPointerClass_append behind hread
        rw [List.cons_append] at hread
        cases hop
        rw [hread, ok_bind, cv_append hbehind]

/-- Operators that use up their tokens are read from them, and then those that follow. -/
theorem pointerOpsFrom_append {fuel : Nat} {ops ops' : List DeclaratorOp}
    (h : pointerOpsFrom fuel ts = .ok (ops, [])) (hbehind : Halts behind)
    (hread : ReadsOps behind ops' rest) {fuel' : Nat} (hfuel : fuel + behind.length ≤ fuel') :
    pointerOpsFrom fuel' (ts ++ behind) = .ok (ops ++ ops', rest) := by
  induction fuel generalizing ts ops fuel' with
  | zero =>
      rw [pointerOpsFrom] at h
      cases h
      exact hread fuel' (by omega)
  | succ fuel ih =>
      rw [pointerOpsFrom_eq] at h
      cases hfront : frontOp? ts with
      | none =>
          rw [hfront] at h
          cases h
          exact hread fuel' (by omega)
      | some read =>
          rw [hfront] at h
          rw [Option.elim_some] at h
          obtain ⟨⟨o, us⟩, rfl, hmore⟩ := bind_eq_ok h
          obtain ⟨⟨ops₁, rest₁⟩, hops, hend⟩ := bind_eq_ok hmore
          cases hend
          obtain ⟨fuel', rfl⟩ : ∃ n, fuel' = n + 1 := ⟨fuel' - 1, by omega⟩
          rw [pointerOpsFrom_eq, frontOp?_append hbehind hfront, Option.elim_some, ok_bind,
            ih hops (by omega)]
          rfl

/-! ## What is read in front -/

theorem readBehind_nil {fuel : Nat} (h : 1 ≤ fuel) : readBehind fuel [] = .ok ([], []) := by
  obtain ⟨fuel, rfl⟩ : ∃ n, fuel = n + 1 := ⟨fuel - 1, by omega⟩
  rfl

theorem ne_colons_of_pointerOps {ops : List DeclaratorOp} (h : pointerOps ts = .ok (ops, [])) :
    ts ≠ [.punct "::"] := by
  rintro rfl
  cases h

/-- The text is read as a base with qualifiers and operators in front of a declarator, and nothing
is left of it. -/
def ReadsFront (text : String) (base : Base) (quals : Quals) (ops : List DeclaratorOp) : Prop :=
  ∃ rest, declSpecifiers (textTokens text) = .ok (base, quals, rest) ∧
    pointerOps rest = .ok (ops, [])

namespace ReadsFront

variable {text text' : String} {base : Base} {quals : Quals} {ops ops' more : List DeclaratorOp}

/-- Further operators in front are read behind those that are there. -/
theorem append (h : ReadsFront text base quals ops)
    (htokens : textTokens text' = textTokens text ++ behind) (hbehind : Halts behind)
    (hops : ReadsOps behind ops' []) : ReadsFront text' base quals (ops ++ ops') := by
  obtain ⟨rest, hbase, hfront⟩ := h
  refine ⟨rest ++ behind, ?_, pointerOpsFrom_append hfront hbehind hops (by simp)⟩
  rw [htokens]
  exact declSpecifiers_append hbase (ne_colons_of_pointerOps hfront) hbehind

/-- Operators in front and behind are read as what follows those that are there. -/
theorem read_append (h : ReadsFront text base quals ops)
    (htokens : textTokens text' = textTokens text ++ behind) (hbehind : Halts behind)
    (hops : ReadsOps behind ops' rest)
    (hmore : ∀ fuel, 6 * behind.length + 1 ≤ fuel → readBehind fuel rest = .ok (more, [])) :
    read text' = .ok (.mk base quals (ops ++ ops' ++ more)) := by
  obtain ⟨front, hbase, hfront⟩ := h
  have hbase := declSpecifiers_append hbase (ne_colons_of_pointerOps hfront) hbehind
  have hfront := pointerOpsFrom_append hfront hbehind hops (Nat.le_refl _)
  have hread : typeId (readFuel (textTokens text')) (textTokens text') =
      .ok (.mk base quals (ops ++ ops' ++ more), []) := by
    obtain ⟨fuel, hfuel⟩ : ∃ n, readFuel (textTokens text') = n + 2 :=
      ⟨6 * (textTokens text').length + 4, rfl⟩
    have henough : 6 * behind.length + 1 ≤ fuel := by
      rw [htokens, readFuel, List.length_append] at hfuel
      omega
    rw [hfuel, htokens]
    unfold typeId
    have hdeclarator : declarator (fuel + 1) (front ++ behind) = .ok (ops ++ ops' ++ more, []) := by
      rw [declarator_succ, pointerOps, List.length_append, hfront, ok_bind, hmore fuel henough]
      rfl
    rw [hbase, ok_bind]
    simp only [hdeclarator]
    rfl
  unfold read ofTokens
  change (typeId (readFuel (textTokens text')) (textTokens text') >>= _) = _
  rw [hread]
  rfl

/-- A text that is read so is a spelling. -/
theorem read (h : ReadsFront text base quals ops) :
    Spelling.read text = .ok (.mk base quals ops) := by
  have hnone : ReadsOps [] [] [] := fun fuel _ => pointerOpsFrom_stop trivial
  have hread := h.read_append (List.append_nil _).symm ⟨trivial, rfl⟩ hnone
    fun fuel hfuel => readBehind_nil hfuel
  rwa [List.append_nil, List.append_nil] at hread

/-- A printed spelling without operators behind the declarator. -/
theorem of_print (hsound : Sound (fun _ => True) (.mk base quals ops))
    (htidy : Tidy (.mk base quals ops)) (hlegible : Legible (.mk base quals ops) [] [])
    (hfront : ∀ o ∈ ops, o.isPrefix = true) :
    ReadsFront (print (.mk base quals ops) "") base quals ops := by
  have htokens : textTokens (print (.mk base quals ops) "") = tokens (.mk base quals ops) [] :=
    scan_print (x := "") (by simp) _ htidy
  have htake : ops.takeWhile DeclaratorOp.isPrefix = ops := List.takeWhile_eq_self_iff.mpr hfront
  have hdrop : ops.dropWhile DeclaratorOp.isPrefix = [] := List.dropWhile_eq_nil_iff.mpr hfront
  unfold Sound at hsound
  unfold Legible at hlegible
  rw [List.append_nil] at hlegible
  refine ⟨opTokens ops [], ?_, ?_⟩
  · rw [htokens]
    unfold tokens
    exact declSpecifiers_tokens hsound.1 hsound.2.1 hlegible.1
  · have hlength := length_opTokens ops []
    have hend : Closed [] := trivial
    have hread := pointerOpsFrom_opTokens (opTokens ops []).length hsound.2.2
      (legibleFront_of_legibleOps hlegible.2) hend (by omega)
    have hnil : opTokens [] [] = [] := by
      unfold opTokens
      rfl
    rw [htake, hdrop, hnil, List.append_nil] at hread
    exact hread

end ReadsFront

/-! ## Array suffixes -/

/-- An extent as it is written between brackets: a decimal number of 64 bits, or nothing. -/
structure Extent where
  digits : List Char
  decimal : ∀ c ∈ digits, c.isDigit = true
  fits : Nat.ofDigitChars 10 digits 0 < UInt64.size

namespace Extent

/-- The number that the digits denote. -/
def value? (e : Extent) : Option UInt64 :=
  if e.digits = [] then none else some (UInt64.ofNat (Nat.ofDigitChars 10 e.digits 0))

/-- The extent with its brackets. -/
def text (e : Extent) : String := "[" ++ String.ofList e.digits ++ "]"

/-- The tokens of the extent with its brackets. -/
def tokens (e : Extent) : List Token :=
  .punct "[" :: (if e.digits = [] then [] else [.number (String.ofList e.digits)]) ++ [.punct "]"]

theorem textTokens_text (e : Extent) : textTokens e.text = e.tokens := by
  unfold textTokens text tokens
  have hdigits : (String.ofList e.digits).toList = e.digits := String.toList_ofList
  rw [String.toList_append, String.toList_append, hdigits]
  refine (scan_append_lone (f := ']') (by decide) _ _).trans ?_
  refine congrArg (· ++ scan [']']) ((scan_lone_append (l := '[') (by decide) [] _).trans ?_)
  change Token.punct "[" :: scan e.digits = _
  refine congrArg (Token.punct "[" :: ·) ?_
  split
  next hnil => rw [hnil, Token.scan_nil]
  next hne => exact scan_decimal hne e.decimal

theorem readsSuffixes (e : Extent) {ss : List DeclaratorOp} (h : ReadsSuffixes ts ss rest) :
    ReadsSuffixes (e.tokens ++ ts) (.array e.value? :: ss) rest := by
  intro fuel hfuel
  unfold tokens at hfuel ⊢
  unfold value?
  obtain ⟨fuel, rfl⟩ : ∃ n, fuel = n + 1 := ⟨fuel - 1, by omega⟩
  split
  next hnil =>
    have hrest := h fuel (by simp [hnil] at hfuel; omega)
    simp [declaratorSuffixes, arraySuffix, behindBracket, Token.isPunct, hrest]
  next hne =>
    have hrest := h fuel (by simp [hne] at hfuel; omega)
    have hextent := extentOf?_decimal hne e.decimal e.fits
    simp [declaratorSuffixes, arraySuffix, behindBracket, Token.isPunct, hextent, hrest]

end Extent

/-- The extents with their brackets, one behind the other. -/
def extentsText (es : List Extent) : String := String.join (es.map Extent.text)

theorem textTokens_extentsText (es : List Extent) :
    textTokens (extentsText es) = es.flatMap Extent.tokens := by
  induction es with
  | nil => rfl
  | cons e es ih =>
      have hsplit : textTokens (extentsText (e :: es)) =
          textTokens e.text ++ textTokens (extentsText es) := by
        unfold textTokens extentsText Extent.text
        rw [List.map_cons, String.join_cons, String.toList_append, String.toList_append]
        exact scan_lone_append (l := ']') (by decide) _ _
      rw [hsplit, e.textTokens_text, ih, List.flatMap_cons]

theorem readsSuffixes_extents (es : List Extent) :
    ReadsSuffixes (es.flatMap Extent.tokens) (es.map fun e => .array e.value?) [] := by
  induction es with
  | nil =>
      exact readsSuffixes_stop trivial
  | cons e es ih => exact e.readsSuffixes ih

/-- Extents behind a spelling are applied from the last to the first, behind its operators. -/
theorem ReadsFront.read_extents {text : String} {base : Base} {quals : Quals}
    {ops : List DeclaratorOp} (h : ReadsFront text base quals ops) (es : List Extent) :
    Spelling.read (text ++ extentsText es) =
      .ok (.mk base quals (ops ++ (es.map fun e => .array e.value?).reverse)) := by
  cases es with
  | nil =>
      have hempty : text ++ extentsText [] = text := String.append_empty
      rw [hempty, List.map_nil, List.reverse_nil, List.append_nil]
      exact h.read
  | cons e es =>
      have hsuffixes := readsSuffixes_extents (e :: es)
      have htext : textTokens (text ++ extentsText (e :: es)) =
          textTokens text ++ (e :: es).flatMap Extent.tokens := by
        rw [← textTokens_extentsText]
        unfold textTokens extentsText Extent.text
        rw [List.map_cons, String.join_cons]
        simp only [String.toList_append]
        exact scan_append_lone (f := '[') (by decide) _ _
      have hclosed : Closed ((e :: es).flatMap Extent.tokens) := by
        simp [Extent.tokens, Closed]
      have hread := h.read_append htext hclosed.halts
        (fun fuel _ => pointerOpsFrom_stop hclosed.noOperator)
        fun fuel hfuel => readBehind_id (x := []) (by simp [LegibleId]) hclosed
          hsuffixes hfuel
      rwa [List.append_nil] at hread

end CppReflect.Spelling
