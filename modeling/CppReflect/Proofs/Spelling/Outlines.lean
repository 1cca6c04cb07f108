import CppReflect.Proofs.Spelling.Declarators

/-!
# Outlines of types

A type without any name in it is printed from a base, pointers, references, arrays and functions.
Its outline is what of it is printed: arrays and functions are printed without qualifiers of their
own. An outline is told by its tokens alone, even where others follow.
-/

namespace CppReflect.Spelling

/-- What makes a pointer or a reference. -/
inductive Sigil where
  | pointer
  | lvalueReference
  | rvalueReference
deriving DecidableEq, Repr

namespace Sigil

/-- How it is written in front of a declarator. -/
def text : Sigil → String
  | .pointer => "*"
  | .lvalueReference => "&"
  | .rvalueReference => "&&"

/-- The type that is made of a type. -/
def kind : Sigil → TypeId → TypeKind
  | .pointer => .pointer
  | .lvalueReference => .lvalueReference
  | .rvalueReference => .rvalueReference

def isReference : Sigil → Bool
  | .pointer => false
  | .lvalueReference | .rvalueReference => true

/-- What is written is one token. -/
def token (σ : Sigil) : Token := .punct σ.text

theorem isSigil_token (σ : Sigil) : isSigil σ.token = true := by cases σ <;> rfl

theorem token_inj {σ σ' : Sigil} (h : σ.token = σ'.token) : σ = σ' := by
  cases σ <;> cases σ' <;> first | rfl | exact absurd h (by decide)

end Sigil

/-- What is printed of a type without any name in it. -/
inductive Outline where
  | base (base : Base) (quals : Quals)
  | sigil (sigil : Sigil) (quals : Quals) (target : Outline)
  | array (extent : Option UInt64) (element : Outline)
  | function (result : Outline) (params : List Outline) (variadic : Bool) (quals : Quals)
    (ref : RefQualifier)

namespace Outline

/-- An operator in front of a declarator has to stand in parentheses. -/
def needsParens : Outline → Bool
  | .array .. | .function .. => true
  | .base .. | .sigil .. => false

def isReference : Outline → Bool
  | .sigil σ .. => σ.isReference
  | .base .. | .array .. | .function .. => false

mutual

/-- The bases have no name, all qualifiers are qualifiers of the language, and no reference refers
to a reference. -/
def Sound : Outline → Prop
  | .base b q => b.Nameless ∧ q.Valid
  | .sigil σ q a => q.Valid ∧ (σ.isReference = true → a.isReference = false) ∧ a.Sound
  | .array _ a => a.Sound
  | .function r ps _ q _ => q.Valid ∧ r.Sound ∧ AllSound ps

/-- The outlines are sound. -/
def AllSound : List Outline → Prop
  | [] => True
  | a :: rest => a.Sound ∧ AllSound rest

end

theorem AllSound.sound {ps : List Outline} (h : AllSound ps) : ∀ p ∈ ps, p.Sound := by
  induction ps with
  | nil => simp
  | cons a rest ih =>
      unfold AllSound at h
      exact List.forall_mem_cons.mpr ⟨h.1, ih h.2⟩

/-! ## Tokens -/

/-- The parenthesis that is opened between the target of a sigil and the sigil. -/
def opening (a : Outline) : List Token := if a.needsParens then [.punct "("] else []

/-- The parenthesis that is closed between what is behind the sigil and what is behind its
target. -/
def closing (a : Outline) : List Token := if a.needsParens then [.punct ")"] else []

/-- The tokens in front of the declarator. -/
def front : Outline → List Token
  | .base b q => qualTokens q ++ textTokens b.text
  | .sigil σ q a => a.front ++ a.opening ++ σ.token :: qualTokens q
  | .array _ a => a.front
  | .function r .. => r.front

mutual

/-- The tokens behind the declarator. -/
def back : Outline → List Token
  | .base .. => []
  | .sigil _ _ a => a.closing ++ a.back
  | .array n a => suffixTokens (.array n) ++ a.back
  | .function r ps v q ref =>
    .punct "(" :: (joinTokens (allTokens ps) v ++
      .punct ")" :: (qualTokens q ++ (refTokens ref ++ r.back)))

/-- The tokens of parameters, which have no names. -/
def allTokens : List Outline → List (List Token)
  | [] => []
  | a :: rest => (a.front ++ a.back) :: allTokens rest

end

/-- The tokens of a type without a declarator. -/
def tokens (a : Outline) : List Token := a.front ++ a.back

theorem allTokens_eq (ps : List Outline) : allTokens ps = ps.map tokens := by
  induction ps with
  | nil => rfl
  | cons a rest ih => rw [allTokens, ih, List.map_cons, tokens]

variable {a b : Outline}

theorem frontal_front : (a : Outline) → a.Sound → Frontal a.front
  | .base _ q, ha => (frontal_qualTokens q).append ha.1.frontal
  | .sigil σ q a, ha => by
    have hsigil := isFrontToken_of_isSigil σ.isSigil_token
    rw [front, List.append_assoc]
    refine (frontal_front a ha.2.2).append ?_
    unfold opening
    split
    · exact .opened σ.isSigil_token (frontal_qualTokens q)
    · exact .cons hsigil (frontal_qualTokens q)
  | .array _ a, ha => frontal_front a ha
  | .function r .., ha => frontal_front r ha.2.1

/-- The first word is one of the base. -/
theorem beginsWord_front : (a : Outline) → a.Sound → (ts : List Token) →
    BeginsWord (a.front ++ ts)
  | .base b q, ha, ts => by
    rw [front]
    cases hq : qualTokens q with
    | nil =>
        have hbegins := ha.1.tokens.1
        cases hb : textTokens b.text with
        | nil => rw [hb] at hbegins; exact hbegins.elim
        | cons t rest =>
            rw [hb] at hbegins
            cases t with
            | word => rfl
            | number | punct => exact hbegins.elim
    | cons t rest => exact isWord_of_mem_qualTokens (hq ▸ List.mem_cons_self)
  | .sigil _ _ a, ha, ts => by
    rw [front, List.append_assoc, List.append_assoc]
    exact beginsWord_front a ha.2.2 _
  | .array _ a, ha, ts => beginsWord_front a ha ts
  | .function r .., ha, ts => beginsWord_front r ha.2.1 ts

/-- Parameters begin with a word, and if there are none with the dots or the end of them. -/
theorem joinTokens_head? {ps : List Outline} (hps : AllSound ps) (v : Bool) (ts : List Token) :
    ∀ s ∈ (joinTokens (allTokens ps) v ++ .punct ")" :: ts).head?, isSigil s = false := by
  cases ps with
  | nil => cases v <;> rintro _ ⟨rfl⟩ <;> rfl
  | cons p rest =>
      unfold AllSound at hps
      rw [allTokens, joinTokens, List.append_assoc, List.append_assoc]
      exact (beginsWord_front p hps.1 _).head?

theorem back_behind {r : List Token} (hr : Stops r) : (a : Outline) → a.Sound →
    Behind (a.back ++ r)
  | .base .., _ => hr.behind
  | .sigil _ _ a, ha => by
    rw [back, closing]
    split
    · exact .inl rfl
    · exact back_behind hr a ha.2.2
  | .array (some _) _, _ | .array none _, _ => .inr (.inr (.inl rfl))
  | .function _ ps v _ _, ha => by
    rw [back, List.cons_append, List.append_assoc, List.cons_append]
    exact .inr (.inr (.inr ⟨rfl, joinTokens_head? ha.2.2 v _⟩))

/-- Behind a declarator the type ends at once unless it is an array or a function. -/
theorem stops_back_iff {r : List Token} (hr : Stops r) : (a : Outline) →
    (Stops (a.back ++ r) ↔ a.needsParens = false)
  | .base .. => iff_of_true hr rfl
  | .sigil _ _ a => by
    refine iff_of_true ?_ rfl
    rw [back, closing]
    split
    · exact .inl rfl
    next hparens => exact (stops_back_iff hr a).mpr (by simpa using hparens)
  | .array (some _) _ | .array none _ => iff_of_false (not_stops_cons (.inl rfl) _) nofun
  | .function .. => iff_of_false (not_stops_cons (.inr rfl) _) nofun

/-! ## Outlines are told by their tokens -/

theorem opening_behind (a : Outline) : Behind a.opening := by
  unfold opening
  split
  · exact .inr (.inr (.inr ⟨rfl, by simp⟩))
  · trivial

theorem opening_inj {a b : Outline} (h : a.opening = b.opening) :
    a.needsParens = b.needsParens := by
  unfold opening at h
  cases ha : a.needsParens <;> cases hb : b.needsParens <;> simp_all

/-- A sigil is told from what is in front of it, and so is its target. -/
theorem sigil_front_inj {a b : Outline} {σ σ' : Sigil} {q q' : Quals}
    (ha : (sigil σ q a).Sound) (hb : (sigil σ' q' b).Sound)
    (h : (sigil σ q a).front = (sigil σ' q' b).front) :
    σ = σ' ∧ q = q' ∧ a.front = b.front ∧ a.needsParens = b.needsParens := by
  obtain ⟨hinside, hσ, hquals⟩ := eq_of_append_last (p := Token.isWord)
    (not_isWord_of_isSigil σ.isSigil_token) (not_isWord_of_isSigil σ'.isSigil_token)
    (fun _ => isWord_of_mem_qualTokens) (fun _ => isWord_of_mem_qualTokens) h
  obtain ⟨hfront, hopening⟩ := (frontal_front a ha.2.2).eq_of_append (frontal_front b hb.2.2)
    a.opening_behind b.opening_behind hinside
  exact ⟨Sigil.token_inj hσ, qualTokens_inj ha.1 hb.1 hquals, hfront, opening_inj hopening⟩

/-- In front of the declarator of a base there is no sigil. -/
theorem base_front_ne {b : Base} {q q' : Quals} {σ : Sigil} {a : Outline} (hb : (base b q).Sound) :
    (base b q).front ≠ (sigil σ q' a).front := by
  intro h
  have hmem : σ.token ∈ (base b q).front := by
    rw [h, front]
    exact List.mem_append_right _ List.mem_cons_self
  rcases List.mem_append.mp hmem with hmem | hmem
  · exact absurd (isWord_of_mem_qualTokens hmem)
      (by rw [not_isWord_of_isSigil σ.isSigil_token]; decide)
  · exact absurd σ.isSigil_token (by rw [(hb.1.tokens.2 _ hmem).2]; decide)

/-- What is behind the declarator of an array tells the extent. -/
theorem array_back_inj {n n' : Option UInt64} {ts ts' : List Token}
    (h : suffixTokens (.array n) ++ ts = suffixTokens (.array n') ++ ts') : n = n' ∧ ts = ts' := by
  cases n <;> cases n' <;> simp only [suffixTokens, List.cons_append, List.nil_append,
    List.cons.injEq, Token.number.injEq, reduceCtorEq, false_and, and_false, true_and] at h
  · exact ⟨rfl, h⟩
  · exact ⟨congrArg some (toString_inj h.1), h.2⟩

/-- Whether parentheses are needed is told by what is behind the declarator. -/
theorem needsParens_eq {a b : Outline} {r r' : List Token} (hr : Stops r) (hr' : Stops r')
    (h : a.back ++ r = b.back ++ r') : a.needsParens = b.needsParens := by
  have hstops := stops_back_iff hr a
  rw [h, stops_back_iff hr' b] at hstops
  cases ha : a.needsParens <;> cases hb : b.needsParens <;> simp_all

/-- An outline is told from what is in front of and behind its declarator, even where other tokens
follow. -/
theorem eq_of_front_back : (a b : Outline) → a.Sound → b.Sound → {r r' : List Token} → Stops r →
    Stops r' → a.front = b.front → a.back ++ r = b.back ++ r' → a = b ∧ r = r'
  | .base _ _, .base _ _, ha, hb, _, _, _, _, hfront, hback => by
    obtain ⟨rfl, rfl⟩ := base_inj ha.1 hb.1 ha.2 hb.2 hfront
    exact ⟨rfl, hback⟩
  | .base .., .sigil .., ha, _, _, _, _, _, hfront, _ => absurd hfront (base_front_ne ha)
  | .sigil .., .base .., _, hb, _, _, _, _, hfront, _ => absurd hfront.symm (base_front_ne hb)
  | .sigil _ _ a, .sigil _ _ b, ha, hb, _, _, hr, hr', hfront, hback => by
    -- the last sigil comes off in front, and behind the parenthesis that is closed for it
    obtain ⟨rfl, rfl, hfront, hinside⟩ := sigil_front_inj ha hb hfront
    rw [back, back, closing, closing, hinside, List.append_assoc, List.append_assoc] at hback
    obtain ⟨rfl, hr⟩ := eq_of_front_back a b ha.2.2 hb.2.2 hr hr' hfront
      (List.append_cancel_left hback)
    exact ⟨rfl, hr⟩
  | .array _ a, .array _ b, ha, hb, _, _, hr, hr', hfront, hback => by
    rw [back, back, List.append_assoc, List.append_assoc] at hback
    obtain ⟨rfl, hinside⟩ := array_back_inj hback
    obtain ⟨rfl, hr⟩ := eq_of_front_back a b ha hb hr hr' hfront hinside
    exact ⟨rfl, hr⟩
  | .array n _, .function .., _, _, _, _, _, _, _, hback
  | .function .., .array n _, _, _, _, _, _, _, _, hback => by
    cases n <;> exact absurd (List.cons.inj hback).1 (by decide)
  | .function res ps _ _ _, .function res' ps' _ _ _, ha, hb, _, _, hr, hr', hfront, hback => by
    -- parameters are written before what is behind the declarator of the result, so they go first
    have hps := ha.2.2.sound
    have hps' := hb.2.2.sound
    rw [back, back, allTokens_eq, allTokens_eq] at hback
    simp only [List.cons_append, List.append_assoc] at hback
    obtain ⟨rfl, rfl, htail⟩ := joinTokens_inj tokens
      (fun p hp => beginsWord_front p (hps p hp) _) (fun p hp => beginsWord_front p (hps' p hp) _)
      (fun p hp p' hp' s s' hs hs' h => by
        rw [tokens, tokens, List.append_assoc, List.append_assoc] at h
        obtain ⟨hfront, hback⟩ := (frontal_front p (hps p hp)).eq_of_append
          (frontal_front p' (hps' p' hp')) (back_behind hs p (hps p hp))
          (back_behind hs' p' (hps' p' hp')) h
        exact eq_of_front_back p p' (hps p hp) (hps' p' hp') hs hs' hfront hback)
      (List.cons.inj hback).2
    obtain ⟨rfl, rfl, hinside⟩ := functionTail_inj ha.1 hb.1 (back_behind hr res ha.2.1)
      (back_behind hr' res' hb.2.1) htail
    obtain ⟨rfl, hr⟩ := eq_of_front_back res res' ha.2.1 hb.2.1 hr hr' hfront hinside
    exact ⟨rfl, hr⟩
  | .base .., .array .., _, _, _, _, hr, hr', _, hback
  | .base .., .function .., _, _, _, _, hr, hr', _, hback
  | .sigil .., .array .., _, _, _, _, hr, hr', _, hback
  | .sigil .., .function .., _, _, _, _, hr, hr', _, hback
  | .array .., .base .., _, _, _, _, hr, hr', _, hback
  | .array .., .sigil .., _, _, _, _, hr, hr', _, hback
  | .function .., .base .., _, _, _, _, hr, hr', _, hback
  | .function .., .sigil .., _, _, _, _, hr, hr', _, hback =>
    nomatch needsParens_eq hr hr' hback

/-- Sound outlines with the same tokens are the same. -/
theorem tokens_inj {a b : Outline} (ha : a.Sound) (hb : b.Sound) (h : a.tokens = b.tokens) :
    a = b := by
  have hend : Stops [] := trivial
  have hbehind : ∀ c : Outline, c.Sound → Behind c.back := by
    intro c hc
    have hback := back_behind hend c hc
    rwa [List.append_nil] at hback
  obtain ⟨hfront, hback⟩ := (frontal_front a ha).eq_of_append (frontal_front b hb) (hbehind a ha)
    (hbehind b hb) h
  exact (eq_of_front_back a b ha hb hend hend hfront (congrArg (· ++ []) hback)).1

/-! ## What is printed for an outline -/

/-- What is printed behind the declarator of a function. -/
def functionSuffix (params : List String) (variadic : Bool) (q : Quals) (ref : RefQualifier) :
    String :=
  "(" ++ Model.paramsText params variadic ++ ")" ++ Model.functionTail q ref

mutual

/-- The outline printed around a declarator. -/
def print : Outline → String → String
  | .base b q, x => Model.baseText b.text q x
  | .sigil σ q a, x =>
    a.print (if a.needsParens then "(" ++ Model.operatorText σ.text q x ++ ")"
      else Model.operatorText σ.text q x)
  | .array n a, x => a.print (x ++ printSuffix (.array n))
  | .function r ps v q ref, x =>
    r.print (x ++ functionSuffix (printAll ps) v q ref)

/-- The outlines of parameters. -/
def printAll : List Outline → List String
  | [] => []
  | a :: rest => a.print "" :: printAll rest

end

open Token (scan)

theorem textTokens_text (σ : Sigil) : textTokens σ.text = [σ.token] := by
  cases σ <;> decide +kernel

/-- A sigil is cut from what follows it, but for an `&` behind a reference. -/
theorem scan_text_append (σ : Sigil) {cs : List Char}
    (h : σ.isReference = true → cs.head? ≠ some '&') :
    scan (σ.text.toList ++ cs) = textTokens σ.text ++ scan cs := by
  cases σ with
  | pointer => exact scan_sigil_append (o := .pointer .none) nofun
  | lvalueReference => exact scan_sigil_append (o := .lvalueReference) h
  | rvalueReference => exact scan_sigil_append (o := .rvalueReference) h

theorem scan_operatorText (σ : Sigil) (q : Quals) {x : String}
    (h : σ.isReference = true → x.toList.head? ≠ some '&') :
    scan (Model.operatorText σ.text q x).toList = σ.token :: (qualTokens q ++ scan x.toList) := by
  rw [scan_operatorText_of, textTokens_text, List.singleton_append]
  rintro cs (hcs | rfl)
  · exact scan_text_append σ fun _ => hcs
  · exact scan_text_append σ h

/-- What is printed for a sigil begins with an `&` for references only. -/
theorem operatorText_head? {σ : Sigil} (h : σ.isReference = false) (q : Quals) (x : String) :
    (Model.operatorText σ.text q x).toList.head? ≠ some '&' := by
  cases σ with
  | pointer => unfold Model.operatorText; split <;> simp [Sigil.text]
  | lvalueReference | rvalueReference => cases h

theorem scan_functionSuffix (params : List String) (variadic : Bool) (q : Quals)
    (ref : RefQualifier) :
    scan (functionSuffix params variadic q ref).toList =
      .punct "(" :: (joinTokens (params.map textTokens) variadic ++
        .punct ")" :: (qualTokens q ++ refTokens ref)) := by
  rw [functionSuffix, String.toList_append, scan_append_functionTail, scan_parens, scan_joined]
  simp

/-- A suffix is cut from the declarator, and does not begin with an `&`. -/
theorem scan_append_suffix {x s : String} {c : Char} (hs : s.toList.head? = some c) (hc : Lone c) :
    scan (x ++ s).toList = scan x.toList ++ scan s.toList ∧
      (x.toList.head? ≠ some '&' → (x ++ s).toList.head? ≠ some '&') := by
  obtain ⟨cs, hcs⟩ := List.head?_eq_some_iff.mp hs
  rw [String.toList_append, hcs]
  refine ⟨scan_append_lone hc _ cs, fun hx => head?_append_ne hx ?_⟩
  rintro ⟨rfl⟩
  exact absurd hc (by decide)

mutual

/-- What is printed for an outline is cut into its tokens, in front of and behind those of the
declarator. An `&` in front of the declarator has to be kept apart from that of a reference. -/
theorem scan_print : (a : Outline) → a.Sound → {x : String} →
    ((a.isReference || a.needsParens) = true → x.toList.head? ≠ some '&') →
    scan (a.print x).toList = a.front ++ (scan x.toList ++ a.back)
  | .base b q, _, x, _ => by
    rw [print, scan_baseText, front, back, List.append_nil]
  | .sigil σ q a, ha, x, hx => by
    have htext := scan_operatorText σ q fun hσ => hx (by rw [isReference, hσ]; rfl)
    rw [print, scan_print a ha.2.2, front, back, opening, closing]
    · split
      · rw [scan_parens, htext]
        simp
      · rw [htext]
        simp
    · split
      next => simp
      next hparens =>
        -- no parenthesis is between the two, but a reference does not refer to a reference
        intro href
        rw [Bool.eq_false_iff.mpr hparens, Bool.or_false] at href
        refine operatorText_head? ?_ q x
        by_contra hσ
        rw [ha.2.1 (by simpa using hσ)] at href
        cases href
  | .array n a, ha, x, hx => by
    have hlone : (printSuffix (.array n)).toList.head? = some '[' := by
      cases n <;> simp [printSuffix]
    obtain ⟨hscan, hhead⟩ := scan_append_suffix (x := x) hlone (by decide)
    rw [print, scan_print a ha fun _ => hhead (hx rfl), hscan,
      scan_printSuffix (.array n) trivial, front, back, List.append_assoc]
  | .function r ps v q ref, ha, x, hx => by
    have hlone : (functionSuffix (printAll ps) v q ref).toList.head? = some '(' := by
      simp [functionSuffix]
    obtain ⟨hscan, hhead⟩ := scan_append_suffix (x := x) hlone (by decide)
    rw [print, scan_print r ha.2.1 fun _ => hhead (hx rfl), hscan, scan_functionSuffix,
      scan_printAll ps ha.2.2, front, back]
    simp

/-- Parameters are cut into their tokens. -/
theorem scan_printAll : (ps : List Outline) → AllSound ps →
    (printAll ps).map textTokens = allTokens ps
  | [], _ => rfl
  | a :: rest, h => by
    unfold AllSound at h
    rw [printAll, List.map_cons, scan_printAll rest h.2, allTokens, textTokens,
      scan_print a h.1 (by simp)]
    rfl

end

/-- Sound outlines that are printed alike are the same. -/
theorem print_inj {a b : Outline} (ha : a.Sound) (hb : b.Sound) (h : a.print "" = b.print "") :
    a = b := by
  have htokens : ∀ {c : Outline}, c.Sound → scan (c.print "").toList = c.tokens := fun hc =>
    scan_print _ hc (by simp)
  exact tokens_inj ha hb (by rw [← htokens ha, h, htokens hb])

end Outline

end CppReflect.Spelling
