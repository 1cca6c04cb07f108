import CppReflect.Proofs.Spelling.Names
import Mathlib.Logic.Relation

/-!
# Telling member pointers ahead

Whether the class of a member pointer stands at some place is looked up in the tokens ahead, before
the class is read. Looking ahead and reading both go over the segments of a name up to `:: *`. They
differ in the way over template arguments: looking ahead counts angle brackets, and reading counts
brackets of every kind. Where both ways end at the same `>` behind each segment that is read,
looking ahead finds what reading reads, and stops behind the same `*`. So it is wherever the
brackets of the arguments match; in `A<(1>2)>::*` it is not.
-/

namespace CppReflect.Spelling

variable {ts rest : List Token}

/-! ## Reading over template arguments -/

/-- The number of brackets open behind a token, whatever their kind. -/
def depthBehind (depth : Nat) (t : Token) : Nat :=
  if t.text = "<" ∨ t.text = "(" ∨ t.text = "[" then depth + 1
  else if t.text = ">" ∨ t.text = ")" ∨ t.text = "]" then depth - 1
  else depth

/-- The tokens behind the first `>` outside brackets. -/
def behindArguments? (depth : Nat) : List Token → Option (List Token)
  | [] => none
  | t :: rest =>
    if t.text = ">" ∧ depth = 0 then some rest else behindArguments? (depthBehind depth t) rest

theorem toOption_bind {α β : Type} (x : Except SpellingError α)
    (f : α → Except SpellingError β) :
    (x >>= f).toOption = x.toOption.bind fun a => (f a).toOption := by
  cases x <;> rfl

theorem templateArgsFrom_rest (depth : Nat) (arg ts : List Token) :
    (templateArgsFrom depth arg ts).toOption.map Prod.snd = behindArguments? depth ts := by
  induction ts generalizing depth arg with
  | nil => rfl
  | cons t ts ih =>
      rw [templateArgsFrom, behindArguments?, depthBehind]
      dsimp only
      by_cases hopen : t.text = "<" ∨ t.text = "(" ∨ t.text = "["
      · have hend : ¬(t.text = ">" ∧ depth = 0) := by
          rintro ⟨hclose, -⟩
          simp [hclose] at hopen
        rw [if_pos hopen, if_neg hend, if_pos hopen, ih]
      · rw [if_neg hopen, if_neg hopen]
        by_cases hend : t.text = ">" ∧ depth = 0
        · rw [if_pos hend, if_pos hend]
          rfl
        · rw [if_neg hend, if_neg hend]
          by_cases hclose : t.text = ">" ∨ t.text = ")" ∨ t.text = "]"
          · rw [if_pos hclose, if_pos hclose, ih]
          · rw [if_neg hclose, if_neg hclose]
            by_cases hcomma : t.text = "," ∧ depth = 0
            · rw [if_pos hcomma, hcomma.2, ← ih 0 [], toOption_bind]
              cases (templateArgsFrom 0 [] ts).toOption <;> rfl
            · rw [if_neg hcomma, ih]

/-- The tokens behind a word and its template arguments, if both are there to read. -/
def behindSegment? : List Token → Option (List Token)
  | .word _ :: t :: after => if t.isPunct "<" then behindArguments? 0 after else some (t :: after)
  | [.word _] => some []
  | _ => none

theorem nameSegment_rest (ts : List Token) :
    (nameSegment ts).toOption.map Prod.snd = behindSegment? ts := by
  unfold nameSegment
  split
  next w rest =>
    cases rest with
    | nil => rfl
    | cons t after =>
        rw [behindSegment?]
        dsimp only
        split
        next =>
          rw [← templateArgsFrom_rest 0 [], toOption_bind]
          cases (templateArgsFrom 0 [] after).toOption <;> rfl
        next => rfl
  next hword =>
    unfold behindSegment?
    split
    next => exact absurd rfl (hword _ _)
    next => exact absurd rfl (hword _ _)
    next => rfl

/-! ## Over the segments of a class -/

/-- The tokens behind `:: *`, where `skip` leads over each of the segments in front of it, of which
there are at most `fuel`. -/
def behindStar? (skip : List Token → Option (List Token)) : Nat → List Token → Option (List Token)
  | 0, _ => none
  | fuel + 1, ts =>
    match skip ts with
    | some (colons :: star :: rest) =>
      if colons.isPunct "::" then
        if star.isPunct "*" then some rest else behindStar? skip fuel (star :: rest)
      else none
    | _ => none

/-- The tokens that looking ahead takes for those behind a segment. -/
def beyondSegment? : List Token → Option (List Token)
  | .word _ :: rest => some (if nextIs "<" rest then behindAngles 0 rest else rest)
  | _ => none

theorem memberPointerSegments?_eq (fuel : Nat) (ts : List Token) :
    memberPointerSegments? fuel ts = behindStar? beyondSegment? fuel ts := by
  induction fuel generalizing ts with
  | zero => rfl
  | succ fuel ih =>
      obtain _ | ⟨w | n | p, ts⟩ := ts
      · rfl
      · rw [memberPointerSegments?, behindStar?, beyondSegment?]
        generalize (if nextIs "<" ts then behindAngles 0 ts else ts) = us
        obtain _ | ⟨colons, _ | ⟨star, us⟩⟩ := us
        · rfl
        · rfl
        · dsimp only
          rw [ih]
      · rfl
      · rfl

theorem memberPointerClassFrom_rest (fuel : Nat) (ts : List Token) :
    (memberPointerClassFrom fuel ts).toOption.map Prod.snd =
      behindStar? behindSegment? fuel ts := by
  induction fuel generalizing ts with
  | zero => rfl
  | succ fuel ih =>
      have hskip := nameSegment_rest ts
      rw [memberPointerClassFrom, behindStar?]
      cases hread : nameSegment ts with
      | error e =>
          rw [hread] at hskip
          rw [← hskip]
          rfl
      | ok read =>
          obtain ⟨segment, us⟩ := read
          rw [hread] at hskip
          rw [show behindSegment? ts = some us from hskip.symm]
          obtain _ | ⟨colons, _ | ⟨star, rest⟩⟩ := us
          · rfl
          · simp only [ok_bind, expect]
            split <;> rfl
          · simp only [ok_bind, expect]
            by_cases hcolons : colons.isPunct "::" = true
            · rw [if_pos hcolons, if_pos hcolons, ok_bind]
              by_cases hstar : star.isPunct "*" = true
              · simp only [if_pos hstar]
                rfl
              · simp only [if_neg hstar, toOption_bind, ← ih]
                cases (memberPointerClassFrom fuel (star :: rest)).toOption <;> rfl
            · rw [if_neg hcolons, if_neg hcolons, toOption_bind]
              rfl

theorem Token.eq_punct_of_isPunct {t : Token} {p : String} (h : t.isPunct p = true) :
    t = .punct p := by
  cases t with
  | punct q => exact congrArg Token.punct (beq_iff_eq.mp h)
  | word | number => cases h

/-- A way over segments takes one token at least from the front. -/
def Advances (skip : List Token → Option (List Token)) : Prop :=
  ∀ ts rest, skip ts = some rest → ∃ t front, ts = t :: (front ++ rest)

theorem behindAngles_suffix (depth : Nat) (ts : List Token) : behindAngles depth ts <:+ ts := by
  induction ts generalizing depth with
  | nil => exact List.suffix_refl []
  | cons t ts ih =>
      have hdeeper (depth : Nat) : behindAngles depth ts <:+ t :: ts :=
        (ih depth).trans (List.suffix_cons t ts)
      rw [behindAngles]
      split_ifs
      · exact hdeeper _
      · exact List.suffix_cons t ts
      · exact hdeeper _
      · exact hdeeper _

theorem beyondSegment?_advances : Advances beyondSegment? := by
  intro ts rest h
  unfold beyondSegment? at h
  split at h
  next w after =>
    have hsuffix : rest <:+ after := by
      rw [← Option.some.inj h]
      split
      · exact behindAngles_suffix 0 after
      · exact List.suffix_refl after
    obtain ⟨front, hfront⟩ := hsuffix
    exact ⟨.word w, front, by rw [hfront]⟩
  next => cases h

namespace Advances

variable {skip : List Token → Option (List Token)}

theorem length_lt (h : Advances skip) (hskip : skip ts = some rest) :
    rest.length < ts.length := by
  obtain ⟨t, front, rfl⟩ := h ts rest hskip
  rw [List.length_cons, List.length_append]
  omega

/-- As many rounds as there are tokens are enough. -/
theorem behindStar?_fuel (h : Advances skip) {fuel fuel' : Nat} (hfuel : ts.length ≤ fuel)
    (hfuel' : ts.length ≤ fuel') : behindStar? skip fuel ts = behindStar? skip fuel' ts := by
  have hnil : skip [] = none := by
    by_contra hne
    obtain ⟨rest, hrest⟩ := Option.ne_none_iff_exists'.mp hne
    exact absurd (h.length_lt hrest) (Nat.not_lt_zero _)
  induction fuel generalizing ts fuel' with
  | zero =>
      obtain rfl : ts = [] := List.eq_nil_of_length_eq_zero (Nat.le_zero.mp hfuel)
      cases fuel' with
      | zero => rfl
      | succ fuel' => rw [behindStar?, behindStar?, hnil]
  | succ fuel ih =>
      cases fuel' with
      | zero =>
          obtain rfl : ts = [] := List.eq_nil_of_length_eq_zero (Nat.le_zero.mp hfuel')
          rw [behindStar?, behindStar?, hnil]
      | succ fuel' =>
          rw [behindStar?, behindStar?]
          split
          next colons star rest hskip =>
            have hshorter := h.length_lt hskip
            rw [List.length_cons] at hshorter
            have hrest : behindStar? skip fuel (star :: rest) =
                behindStar? skip fuel' (star :: rest) := ih (by omega) (by omega)
            rw [hrest]
          next => rfl

/-- The tokens are those behind a `:: *`. -/
theorem eq_append_star (h : Advances skip) {fuel : Nat}
    (hstar : behindStar? skip fuel ts = some rest) :
    ∃ front, ts = front ++ .punct "::" :: .punct "*" :: rest := by
  induction fuel generalizing ts with
  | zero => cases hstar
  | succ fuel ih =>
      rw [behindStar?] at hstar
      split at hstar
      next colons star after hskip =>
        obtain ⟨t, front, rfl⟩ := h _ _ hskip
        split at hstar
        next hcolons =>
          obtain rfl := Token.eq_punct_of_isPunct hcolons
          split at hstar
          next hpunct =>
            obtain rfl := Token.eq_punct_of_isPunct hpunct
            obtain rfl := Option.some.inj hstar
            exact ⟨t :: front, rfl⟩
          next =>
            obtain ⟨behind, hbehind⟩ := ih hstar
            exact ⟨t :: (front ++ .punct "::" :: behind), by simp [hbehind]⟩
        next => cases hstar
      next => cases hstar

end Advances

/-! ## Ways that end at the same bracket -/

/-- The number of angle brackets open behind a token. -/
def anglesBehind (angles : Nat) (t : Token) : Nat :=
  if t.isPunct "<" then angles + 1 else if t.isPunct ">" then angles - 1 else angles

/-- The `>` that closes template arguments is the same one whether all brackets count or angle
brackets alone, where `depth` and `angles` of them have been opened in the arguments. -/
def closesAlike (depth angles : Nat) : List Token → Bool
  | [] => true
  | t :: rest =>
    let byAll := t.text == ">" && depth == 0
    let byAngles := t.isPunct ">" && angles == 0
    byAll == byAngles && (byAll || closesAlike (depthBehind depth t) (anglesBehind angles t) rest)

theorem behindAngles_cons (angles : Nat) (t : Token) (ts : List Token) :
    behindAngles (angles + 1) (t :: ts) =
      if t.isPunct ">" ∧ angles = 0 then ts else behindAngles (anglesBehind angles t + 1) ts := by
  rw [behindAngles, anglesBehind]
  by_cases hopen : t.isPunct "<" = true
  · obtain rfl := Token.eq_punct_of_isPunct hopen
    rfl
  · rw [if_neg hopen, if_neg hopen]
    by_cases hclose : t.isPunct ">" = true
    · cases angles <;> simp [hclose]
    · simp [hclose]

/-- Counting angle brackets alone leads behind the same `>`, or over all tokens if there is none. -/
theorem behindAngles_of_alike {depth angles : Nat} {ts : List Token}
    (h : closesAlike depth angles ts = true) :
    behindAngles (angles + 1) ts = (behindArguments? depth ts).getD [] := by
  induction ts generalizing depth angles with
  | nil => rfl
  | cons t ts ih =>
      rw [closesAlike] at h
      simp only [Bool.and_eq_true, beq_iff_eq, Bool.or_eq_true] at h
      obtain ⟨halike, hrest⟩ := h
      rw [behindAngles_cons, behindArguments?]
      by_cases hend : t.text = ">" ∧ depth = 0
      · have hangles : t.isPunct ">" = true ∧ angles = 0 := by
          simpa [hend.1, hend.2] using halike.symm
        rw [if_pos hangles, if_pos hend, Option.getD_some]
      · have hangles : ¬(t.isPunct ">" = true ∧ angles = 0) := by
          intro hclose
          rw [hclose.1, hclose.2] at halike
          exact hend (by simpa using halike)
        rw [if_neg hangles, if_neg hend]
        exact ih (hrest.resolve_left hend)

/-- The arguments of the first segment, if it has any, are closed alike. -/
def argumentsAlike : List Token → Bool
  | .word _ :: t :: after => !t.isPunct "<" || closesAlike 0 0 after
  | _ => true

/-- Looking ahead and reading leave the same tokens behind a segment, or looking ahead none if the
arguments are not closed. -/
theorem beyondSegment?_of_alike (h : argumentsAlike ts = true) :
    beyondSegment? ts = behindSegment? ts ∨
      beyondSegment? ts = some [] ∧ behindSegment? ts = none := by
  obtain _ | ⟨w | n | p, _ | ⟨t, after⟩⟩ := ts
  case cons.word.cons =>
    rw [beyondSegment?, behindSegment?, nextIs]
    by_cases hangle : t.isPunct "<" = true
    · obtain rfl := Token.eq_punct_of_isPunct hangle
      have hclose : closesAlike 0 0 after = true := h
      have hbehind : behindAngles 0 (.punct "<" :: after) = behindAngles (0 + 1) after := rfl
      rw [if_pos hangle, if_pos hangle, hbehind, behindAngles_of_alike hclose]
      cases behindArguments? 0 after with
      | none => exact .inr ⟨rfl, rfl⟩
      | some rest => exact .inl rfl
    · rw [if_neg hangle, if_neg hangle]
      exact .inl rfl
  all_goals exact .inl rfl

/-- A further segment begins behind the `::` behind the one at the front. -/
def Continues (ts us : List Token) : Prop :=
  ∃ colons : Token, colons.isPunct "::" = true ∧ behindSegment? ts = some (colons :: us)

/-- Every segment that is read from the front on has its arguments closed alike. -/
def AlikeThroughout (ts : List Token) : Prop :=
  ∀ us, Relation.ReflTransGen Continues ts us → argumentsAlike us = true

theorem alikeThroughout_iff :
    AlikeThroughout ts ↔
      argumentsAlike ts = true ∧ ∀ us, Continues ts us → AlikeThroughout us := by
  constructor
  · intro h
    exact ⟨h ts .refl, fun us hus vs hvs => h vs (.head hus hvs)⟩
  · rintro ⟨hts, hnext⟩ us hus
    rcases hus.cases_head with rfl | ⟨vs, hvs, hus⟩
    · exact hts
    · exact hnext vs hvs us hus

theorem alikeThroughout_of_end (hts : argumentsAlike ts = true) (hend : behindSegment? ts = none) :
    AlikeThroughout ts := by
  refine alikeThroughout_iff.mpr ⟨hts, ?_⟩
  rintro us ⟨colons, -, hread⟩
  rw [hend] at hread
  cases hread

theorem alikeThroughout_of_next {colons : Token} {us : List Token}
    (hts : argumentsAlike ts = true) (hread : behindSegment? ts = some (colons :: us))
    (hus : AlikeThroughout us) : AlikeThroughout ts := by
  refine alikeThroughout_iff.mpr ⟨hts, ?_⟩
  rintro vs ⟨_, _, hread'⟩
  rw [hread] at hread'
  cases hread'
  exact hus

theorem behindStar?_of_alike (h : AlikeThroughout ts) (fuel : Nat) :
    behindStar? beyondSegment? fuel ts = behindStar? behindSegment? fuel ts := by
  induction fuel generalizing ts with
  | zero => rfl
  | succ fuel ih =>
      obtain ⟨halike, hnext⟩ := alikeThroughout_iff.mp h
      rw [behindStar?, behindStar?]
      rcases beyondSegment?_of_alike halike with heq | ⟨hbeyond, hbehind⟩
      · rw [heq]
        split
        next colons star rest hread =>
          split
          next hcolons =>
            have hrest := ih (hnext (star :: rest) ⟨colons, hcolons, hread⟩)
            rw [hrest]
          next => rfl
        next => rfl
      · rw [hbeyond, hbehind]

/-! ## Brackets that match -/

/-- Each bracket of the tokens is closed in them by one of its kind. -/
inductive Matched : List Token → Prop
  | nil : Matched []
  | plain {t : Token} {ts : List Token} (ht : t.text ∉ ["<", "(", "[", ">", ")", "]"])
      (hts : Matched ts) : Matched (t :: ts)
  | group {opening closing : String} {inner ts : List Token}
      (hpair : (opening, closing) ∈ [("<", ">"), ("(", ")"), ("[", "]")]) (hinner : Matched inner)
      (hts : Matched ts) : Matched (.punct opening :: (inner ++ .punct closing :: ts))

theorem closesAlike_plain {t : Token} (ht : t.text ∉ ["<", "(", "[", ">", ")", "]"])
    (depth angles : Nat) (ts : List Token) :
    closesAlike depth angles (t :: ts) = closesAlike depth angles ts := by
  have hpunct (p : String) (hp : p ∈ ["<", "(", "[", ">", ")", "]"]) : t.isPunct p = false := by
    refine Bool.eq_false_iff.mpr fun hpunct => ht ?_
    obtain rfl := Token.eq_punct_of_isPunct hpunct
    exact hp
  simp only [List.mem_cons, List.not_mem_nil, or_false, not_or] at ht
  have hclose : (t.text == ">") = false := beq_false_of_ne ht.2.2.2.1
  simp [closesAlike, depthBehind, anglesBehind, ht, hclose, hpunct]

/-- Matching brackets leave open what was open in front of them. -/
theorem Matched.closesAlike_append {args : List Token} (h : Matched args) (depth angles : Nat)
    (rest : List Token) :
    closesAlike depth angles (args ++ rest) = closesAlike depth angles rest := by
  induction h generalizing depth angles rest with
  | nil => rfl
  | plain ht _ ih => rw [List.cons_append, closesAlike_plain ht, ih]
  | group hpair _ _ ihinner ihts =>
      simp only [List.mem_cons, List.not_mem_nil, or_false, Prod.mk.injEq] at hpair
      rw [List.cons_append, List.append_assoc, List.cons_append]
      rcases hpair with ⟨rfl, rfl⟩ | ⟨rfl, rfl⟩ | ⟨rfl, rfl⟩
      · simp [closesAlike, depthBehind, anglesBehind, Token.text, Token.isPunct, ihinner, ihts]
      · simp [closesAlike, depthBehind, anglesBehind, Token.text, Token.isPunct, ihinner, ihts]
      · simp [closesAlike, depthBehind, anglesBehind, Token.text, Token.isPunct, ihinner, ihts]

/-- Reading goes over matching brackets as over any other tokens. -/
theorem Matched.behindArguments?_append {args : List Token} (h : Matched args) (depth : Nat)
    (rest : List Token) :
    behindArguments? depth (args ++ rest) = behindArguments? depth rest := by
  induction h generalizing depth rest with
  | nil => rfl
  | plain ht _ ih =>
      simp only [List.mem_cons, List.not_mem_nil, or_false, not_or] at ht
      simp [behindArguments?, depthBehind, ht, ih]
  | group hpair _ _ ihinner ihts =>
      simp only [List.mem_cons, List.not_mem_nil, or_false, Prod.mk.injEq] at hpair
      rw [List.cons_append, List.append_assoc, List.cons_append]
      rcases hpair with ⟨rfl, rfl⟩ | ⟨rfl, rfl⟩ | ⟨rfl, rfl⟩
      · simp [behindArguments?, depthBehind, Token.text, ihinner, ihts]
      · simp [behindArguments?, depthBehind, Token.text, ihinner, ihts]
      · simp [behindArguments?, depthBehind, Token.text, ihinner, ihts]

/-- A segment of a class name as it is written. -/
inductive ClassSegment where
  | word (w : String)
  | template (w : String) (args : List Token)

namespace ClassSegment

/-- The tokens of the segment. -/
def tokens : ClassSegment → List Token
  | word w => [.word w]
  | template w args => .word w :: .punct "<" :: (args ++ [.punct ">"])

/-- The brackets of the template arguments match. -/
def Matched : ClassSegment → Prop
  | word _ => True
  | template _ args => Spelling.Matched args

variable {s : ClassSegment}

theorem behindSegment?_tokens (h : s.Matched) (us : List Token) :
    behindSegment? (s.tokens ++ .punct "::" :: us) = some (.punct "::" :: us) := by
  cases s with
  | word w => rfl
  | template w args =>
      have hargs : Spelling.Matched args := h
      change behindArguments? 0 (args ++ [.punct ">"] ++ .punct "::" :: us) = _
      rw [List.append_assoc, hargs.behindArguments?_append]
      rfl

theorem argumentsAlike_tokens (h : s.Matched) (us : List Token) :
    argumentsAlike (s.tokens ++ .punct "::" :: us) = true := by
  cases s with
  | word w => rfl
  | template w args =>
      have hargs : Spelling.Matched args := h
      change closesAlike 0 0 (args ++ [.punct ">"] ++ .punct "::" :: us) = true
      rw [List.append_assoc, hargs.closesAlike_append]
      rfl

end ClassSegment

/-- The tokens of the class of a member pointer and the `:: *` behind it. -/
def classTokens : List ClassSegment → List Token
  | [] => [.punct "*"]
  | s :: segments => s.tokens ++ .punct "::" :: classTokens segments

theorem classTokens_cons_append (s : ClassSegment) (segments : List ClassSegment)
    (behind : List Token) : classTokens (s :: segments) ++ behind =
      s.tokens ++ .punct "::" :: (classTokens segments ++ behind) := by
  rw [classTokens, List.append_assoc, List.cons_append]

variable {segments : List ClassSegment}

/-- Segments whose brackets match have their arguments closed alike. -/
theorem alikeThroughout_classTokens (h : ∀ s ∈ segments, s.Matched) (behind : List Token) :
    AlikeThroughout (classTokens segments ++ behind) := by
  induction segments with
  | nil => exact alikeThroughout_of_end rfl rfl
  | cons s segments ih =>
      obtain ⟨hs, hrest⟩ := List.forall_mem_cons.mp h
      rw [classTokens_cons_append]
      exact alikeThroughout_of_next (s.argumentsAlike_tokens hs _) (s.behindSegment?_tokens hs _)
        (ih hrest)

/-! ## Looking ahead -/

theorem memberPointer?_eq (ts : List Token) :
    memberPointer? ts = behindStar? beyondSegment? (skipGlobal ts).2.length (skipGlobal ts).2 := by
  rw [memberPointer?, memberPointerSegments?_eq]
  exact beyondSegment?_advances.behindStar?_fuel (skipGlobal_suffix ts).length_le le_rfl

theorem memberPointerClass_rest (ts : List Token) :
    (memberPointerClass ts).toOption.map Prod.snd =
      behindStar? behindSegment? (skipGlobal ts).2.length (skipGlobal ts).2 := by
  rw [memberPointerClass_eq, toOption_bind, ← memberPointerClassFrom_rest]
  cases (memberPointerClassFrom (skipGlobal ts).2.length (skipGlobal ts).2).toOption <;> rfl

/-- Where the arguments of every segment that is read are closed alike, a member pointer is seen
ahead exactly if its class can be read, and reading stops behind the `*` that was seen. -/
theorem memberPointer?_agrees (h : AlikeThroughout (skipGlobal ts).2) :
    ((memberPointer? ts).isSome = true ↔ ∃ read, memberPointerClass ts = .ok read) ∧
    ∀ klass rest, memberPointerClass ts = .ok (klass, rest) →
      memberPointer? ts = some rest ∧
        ∃ front, ts = front ++ .punct "::" :: .punct "*" :: rest := by
  have hseen : memberPointer? ts = (memberPointerClass ts).toOption.map Prod.snd := by
    rw [memberPointer?_eq, behindStar?_of_alike h, memberPointerClass_rest]
  constructor
  · rw [hseen]
    cases memberPointerClass ts <;> simp [Except.toOption]
  · intro klass rest hread
    rw [hread] at hseen
    refine ⟨hseen, ?_⟩
    rw [memberPointer?_eq] at hseen
    obtain ⟨front, hfront⟩ := beyondSegment?_advances.eq_append_star hseen
    obtain ⟨global, hglobal⟩ := skipGlobal_suffix ts
    exact ⟨global ++ front, by rw [← hglobal, hfront, List.append_assoc]⟩

/-- Brackets of every kind in the arguments of the last segment. -/
theorem memberPointer?_agrees_nested :
    let args : List Token := [.punct "(", .word "B", .punct "<", .word "int", .punct ">",
      .punct ")", .punct ",", .word "f", .punct "[", .number "2", .punct "]"]
    let ts : List Token :=
      .punct "::" :: (classTokens [.word "N", .template "A" args] ++ [.word "const"])
    AlikeThroughout (skipGlobal ts).2 ∧
      memberPointerClass ts = .ok (⟨true, ["N", "A<(B<int>), f[2]>"]⟩, [.word "const"]) ∧
      memberPointer? ts = some [.word "const"] := by
  intro args ts
  have hangles : Matched [.word "B", .punct "<", .word "int", .punct ">"] :=
    .plain (by decide)
      (@Matched.group "<" ">" [.word "int"] [] (by decide) (.plain (by decide) .nil) .nil)
  have hindex : Matched [.punct ",", .word "f", .punct "[", .number "2", .punct "]"] :=
    .plain (by decide) (.plain (by decide)
      (@Matched.group "[" "]" [.number "2"] [] (by decide) (.plain (by decide) .nil) .nil))
  have hargs : Matched args := .group (by decide) hangles hindex
  have hsegments : ∀ s ∈ [.word "N", .template "A" args], ClassSegment.Matched s :=
    List.forall_mem_cons.mpr ⟨trivial, List.forall_mem_singleton.mpr hargs⟩
  have halike : AlikeThroughout (skipGlobal ts).2 :=
    alikeThroughout_classTokens hsegments [.word "const"]
  have hread : memberPointerClass ts =
      .ok (⟨true, ["N", "A<(B<int>), f[2]>"]⟩, [.word "const"]) := by
    decide
  exact ⟨halike, hread, ((memberPointer?_agrees halike).2 _ _ hread).1⟩

/-- A comparison in parentheses is read, and not seen ahead. -/
example :
    let ts : List Token := [.word "A", .punct "<", .punct "(", .number "1", .punct ">",
      .number "2", .punct ")", .punct ">", .punct "::", .punct "*"]
    memberPointer? ts = none ∧ memberPointerClass ts = .ok (⟨false, ["A<(1>2)>"]⟩, []) := by
  decide

/-- Behind a parenthesis that stays open a member pointer is seen, and cannot be read. -/
example :
    let ts : List Token := [.word "A", .punct "<", .punct "(", .punct ">", .punct "::", .punct "*"]
    memberPointer? ts = some [] ∧ memberPointerClass ts = .error .unexpectedEnd := by
  decide

end CppReflect.Spelling
