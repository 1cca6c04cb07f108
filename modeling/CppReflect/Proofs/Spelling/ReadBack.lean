import CppReflect.Proofs.Spelling.Names

/-!
# Reading printed types back

A printed type is read back token by token. At every place where the reader has a choice, what is
printed has to make it choose what was printed there: whether a word goes on with the base of the
type, whether a word begins a member pointer, whether a parenthesis opens a nested declarator or
parameters. A spelling is legible if all these choices come out right, and then it is what is read
from its own tokens.
-/

namespace CppReflect.Spelling

open Token (scan)

/-! ## Qualifiers -/

/-- The qualifier of a word, if it has one. -/
def wordQual (w : String) : Quals := (Quals.ofWord? w).getD .none

/-- Valid qualifiers are those of their words, joined from either side. -/
theorem Quals.of_words {q : Quals} (h : q.Valid) :
    (∀ w ∈ q.words, (Quals.ofWord? w).isSome = true) ∧
      q.words.foldr (fun w qs => wordQual w ∪ qs) .none = q ∧
      q.words.foldl (fun qs w => qs ∪ wordQual w) .none = q := by
  have hall : ∀ n < 8, (∀ w ∈ (⟨UInt8.ofNat n⟩ : Quals).words, (Quals.ofWord? w).isSome = true) ∧
      (⟨UInt8.ofNat n⟩ : Quals).words.foldr (fun w qs => wordQual w ∪ qs) .none =
        ⟨UInt8.ofNat n⟩ ∧
      (⟨UInt8.ofNat n⟩ : Quals).words.foldl (fun qs w => qs ∪ wordQual w) .none =
        ⟨UInt8.ofNat n⟩ := by
    decide +kernel
  have hq := hall q.bits.toNat (UInt8.lt_iff_toNat_lt.mp h)
  rwa [UInt8.ofNat_toNat] at hq

/-- No qualifier comes first. -/
def NoQual : List Token → Prop
  | .word w :: _ => Quals.ofWord? w = none
  | _ => True

theorem cv_of_noQual {ts : List Token} (h : NoQual ts) : cv ts = (.none, ts) := by
  fun_cases cv ts with
  | case1 w rest q hq => exact absurd (hq.symm.trans h) (by simp)
  | case2 => rfl
  | case3 => rfl

theorem cv_words {ws : List String} {behind : List Token}
    (hws : ∀ w ∈ ws, (Quals.ofWord? w).isSome = true) (h : NoQual behind) :
    cv (ws.map Token.word ++ behind) =
      (ws.foldr (fun w qs => wordQual w ∪ qs) .none, behind) := by
  induction ws with
  | nil => exact cv_of_noQual h
  | cons w ws ih =>
      obtain ⟨q, hq⟩ := Option.isSome_iff_exists.mp (hws w List.mem_cons_self)
      have hrest := ih fun v hv => hws v (List.mem_cons_of_mem _ hv)
      simp [cv, hq, hrest, wordQual]

/-- Printed qualifiers are read back. -/
theorem cv_qualTokens {q : Quals} {behind : List Token} (hq : q.Valid) (h : NoQual behind) :
    cv (qualTokens q ++ behind) = (q, behind) := by
  obtain ⟨hws, hfold, _⟩ := Quals.of_words hq
  rw [qualTokens, cv_words hws h, hfold]

/-! ## The base -/

/-- No qualifier and no elaborated keyword comes first. -/
def NoSpecifier : List Token → Prop
  | .word w :: _ => Quals.ofWord? w = none ∧ elaboratedWords.contains w = false
  | _ => True

/-- No builtin-type word comes first. -/
def NoBuiltin : List Token → Prop
  | .word w :: _ => builtinWords.contains w = false
  | _ => True

/-- The tokens begin with `::` or with a word that means nothing else. -/
def BeginsName : List Token → Prop
  | .word w :: _ => ¬Reserved w
  | t :: _ => t.isPunct "::" = true
  | [] => False

/-- The base ends where the tokens begin that follow it. -/
def LegibleBase : Base → List Token → Prop
  | .name n, behind =>
    qualifiedName (textTokens n.text) = .ok (n, []) ∧ BeginsName (textTokens n.text) ∧
      EndsName behind ∧ NoSpecifier behind
  | _, behind => NoSpecifier behind ∧ NoBuiltin behind

/-- The words of a base that is no name. -/
def Base.words (base : Base) : List String := (textTokens base.text).map Token.text

theorem specifiersFrom_quals {ws : List String} (hws : ∀ w ∈ ws, (Quals.ofWord? w).isSome = true)
    (fuel : Nat) (s : Specifiers) (ts : List Token) :
    specifiersFrom (ws.length + fuel) s (ws.map Token.word ++ ts) =
      specifiersFrom fuel { s with quals := ws.foldl (fun qs w => qs ∪ wordQual w) s.quals } ts := by
  induction ws generalizing s with
  | nil => simp
  | cons w ws ih =>
      obtain ⟨q, hq⟩ := Option.isSome_iff_exists.mp (hws w List.mem_cons_self)
      have hrest := ih (fun v hv => hws v (List.mem_cons_of_mem _ hv)) { s with quals := s.quals ∪ q }
      rw [List.length_cons, Nat.succ_add, List.map_cons, List.cons_append, specifiersFrom]
      simp only [hq, hrest, List.foldl_cons, wordQual, Option.getD_some]

theorem specifiersFrom_builtins {ws : List String}
    (hws : ∀ w ∈ ws, builtinWords.contains w = true ∧ Quals.ofWord? w = none ∧
      elaboratedWords.contains w = false) (fuel : Nat) (q : Quals) (front : List String)
    (ts : List Token) :
    specifiersFrom (ws.length + fuel) { quals := q, words := front } (ws.map Token.word ++ ts) =
      specifiersFrom fuel { quals := q, words := front ++ ws } ts := by
  induction ws generalizing front with
  | nil => simp
  | cons w ws ih =>
      obtain ⟨hbuiltin, hqual, helaborated⟩ := hws w List.mem_cons_self
      have hrest := ih (fun v hv => hws v (List.mem_cons_of_mem _ hv)) (front ++ [w])
      rw [List.append_assoc, List.singleton_append] at hrest
      rw [List.length_cons, Nat.succ_add, List.map_cons, List.cons_append, specifiersFrom]
      simp only [hqual, helaborated, hbuiltin, Bool.false_eq_true, if_false, if_true,
        Option.isSome_none, hrest]

/-- The specifiers end in front of what can be no more of them. -/
theorem specifiersFrom_stop {fuel : Nat} {s : Specifiers} {ts : List Token}
    (hs : s.name.isSome = true ∨ s.words ≠ [] ∧ NoBuiltin ts) (h : NoSpecifier ts) :
    specifiersFrom fuel s ts = .ok (s, ts) := by
  have hdone : (s.name.isNone && s.words.isEmpty) = false := by
    rcases hs with hs | ⟨hs, _⟩
    · simp [Option.isSome_iff_ne_none.mp hs]
    · simp [hs]
  cases fuel with
  | zero => rfl
  | succ fuel =>
      cases ts with
      | nil => rfl
      | cons t ts =>
          unfold specifiersFrom
          cases t with
          | word w =>
              obtain ⟨hqual, helaborated⟩ := h
              simp only [hqual, helaborated, hdone, Bool.false_eq_true, if_false]
              split
              next hbuiltin =>
                rcases hs with hs | ⟨_, hs⟩
                · rw [if_pos hs]
                · rw [show builtinWords.contains w = false from hs] at hbuiltin
                  exact absurd hbuiltin (by decide)
              next => rfl
          | number n => simp [Token.isPunct]
          | punct p => simp [Bool.and_assoc, hdone]

theorem specifiersFrom_name {n : QualifiedName} {fuel : Nat} {q : Quals} {ts behind : List Token}
    (hts : BeginsName ts) (h : qualifiedName ts = .ok (n, behind)) :
    specifiersFrom (fuel + 1) { quals := q } ts =
      specifiersFrom fuel { quals := q, name := some n } behind := by
  cases ts with
  | nil => exact absurd hts (by simp [BeginsName])
  | cons t ts =>
      conv => lhs; unfold specifiersFrom
      cases t with
      | word w =>
          have hw : ¬Reserved w := hts
          simp only [Reserved, not_or, Bool.not_eq_true, Option.isSome_eq_false_iff,
            Option.isNone_iff_eq_none] at hw
          obtain ⟨hqual, helaborated, hbuiltin⟩ := hw
          simp only [hqual, helaborated, hbuiltin, Bool.false_eq_true, if_false, h]
          exact if_pos rfl
      | number n => exact absurd hts (by simp [BeginsName, Token.isPunct])
      | punct p =>
          have hp : (Token.punct p).isPunct "::" = true := hts
          simp only [hp, h]
          exact if_pos rfl

/-- The words of a builtin base are those that are read as it. -/
theorem Base.of_words {base : Base} (hname : ∀ n, base ≠ .name n) (h : base.Sound fun _ => True) :
    textTokens base.text = base.words.map Token.word ∧ base.words ≠ [] ∧
      Base.ofWords? base.words = some base ∧
      ∀ w ∈ base.words, builtinWords.contains w = true ∧ Quals.ofWord? w = none ∧
        elaboratedWords.contains w = false := by
  cases base with
  | name n => exact absurd rfl (hname n)
  | void => decide +kernel
  | builtin b => cases b <;> first | exact absurd rfl h | decide +kernel
  | complex b => cases b <;> first | exact absurd rfl h | decide +kernel

/-- A legible base is read back with its qualifiers. -/
theorem declSpecifiers_tokens {base : Base} {q : Quals} {behind : List Token}
    (hbase : base.Sound fun _ => True) (hq : q.Valid) (h : LegibleBase base behind) :
    declSpecifiers (qualTokens q ++ textTokens base.text ++ behind) = .ok (base, q, behind) := by
  obtain ⟨hquals, _, hfold⟩ := Quals.of_words hq
  have hlength : (qualTokens q ++ textTokens base.text ++ behind).length =
      q.words.length + ((textTokens base.text).length + behind.length) := by
    simp [qualTokens]
  unfold declSpecifiers
  rw [hlength, List.append_assoc, qualTokens, specifiersFrom_quals hquals]
  cases base with
  | name n =>
      obtain ⟨hname, hbegins, hends, hspecifier⟩ := h
      have hread := qualifiedName_append hname (fun _ => hends.1) hends.2
      have hbegins' : BeginsName (textTokens n.text ++ behind) := by
        cases hts : textTokens n.text with
        | nil => rw [hts] at hbegins; exact hbegins.elim
        | cons t ts => rw [hts] at hbegins; cases t <;> exact hbegins
      obtain ⟨k, hk⟩ : ∃ k, (textTokens (Base.text (.name n))).length + behind.length = k + 1 := by
        refine ⟨(textTokens n.text).length + behind.length - 1, ?_⟩
        cases hts : textTokens n.text with
        | nil => rw [hts] at hbegins; exact hbegins.elim
        | cons t ts => simp only [Base.text, hts, List.length_cons]; omega
      rw [hk, Base.text, specifiersFrom_name hbegins' hread, List.nil_append,
        specifiersFrom_stop (Or.inl rfl) hspecifier]
      simp [hfold]
  | void | builtin | complex =>
      obtain ⟨hspecifier, hbuiltin⟩ := h
      obtain ⟨htokens, hne, hwords, hall⟩ := Base.of_words (by simp) hbase
      rw [htokens, List.length_map, specifiersFrom_builtins hall,
        specifiersFrom_stop (Or.inr ⟨by simpa using hne, hbuiltin⟩) hspecifier]
      simp [hfold, hwords]

/-! ## Operators in front of a declarator -/

/-- The operator ends where the tokens begin that follow it, and it is told from what else a word
can begin. -/
def LegiblePrefix : DeclaratorOp → List Token → Prop
  | .memberPointer klass q, behind =>
    memberPointerClass (textTokens (klass.text ++ "::*")) = .ok (klass, []) ∧
      (memberPointer? (textTokens (klass.text ++ "::*") ++ (qualTokens q ++ behind))).isSome = true ∧
      NoQual behind
  | _, behind => NoQual behind

/-- No operator in front of a declarator comes first. -/
def NoOperator : List Token → Prop
  | t :: rest =>
    (∀ p ∈ ["*", "^", "&", "&&"], t.isPunct p = false) ∧
      ((t.isPunct "::" || t.isWord) = true → memberPointer? (t :: rest) = none)
  | [] => True

theorem pointerOpsFrom_stop {fuel : Nat} {ts : List Token} (h : NoOperator ts) :
    pointerOpsFrom fuel ts = .ok ([], ts) := by
  cases fuel with
  | zero => rfl
  | succ fuel =>
      cases ts with
      | nil => rfl
      | cons t ts =>
          obtain ⟨hpunct, hmember⟩ := h
          simp only [List.mem_cons, List.not_mem_nil, or_false, forall_eq_or_imp, forall_eq] at hpunct
          obtain ⟨hstar, hcaret, hamp, hamps⟩ := hpunct
          unfold pointerOpsFrom
          simp only [hstar, hcaret, hamp, hamps, Bool.or_self, Bool.false_eq_true, if_false]
          split
          next hclass =>
            obtain ⟨hhead, hsome⟩ := Bool.and_eq_true_iff.mp hclass
            rw [hmember hhead] at hsome
            exact absurd hsome (by simp)
          next => rfl

theorem memberPointerClass_head {ts rest : List Token} {klass : QualifiedName}
    (h : memberPointerClass ts = .ok (klass, rest)) :
    ∃ t ts', ts = t :: ts' ∧ (t = .punct "::" ∨ t.isWord = true) := by
  rw [memberPointerClass_eq] at h
  obtain ⟨⟨segments, rest'⟩, hsegments, _⟩ := bind_eq_ok h
  cases ts with
  | nil => exact absurd hsegments (by simp [skipGlobal, memberPointerClassFrom])
  | cons t ts =>
      refine ⟨t, ts, rfl, ?_⟩
      cases t with
      | word w => exact Or.inr rfl
      | number n =>
          simp [skipGlobal, Token.isPunct, memberPointerClassFrom, nameSegment, bind,
            Except.bind] at hsegments
      | punct p =>
          by_cases hp : p = "::"
          · exact Or.inl (hp ▸ rfl)
          · simp [skipGlobal, Token.isPunct, hp, memberPointerClassFrom, nameSegment, bind,
              Except.bind] at hsegments

theorem prefixTokens_pointer (q : Quals) :
    prefixTokens (.pointer q) = .punct "*" :: qualTokens q :=
  congrArg (· ++ qualTokens q) (by decide +kernel : textTokens "*" = [.punct "*"])

theorem prefixTokens_lvalueReference : prefixTokens .lvalueReference = [.punct "&"] := by
  decide +kernel

theorem prefixTokens_rvalueReference : prefixTokens .rvalueReference = [.punct "&&"] := by
  decide +kernel

/-- A legible operator is read back, and then whatever follows it. -/
theorem pointerOpsFrom_prefixTokens {o : DeclaratorOp} {behind : List Token} {fuel : Nat}
    (hfront : o.isPrefix = true) (hsound : OpSound (fun _ => True) o)
    (h : LegiblePrefix o behind) :
    pointerOpsFrom (fuel + 1) (prefixTokens o ++ behind) =
      pointerOpsFrom fuel behind >>= fun r => .ok (o :: r.1, r.2) := by
  cases o with
  | array | function => exact absurd hfront (by simp [DeclaratorOp.isPrefix])
  | pointer q =>
      rw [prefixTokens_pointer, List.cons_append]
      conv => lhs; unfold pointerOpsFrom
      simp [Token.isPunct, cv_qualTokens hsound h]
  | lvalueReference =>
      rw [prefixTokens_lvalueReference, List.singleton_append]
      conv => lhs; unfold pointerOpsFrom
      simp [Token.isPunct, cv_of_noQual h]
  | rvalueReference =>
      rw [prefixTokens_rvalueReference, List.singleton_append]
      conv => lhs; unfold pointerOpsFrom
      simp [Token.isPunct, cv_of_noQual h]
  | memberPointer klass q =>
      obtain ⟨hclass, hsome, hqual⟩ := h
      have hread := memberPointerClass_append (qualTokens q ++ behind) hclass
      have hcv := cv_qualTokens hsound.2 hqual
      obtain ⟨t, ts, hts, ht⟩ := memberPointerClass_head hclass
      simp only [prefixTokens, sigil, opQuals]
      rw [hts] at hread hsome ⊢
      rw [List.append_assoc, List.cons_append]
      rw [List.cons_append] at hread hsome
      conv => lhs; unfold pointerOpsFrom
      rcases ht with rfl | ht
      · simp [Token.isPunct, hsome, hread, hcv]
      · cases t with
        | word w => simp [Token.isPunct, Token.isWord, hsome, hread, hcv]
        | number | punct => exact absurd ht (by simp [Token.isWord])

/-! ## Operators behind a declarator -/

/-- The tokens go on with another operator behind a declarator, or close what is around it. -/
def Closed : List Token → Prop
  | [] => True
  | t :: _ => t ∈ [.punct ")", .punct ",", .punct "(", .punct "["]

theorem Closed.noQual {ts : List Token} (h : Closed ts) : NoQual ts := by
  cases ts with
  | nil => trivial
  | cons t ts =>
      simp only [Closed, List.mem_cons, List.not_mem_nil, or_false] at h
      rcases h with rfl | rfl | rfl | rfl <;> trivial

theorem Closed.noOperator {ts : List Token} (h : Closed ts) : NoOperator ts := by
  cases ts with
  | nil => trivial
  | cons t ts =>
      simp only [Closed, List.mem_cons, List.not_mem_nil, or_false] at h
      rcases h with rfl | rfl | rfl | rfl <;> simp [NoOperator, Token.isPunct, Token.isWord]

/-- Decimal digits are read as the number that they denote. -/
theorem extentOf?_decimal {digits : List Char} (hne : digits ≠ [])
    (hdigits : ∀ c ∈ digits, c.isDigit = true) (hfits : Nat.ofDigitChars 10 digits 0 < UInt64.size) :
    extentOf? (String.ofList digits) = some (UInt64.ofNat (Nat.ofDigitChars 10 digits 0)) := by
  have hkept : digits.reverse.dropWhile Char.isAlpha = digits.reverse := by
    cases hrev : digits.reverse with
    | nil => rfl
    | cons c cs =>
        have hc := hdigits c (List.mem_reverse.mp (hrev ▸ List.mem_cons_self))
        have hhigh : c.toNat ≤ 57 := (Char.isDigit_iff_toNat.mp hc).2
        have hupper : c.isUpper = false := decide_eq_false fun h =>
          absurd (Nat.le_trans (UInt32.le_iff_toNat_le.mp h.1) hhigh) (by decide)
        have hlower : decide ('a'.val ≤ c.val) = false := decide_eq_false fun h =>
          absurd (Nat.le_trans (UInt32.le_iff_toNat_le.mp h) hhigh) (by decide)
        have halpha : c.isAlpha = false := by
          change (c.isUpper || decide ('a'.val ≤ c.val) && _) = false
          rw [hupper, hlower]
          rfl
        simp [halpha]
  have hany : digits.any (fun c => !c.isDigit) = false := by
    simpa [List.any_eq_false] using hdigits
  unfold extentOf? extentOfDigits?
  rw [String.toList_ofList, hkept, List.reverse_reverse, hany, Bool.or_false,
    if_neg (by simpa using hne)]
  exact if_pos hfits

/-- A printed extent is read back. -/
theorem extentOf?_toString (n : UInt64) : extentOf? (toString n.toNat) = some n := by
  have hvalue : Nat.ofDigitChars 10 (Nat.toDigits 10 n.toNat) 0 = n.toNat :=
    Nat.ofDigitChars_ten_toDigits
  rw [Nat.toString_eq_ofList_toDigits, extentOf?_decimal Nat.toDigits_ne_nil
    (fun c hc => Nat.isDigit_of_mem_toDigits (by decide) (by decide) hc)
    (by rw [hvalue]; exact n.toNat_lt_size), hvalue, UInt64.ofNat_toNat]

theorem functionTail_stop {fuel : Nat} {ref : RefQualifier} {ts : List Token} (h : Closed ts) :
    functionTail fuel ref ts = .ok (ref, ts) := by
  cases fuel with
  | zero => rfl
  | succ fuel =>
      cases ts with
      | nil => rfl
      | cons t ts =>
          simp only [Closed, List.mem_cons, List.not_mem_nil, or_false] at h
          rcases h with rfl | rfl | rfl | rfl <;> simp [functionTail, Token.isPunct]

/-- A printed reference qualifier is read back. -/
theorem functionTail_refTokens (ref : RefQualifier) {ts : List Token} (h : Closed ts) :
    functionTail (refTokens ref ++ ts).length .none (refTokens ref ++ ts) = .ok (ref, ts) := by
  cases ref with
  | none => exact functionTail_stop h
  | lvalue => simp [refTokens, functionTail, Token.isPunct, functionTail_stop h]
  | rvalue => simp [refTokens, functionTail, Token.isPunct, functionTail_stop h]

theorem closed_suffixTokens {o : DeclaratorOp} (h : o.isPrefix = false) (behind : List Token) :
    Closed (suffixTokens o ++ behind) := by
  cases o with
  | pointer | lvalueReference | rvalueReference | memberPointer =>
      exact absurd h (by simp [DeclaratorOp.isPrefix])
  | array extent => cases extent <;> simp [suffixTokens, Closed]
  | function => simp [suffixTokens, Closed]

/-- The suffixes at the front of the tokens are read as `ss`, with enough calls. -/
def ReadsSuffixes (ts : List Token) (ss : List DeclaratorOp) (rest : List Token) : Prop :=
  ∀ fuel, 6 * ts.length + 1 ≤ fuel → declaratorSuffixes fuel ts = .ok (ss, rest)

theorem readsSuffixes_array (extent : Option UInt64) {ts rest : List Token}
    {ss : List DeclaratorOp} (h : ReadsSuffixes ts ss rest) :
    ReadsSuffixes (suffixTokens (.array extent) ++ ts) (.array extent :: ss) rest := by
  intro fuel hfuel
  obtain ⟨fuel, rfl⟩ : ∃ n, fuel = n + 1 := ⟨fuel - 1, by omega⟩
  cases extent with
  | none =>
      have hrest := h fuel (by simp [suffixTokens] at hfuel; omega)
      simp [suffixTokens, declaratorSuffixes, arraySuffix, behindBracket, Token.isPunct, hrest]
  | some n =>
      have hrest := h fuel (by simp [suffixTokens] at hfuel; omega)
      have hextent := extentOf?_toString n
      simp only [suffixTokens, List.cons_append, declaratorSuffixes, arraySuffix, behindBracket,
        hextent]
      simp [Token.isPunct, hrest]

end CppReflect.Spelling
