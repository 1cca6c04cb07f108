import CppReflect.Proofs.Spelling.ReadBack

/-!
# Telling declarators apart by their tokens

What is printed for a type stands on both sides of its declarator. In front there are the words of
the base and the sigils with their qualifiers, and a parenthesis is opened only in front of a sigil.
Behind it parentheses are closed, and arrays and functions begin. So the place of the declarator can
be found even if nothing is written there, and from there the pieces on either side are taken one by
one: sigils from the right, suffixes from the left.
-/

namespace CppReflect.Spelling

open Token (scan)

/-! ## In front of a declarator -/

/-- The token is `*`, `&` or `&&`. -/
def isSigil : Token → Bool
  | .punct p => p == "*" || p == "&" || p == "&&"
  | _ => false

/-- The token is one that the words of a type and the sigils in front of a declarator are made of. -/
def isFrontToken (t : Token) : Bool := t.isWord || t.isPunct "::" || isSigil t

/-- What can stand in front of a declarator. -/
inductive Frontal : List Token → Prop
  | nil : Frontal []
  | cons {t : Token} {ts : List Token} (ht : isFrontToken t = true) (hts : Frontal ts) :
    Frontal (t :: ts)
  | opened {t : Token} {ts : List Token} (ht : isSigil t = true) (hts : Frontal ts) :
    Frontal (.punct "(" :: t :: ts)

/-- What can stand behind a declarator, and behind the whole type. -/
def Behind : List Token → Prop
  | [] => True
  | t :: rest => t = .punct ")" ∨ t = .punct "," ∨ t = .punct "[" ∨
      t = .punct "(" ∧ ∀ s ∈ rest.head?, isSigil s = false

/-- The type ends here: it is the last one, or a parameter. -/
def Stops : List Token → Prop
  | [] => True
  | t :: _ => t = .punct ")" ∨ t = .punct ","

theorem Stops.behind {ts : List Token} (h : Stops ts) : Behind ts := by
  cases ts with
  | nil => trivial
  | cons t ts => exact h.elim .inl fun h => .inr (.inl h)

theorem not_stops_cons {t : Token} (h : t = .punct "[" ∨ t = .punct "(") (ts : List Token) :
    ¬Stops (t :: ts) := by
  rintro (rfl | rfl) <;> rcases h with h | h <;> exact absurd h (by decide)

theorem isFrontToken_of_isSigil {t : Token} (h : isSigil t = true) : isFrontToken t = true := by
  rw [isFrontToken, h, Bool.or_true]

namespace Frontal

theorem of_all {ts : List Token} (h : ∀ t ∈ ts, isFrontToken t = true) : Frontal ts := by
  induction ts with
  | nil => exact .nil
  | cons t ts ih =>
      exact .cons (h t List.mem_cons_self) (ih fun s hs => h s (List.mem_cons_of_mem t hs))

theorem append {f g : List Token} (hf : Frontal f) (hg : Frontal g) : Frontal (f ++ g) := by
  induction hf with
  | nil => exact hg
  | cons ht _ ih => exact .cons ht ih
  | opened ht _ ih => exact .opened ht ih

end Frontal

/-- The tokens up to the declarator. -/
def takeFront : List Token → List Token
  | [] => []
  | [t] => if isFrontToken t then [t] else []
  | t :: s :: rest =>
    if t.isPunct "(" && isSigil s then t :: s :: takeFront rest
    else if isFrontToken t then t :: takeFront (s :: rest)
    else []

theorem takeFront_cons {t : Token} (h : isFrontToken t = true) (ts : List Token) :
    takeFront (t :: ts) = t :: takeFront ts := by
  have hopen : t.isPunct "(" = false := by
    cases t with
    | word | number => rfl
    | punct p =>
        by_contra hp
        rw [Bool.not_eq_false, Token.isPunct, beq_iff_eq] at hp
        subst hp
        exact absurd h (by decide)
  cases ts with
  | nil => simp [takeFront, h]
  | cons s rest => rw [takeFront, hopen, Bool.false_and, if_neg Bool.false_ne_true, if_pos h]

theorem takeFront_opened {s : Token} (h : isSigil s = true) (ts : List Token) :
    takeFront (.punct "(" :: s :: ts) = .punct "(" :: s :: takeFront ts := by
  rw [takeFront, h]
  rfl

theorem takeFront_behind {ts : List Token} (h : Behind ts) : takeFront ts = [] := by
  cases ts with
  | nil => rfl
  | cons t ts =>
      have hfront : isFrontToken t = false := by
        rcases h with rfl | rfl | rfl | ⟨rfl, _⟩ <;> decide
      cases ts with
      | nil => simp [takeFront, hfront]
      | cons s rest =>
          have hopened : (t.isPunct "(" && isSigil s) = false := by
            rcases h with rfl | rfl | rfl | ⟨rfl, hs⟩
            · rfl
            · rfl
            · rfl
            · rw [hs s rfl, Bool.and_false]
          rw [takeFront, hopened, hfront]
          rfl

theorem takeFront_append {f b : List Token} (hf : Frontal f) (hb : Behind b) :
    takeFront (f ++ b) = f := by
  induction hf with
  | nil => exact takeFront_behind hb
  | cons ht _ ih => rw [List.cons_append, takeFront_cons ht, ih]
  | opened ht _ ih => rw [List.cons_append, List.cons_append, takeFront_opened ht, ih]

/-- There is one place only where the declarator can stand. -/
theorem Frontal.eq_of_append {f f' b b' : List Token} (hf : Frontal f) (hf' : Frontal f')
    (hb : Behind b) (hb' : Behind b') (h : f ++ b = f' ++ b') : f = f' ∧ b = b' := by
  have hfront : f = f' := by rw [← takeFront_append hf hb, h, takeFront_append hf' hb']
  subst hfront
  exact ⟨rfl, List.append_cancel_left h⟩

/-! ## Sigils with their qualifiers -/

theorem isWord_of_mem_qualTokens {q : Quals} {t : Token} (h : t ∈ qualTokens q) :
    t.isWord = true := by
  obtain ⟨w, _, rfl⟩ := List.mem_map.mp h
  rfl

theorem frontal_qualTokens (q : Quals) : Frontal (qualTokens q) :=
  .of_all fun t ht => by rw [isFrontToken, isWord_of_mem_qualTokens ht]; rfl

theorem not_isWord_of_isSigil {t : Token} (h : isSigil t = true) : t.isWord = false := by
  cases t with
  | punct => rfl
  | word | number => exact absurd h Bool.false_ne_true

/-- Lists are the same if they are where each has its last element of one sort. -/
theorem eq_of_append_last {α : Type} {p : α → Bool} {a a' l l' : List α} {s s' : α}
    (hs : p s = false) (hs' : p s' = false) (hl : ∀ x ∈ l, p x = true) (hl' : ∀ x ∈ l', p x = true)
    (h : a ++ s :: l = a' ++ s' :: l') : a = a' ∧ s = s' ∧ l = l' := by
  -- where one front is longer than the other, its lone element stands among those of the other sort
  have hfront : ∀ {c : List α} {s s' : α} {l l' : List α}, p s' = false → (∀ x ∈ l, p x = true) →
      s :: l = c ++ s' :: l' → c = [] := by
    intro c s s' l l' hs' hl h
    cases c with
    | nil => rfl
    | cons x c =>
        rw [List.cons_append] at h
        have hmem : s' ∈ l := (List.cons.inj h).2 ▸ List.mem_append_right c List.mem_cons_self
        rw [hl s' hmem] at hs'
        exact absurd hs' (by decide)
  rcases List.append_eq_append_iff.mp h with ⟨c, rfl, hc⟩ | ⟨c, rfl, hc⟩
  · obtain rfl := hfront hs' hl hc
    exact ⟨(List.append_nil _).symm, List.cons.inj hc⟩
  · obtain rfl := hfront hs hl' hc
    obtain ⟨hss, hll⟩ := List.cons.inj hc
    exact ⟨List.append_nil _, hss.symm, hll.symm⟩

theorem qualTokens_inj {q q' : Quals} (hq : q.Valid) (hq' : q'.Valid)
    (h : qualTokens q = qualTokens q') : q = q' := by
  have hread : cv (qualTokens q ++ []) = (q, []) := cv_qualTokens hq trivial
  have hread' : cv (qualTokens q' ++ []) = (q', []) := cv_qualTokens hq' trivial
  rw [h, hread', Prod.mk.injEq] at hread
  exact hread.1.symm

/-! ## Bases without a name -/

/-- The base is `void`, a builtin type or a complex one. -/
def Base.Nameless (base : Base) : Prop := ∀ n, base ≠ .name n

/-- A word comes first, and it is no qualifier. -/
def BeginsBase : List Token → Prop
  | .word w :: _ => Quals.ofWord? w = none
  | _ => False

instance : (ts : List Token) → Decidable (BeginsBase ts)
  | .word w :: _ => inferInstanceAs (Decidable (Quals.ofWord? w = none))
  | .number _ :: _ | .punct _ :: _ | [] => inferInstanceAs (Decidable False)

namespace Base.Nameless

variable {base : Base}

/-- The base is read as what it is, or is the one builtin type that is printed as a name. -/
theorem sound_or (h : base.Nameless) :
    (base.Sound fun _ => True) ∨ base = .builtin .nullPtr ∨ base = .complex .nullPtr := by
  cases base with
  | void => exact .inl trivial
  | name n => exact absurd rfl (h n)
  | builtin b =>
      by_cases hb : b = .nullPtr
      · exact .inr (.inl (hb ▸ rfl))
      · exact .inl hb
  | complex b =>
      by_cases hb : b = .nullPtr
      · exact .inr (.inr (hb ▸ rfl))
      · exact .inl hb

theorem tokens (h : base.Nameless) :
    BeginsBase (textTokens base.text) ∧
      ∀ t ∈ textTokens base.text, isFrontToken t = true ∧ isSigil t = false := by
  rcases h.sound_or with hs | rfl | rfl
  · obtain ⟨htokens, hne, -, hall⟩ := Base.of_words h hs
    rw [htokens]
    refine ⟨?_, fun t ht => ?_⟩
    · cases hwords : base.words with
      | nil => exact absurd hwords hne
      | cons w ws =>
          rw [hwords] at hall
          exact (hall w List.mem_cons_self).2.1
    · obtain ⟨w, _, rfl⟩ := List.mem_map.mp ht
      exact ⟨rfl, rfl⟩
  · exact ⟨by decide +kernel, by decide +kernel⟩
  · exact ⟨by decide +kernel, by decide +kernel⟩

theorem frontal (h : base.Nameless) : Frontal (textTokens base.text) :=
  .of_all fun t ht => (h.tokens.2 t ht).1

theorem noQual (h : base.Nameless) : NoQual (textTokens base.text) := by
  have hbegins := h.tokens.1
  cases hts : textTokens base.text with
  | nil => trivial
  | cons t ts =>
      rw [hts] at hbegins
      cases t with
      | word w => exact hbegins
      | number | punct => trivial

/-- A base that is read as what it is is made of words only. -/
theorem colons_not_mem (h : base.Nameless) (hs : base.Sound fun _ => True) :
    Token.punct "::" ∉ textTokens base.text := by
  rw [(Base.of_words h hs).1]
  intro hmem
  obtain ⟨w, _, hw⟩ := List.mem_map.mp hmem
  cases hw

theorem eq_of_tokens {base' : Base} (h : base.Nameless) (h' : base'.Nameless)
    (heq : textTokens base.text = textTokens base'.text) : base = base' := by
  have hmem : ∀ {b : Base}, (b = .builtin .nullPtr ∨ b = .complex .nullPtr) →
      Token.punct "::" ∈ textTokens b.text := by
    rintro _ (rfl | rfl) <;> decide +kernel
  rcases h.sound_or with hs | hb <;> rcases h'.sound_or with hs' | hb'
  · have hread := (Base.of_words h hs).2.2.1
    rw [Base.words, heq] at hread
    exact Option.some.inj (hread.symm.trans (Base.of_words h' hs').2.2.1)
  · exact absurd (heq ▸ hmem hb') (h.colons_not_mem hs)
  · exact absurd (heq ▸ hmem hb) (h'.colons_not_mem hs')
  -- the null pointer type is told from its complex type
  · rcases hb with rfl | rfl <;> rcases hb' with rfl | rfl
    · rfl
    · exact absurd heq (by decide +kernel)
    · exact absurd heq (by decide +kernel)
    · rfl

end Base.Nameless

/-- A base with its qualifiers is told by the tokens. -/
theorem base_inj {b b' : Base} {q q' : Quals} (hb : b.Nameless) (hb' : b'.Nameless) (hq : q.Valid)
    (hq' : q'.Valid)
    (h : qualTokens q ++ textTokens b.text = qualTokens q' ++ textTokens b'.text) :
    b = b' ∧ q = q' := by
  have hread := cv_qualTokens hq hb.noQual
  rw [h, cv_qualTokens hq' hb'.noQual, Prod.mk.injEq] at hread
  exact ⟨hb.eq_of_tokens hb' hread.2.symm, hread.1.symm⟩

/-! ## Suffixes -/

theorem toString_inj {n n' : UInt64} (h : toString n.toNat = toString n'.toNat) : n = n' := by
  have hread := extentOf?_toString n
  rw [h, extentOf?_toString n'] at hread
  exact (Option.some.inj hread).symm

theorem Behind.noQual {ts : List Token} (h : Behind ts) : NoQual ts := by
  cases ts with
  | nil => trivial
  | cons t ts => rcases h with rfl | rfl | rfl | ⟨rfl, _⟩ <;> trivial

theorem refTokens_noQual (ref : RefQualifier) {ts : List Token} (h : NoQual ts) :
    NoQual (refTokens ref ++ ts) := by
  cases ref with
  | none => exact h
  | lvalue | rvalue => trivial

/-- A reference qualifier is told from what follows it. -/
theorem refTokens_inj {ref ref' : RefQualifier} {b b' : List Token} (hb : Behind b)
    (hb' : Behind b') (h : refTokens ref ++ b = refTokens ref' ++ b') : ref = ref' ∧ b = b' := by
  have hnone : ∀ {b b' : List Token} {p : String}, Behind b → (p = "&" ∨ p = "&&") →
      b = .punct p :: b' → False := by
    rintro b b' p hb hp rfl
    rcases hp with rfl | rfl <;> rcases hb with hb | hb | hb | ⟨hb, -⟩ <;>
      exact absurd hb (by decide)
  cases ref <;> cases ref' <;> simp only [refTokens, List.nil_append, List.cons_append] at h
  · exact ⟨rfl, h⟩
  · exact (hnone hb (.inl rfl) h).elim
  · exact (hnone hb (.inr rfl) h).elim
  · exact (hnone hb' (.inl rfl) h.symm).elim
  · exact ⟨rfl, (List.cons.inj h).2⟩
  · exact absurd (List.cons.inj h).1 (by decide)
  · exact (hnone hb' (.inr rfl) h.symm).elim
  · exact absurd (List.cons.inj h).1 (by decide)
  · exact ⟨rfl, (List.cons.inj h).2⟩

/-- What follows the parameters of a function is told from what follows the function. -/
theorem functionTail_inj {q q' : Quals} {ref ref' : RefQualifier} {b b' : List Token}
    (hq : q.Valid) (hq' : q'.Valid) (hb : Behind b) (hb' : Behind b')
    (h : qualTokens q ++ (refTokens ref ++ b) = qualTokens q' ++ (refTokens ref' ++ b')) :
    q = q' ∧ ref = ref' ∧ b = b' := by
  have hread := cv_qualTokens hq (refTokens_noQual ref hb.noQual)
  rw [h, cv_qualTokens hq' (refTokens_noQual ref' hb'.noQual), Prod.mk.injEq] at hread
  exact ⟨hread.1.symm, refTokens_inj hb hb' hread.2.symm⟩

/-! ## Parameters -/

/-- The tokens of parameters with a comma between two, and `...` behind them for a variadic
function. -/
def joinTokens : List (List Token) → Bool → List Token
  | [], false => []
  | [], true => [.punct "..."]
  | a :: rest, variadic =>
    a ++ if rest.isEmpty && !variadic then [] else .punct "," :: joinTokens rest variadic

theorem scan_joined (texts : List String) (variadic : Bool) :
    scan (Model.paramsText texts variadic).toList = joinTokens (texts.map textTokens) variadic := by
  induction texts with
  | nil => cases variadic <;> decide
  | cons s rest ih =>
      unfold Model.paramsText at ih ⊢
      rw [List.map_cons, joinTokens, List.isEmpty_map]
      by_cases hlast : rest.isEmpty && !variadic
      · simp only [Bool.and_eq_true, List.isEmpty_iff, Bool.not_eq_true'] at hlast
        obtain ⟨rfl, rfl⟩ := hlast
        simp [Text.joined, textTokens]
      · have hne : rest ++ (if variadic = true then ["..."] else []) ≠ [] := by
          intro hnil
          obtain ⟨rfl, hdots⟩ := List.append_eq_nil_iff.mp hnil
          cases variadic with
          | false => exact hlast rfl
          | true => cases hdots
        rw [if_neg hlast, List.cons_append, Text.joined_cons hne, scan_comma, ih]
        rfl

/-- What follows a parameter up to the end of the parameters. -/
theorem stops_joinTokens (rest : List (List Token)) (variadic : Bool) (behind : List Token) :
    Stops ((if rest.isEmpty && !variadic then [] else .punct "," :: joinTokens rest variadic) ++
      .punct ")" :: behind) := by
  split
  · exact .inl rfl
  · exact .inr rfl

/-- A word comes first. -/
def BeginsWord : List Token → Prop
  | t :: _ => t.isWord = true
  | [] => False

theorem BeginsWord.head? {ts : List Token} (h : BeginsWord ts) :
    ∀ t ∈ ts.head?, isSigil t = false := by
  cases ts with
  | nil => exact h.elim
  | cons t ts =>
      rintro _ ⟨rfl⟩
      cases t with
      | word => rfl
      | number | punct => cases h

/-- The end of the parameters is told from a parameter, which begins with a word. -/
theorem joinTokens_nil_ne {ts : List Token} {rest : List (List Token)} {v v' : Bool}
    {b b' : List Token} (hts : BeginsWord ts) :
    joinTokens [] v ++ .punct ")" :: b ≠ joinTokens (ts :: rest) v' ++ .punct ")" :: b' := by
  intro h
  cases ts with
  | nil => exact hts
  | cons t ts =>
      have hhead : ¬t.isWord = true := by
        cases v with
        | false | true => rw [← (List.cons.inj h).1]; exact Bool.false_ne_true
      exact hhead hts

theorem joinTokens_nil_inj {v v' : Bool} {b b' : List Token}
    (h : joinTokens [] v ++ .punct ")" :: b = joinTokens [] v' ++ .punct ")" :: b') :
    v = v' ∧ b = b' := by
  cases v <;> cases v'
  · exact ⟨rfl, (List.cons.inj h).2⟩
  · exact absurd (List.cons.inj h).1 (by decide)
  · exact absurd (List.cons.inj h).1 (by decide)
  · exact ⟨rfl, (List.cons.inj (List.cons.inj h).2).2⟩

/-- Parameters are told by their tokens if each one is told from what follows it. -/
theorem joinTokens_inj {α : Type} (tokens : α → List Token) {l l' : List α}
    {variadic variadic' : Bool} {b b' : List Token}
    (hword : ∀ a ∈ l, BeginsWord (tokens a)) (hword' : ∀ a ∈ l', BeginsWord (tokens a))
    (htokens : ∀ a ∈ l, ∀ a' ∈ l', ∀ r r', Stops r → Stops r' → tokens a ++ r = tokens a' ++ r' →
      a = a' ∧ r = r')
    (h : joinTokens (l.map tokens) variadic ++ .punct ")" :: b =
      joinTokens (l'.map tokens) variadic' ++ .punct ")" :: b') :
    l = l' ∧ variadic = variadic' ∧ b = b' := by
  induction l generalizing l' with
  | nil =>
      cases l' with
      | nil => exact ⟨rfl, joinTokens_nil_inj h⟩
      | cons a' l' => exact absurd h (joinTokens_nil_ne (hword' a' List.mem_cons_self))
  | cons a l ih =>
      cases l' with
      | nil => exact absurd h.symm (joinTokens_nil_ne (hword a List.mem_cons_self))
      | cons a' l' =>
          simp only [List.map_cons, joinTokens, List.append_assoc] at h
          obtain ⟨rfl, hrest⟩ := htokens a List.mem_cons_self a' List.mem_cons_self _ _
            (stops_joinTokens _ _ _) (stops_joinTokens _ _ _) h
          simp only [List.isEmpty_map] at hrest
          -- the parameter is the last one on both sides, or there is a comma on both
          by_cases hlast : (l.isEmpty && !variadic) = true <;>
            by_cases hlast' : (l'.isEmpty && !variadic') = true
          · rw [if_pos hlast, if_pos hlast'] at hrest
            simp only [Bool.and_eq_true, List.isEmpty_iff, Bool.not_eq_true'] at hlast hlast'
            obtain ⟨rfl, rfl⟩ := hlast
            obtain ⟨rfl, rfl⟩ := hlast'
            exact ⟨rfl, rfl, (List.cons.inj hrest).2⟩
          · rw [if_pos hlast, if_neg hlast'] at hrest
            exact absurd (List.cons.inj hrest).1 (by decide)
          · rw [if_neg hlast, if_pos hlast'] at hrest
            exact absurd (List.cons.inj hrest).1 (by decide)
          · rw [if_neg hlast, if_neg hlast'] at hrest
            obtain ⟨rfl, hvariadic, hb⟩ := ih
              (fun c hc => hword c (List.mem_cons_of_mem a hc))
              (fun c hc => hword' c (List.mem_cons_of_mem a hc))
              (fun c hc c' hc' => htokens c (List.mem_cons_of_mem a hc) c'
                (List.mem_cons_of_mem a hc'))
              (List.cons.inj hrest).2
            exact ⟨rfl, hvariadic, hb⟩

end CppReflect.Spelling
