import CppReflect.Proofs.Spelling.ReadBack

/-!
# Legible spellings

What makes a printed type readable, operator by operator and from the outside in: every operator is
told from what follows it. A legible spelling is what is read from its tokens, whatever closes it.
-/

namespace CppReflect.Spelling

/-- What stands in the place of a declarator: nothing or an identifier that is no qualifier. Where
nothing stands, a parenthesis that follows has to open parameters. -/
def LegibleId : List Token → List Token → Prop
  | [], .punct "(" :: behind => beginsDeclarator behind = false
  | [], _ => True
  | [.word w], _ => Quals.ofWord? w = none
  | _, _ => False

mutual

/-- Whatever is printed for the spelling around `x` and in front of `behind` is read as that. -/
def Legible : Spelling → List Token → List Token → Prop
  | .mk base _ ops, x, behind => LegibleBase base (opTokens ops x ++ behind) ∧ LegibleOps ops x behind

/-- The operators are told from what follows them. -/
def LegibleOps : List DeclaratorOp → List Token → List Token → Prop
  | [], x, behind => LegibleId x behind
  | o :: ops, x, behind =>
    if o.isPrefix then LegiblePrefix o (opTokens ops x ++ behind) ∧ LegibleOps ops x behind
    else
      LegibleSuffix o behind ∧
        LegibleOps ops x
          ((if opensWithPrefix ops then [.punct ")"] else []) ++ (suffixTokens o ++ behind))

/-- The parameters of a function are told from what follows them. -/
def LegibleSuffix : DeclaratorOp → List Token → Prop
  | .function params variadic quals ref, behind =>
    LegibleAll params variadic (.punct ")" :: (qualTokens quals ++ (refTokens ref ++ behind)))
  | _, _ => True

/-- Each parameter is told from what follows it. -/
def LegibleAll : List Spelling → Bool → List Token → Prop
  | [], _, _ => True
  | s :: rest, variadic, behind =>
    Legible s []
        ((if rest.isEmpty && !variadic then [] else .punct "," :: paramTokens rest variadic) ++
          behind) ∧
      LegibleAll rest variadic behind

end

/-! ## The operators in front -/

/-- The operators in front are told from what follows them, whatever the parameters behind are. -/
def LegibleFront : List DeclaratorOp → List Token → List Token → Prop
  | [], x, _ => x = [] ∨ ∃ w, x = [.word w] ∧ Quals.ofWord? w = none
  | o :: ops, x, behind =>
    if o.isPrefix then LegiblePrefix o (opTokens ops x ++ behind) ∧ LegibleFront ops x behind
    else
      LegibleFront ops x
        ((if opensWithPrefix ops then [.punct ")"] else []) ++ (suffixTokens o ++ behind))

theorem legibleFront_of_legibleOps {ops : List DeclaratorOp} {x behind : List Token}
    (h : LegibleOps ops x behind) : LegibleFront ops x behind := by
  induction ops generalizing behind with
  | nil =>
      unfold LegibleOps at h
      match x, h with
      | [], _ => exact Or.inl rfl
      | [.word w], hw => exact Or.inr ⟨w, rfl, hw⟩
  | cons o ops ih =>
      unfold LegibleOps at h
      unfold LegibleFront
      split at h
      next ho =>
        rw [if_pos ho]
        exact ⟨h.1, ih h.2⟩
      next ho =>
        rw [if_neg ho]
        exact ih h.2

/-- An identifier that closes is no class. -/
theorem memberPointer?_word {w : String} {behind : List Token} (h : Closed behind) :
    memberPointer? (.word w :: behind) = none := by
  cases behind with
  | nil => rfl
  | cons t behind =>
      simp only [Closed, List.mem_cons, List.not_mem_nil, or_false] at h
      cases behind with
      | nil => rcases h with rfl | rfl | rfl | rfl <;> rfl
      | cons u behind => rcases h with rfl | rfl | rfl | rfl <;> rfl

/-- No operator stands in front where none is printed. -/
theorem noOperator_opTokens {ops : List DeclaratorOp} {x behind : List Token}
    (h : LegibleFront ops x behind) (hops : opensWithPrefix ops = false) (hbehind : Closed behind) :
    NoOperator (opTokens ops x ++ behind) := by
  induction ops generalizing behind with
  | nil =>
      unfold opTokens
      rcases h with rfl | ⟨w, rfl, _⟩
      · exact hbehind.noOperator
      · exact ⟨by simp [Token.isPunct], fun _ => memberPointer?_word hbehind⟩
  | cons o ops ih =>
      have ho : o.isPrefix = false := hops
      unfold LegibleFront at h
      rw [if_neg (by simp [ho])] at h
      unfold opTokens
      rw [if_neg (by simp [ho])]
      cases hinner : opensWithPrefix ops with
      | true => simp [NoOperator, Token.isPunct, Token.isWord]
      | false =>
          rw [hinner] at h
          rw [if_neg (by simp), List.append_assoc]
          exact ih h hinner (closed_suffixTokens ho behind)

/-- The operators in front of a declarator are read back up to the innermost one behind it. -/
theorem pointerOpsFrom_opTokens (fuel : Nat) {ops : List DeclaratorOp} {x behind : List Token}
    (hsound : OpsSound (fun _ => True) ops) (h : LegibleFront ops x behind) (hbehind : Closed behind)
    (hfuel : (ops.takeWhile DeclaratorOp.isPrefix).length ≤ fuel) :
    pointerOpsFrom fuel (opTokens ops x ++ behind) =
      .ok (ops.takeWhile DeclaratorOp.isPrefix,
        opTokens (ops.dropWhile DeclaratorOp.isPrefix) x ++ behind) := by
  induction ops generalizing fuel with
  | nil => exact pointerOpsFrom_stop (noOperator_opTokens h rfl hbehind)
  | cons o ops ih =>
      cases ho : o.isPrefix with
      | false =>
          rw [List.takeWhile_cons_of_neg (by simp [ho]), List.dropWhile_cons_of_neg (by simp [ho])]
          exact pointerOpsFrom_stop (noOperator_opTokens h ho hbehind)
      | true =>
          unfold LegibleFront at h
          rw [if_pos ho] at h
          rw [List.takeWhile_cons_of_pos ho] at hfuel ⊢
          rw [List.dropWhile_cons_of_pos ho]
          obtain ⟨fuel, rfl⟩ : ∃ n, fuel = n + 1 := ⟨fuel - 1, by simp at hfuel; omega⟩
          have hrest := ih fuel hsound.2 h.2 (by simpa using hfuel)
          conv => lhs; unfold opTokens
          rw [if_pos ho, List.append_assoc, pointerOpsFrom_prefixTokens ho hsound.1 h.1, hrest]
          rfl

/-! ## The operators behind -/

/-- What is read behind the operators in front of a declarator. -/
def readBehind (fuel : Nat) (ts : List Token) :
    Except SpellingError (List DeclaratorOp × List Token) :=
  nestedDeclarator fuel ts >>= fun nested =>
    declaratorSuffixes fuel nested.2 >>= fun suffixes =>
      .ok (suffixes.1.reverse ++ nested.1, suffixes.2)

theorem declarator_succ (fuel : Nat) (ts : List Token) :
    declarator (fuel + 1) ts = pointerOps ts >>= fun front =>
      readBehind fuel front.2 >>= fun r => .ok (front.1 ++ r.1, r.2) := by
  conv => lhs; unfold declarator
  cases pointerOps ts with
  | error => rfl
  | ok front =>
      simp only [ok_bind, readBehind]
      cases nestedDeclarator fuel front.2 with
      | error => rfl
      | ok nested =>
          simp only [ok_bind]
          cases declaratorSuffixes fuel nested.2 with
          | error => rfl
          | ok suffixes => simp

/-- The tokens of a prefix-led declarator tell that it is no list of parameters. -/
theorem beginsDeclarator_opTokens {ops : List DeclaratorOp} {x behind : List Token}
    (h : LegibleFront ops x behind) (hops : opensWithPrefix ops = true) :
    beginsDeclarator (opTokens ops x ++ behind) = true := by
  cases ops with
  | nil => exact absurd hops (by simp [opensWithPrefix])
  | cons o ops =>
      have ho : o.isPrefix = true := hops
      unfold LegibleFront at h
      rw [if_pos ho] at h
      unfold opTokens
      rw [if_pos ho, List.append_assoc]
      cases o with
      | array | function => exact absurd ho (by simp [DeclaratorOp.isPrefix])
      | pointer q => simp [prefixTokens_pointer, beginsDeclarator, Token.isPunct]
      | lvalueReference => simp [prefixTokens_lvalueReference, beginsDeclarator, Token.isPunct]
      | rvalueReference => simp [prefixTokens_rvalueReference, beginsDeclarator, Token.isPunct]
      | memberPointer klass q =>
          obtain ⟨hclass, hsome, _⟩ := h.1
          obtain ⟨t, ts, hts, ht⟩ := memberPointerClass_head hclass
          simp only [prefixTokens, sigil, opQuals, List.append_assoc]
          rw [hts, List.cons_append] at hsome ⊢
          rcases ht with rfl | ht
          · simpa [beginsDeclarator, Token.isPunct] using hsome
          · cases t with
            | word w => simpa [beginsDeclarator, Token.isPunct] using hsome
            | number | punct => exact absurd ht (by simp [Token.isWord])

/-- Nothing or an identifier in the place of a declarator, and then suffixes. -/
theorem readBehind_id {x ts rest : List Token} {ss : List DeclaratorOp} {fuel : Nat}
    (h : LegibleId x ts) (hts : Closed ts) (hread : ReadsSuffixes ts ss rest)
    (hfuel : 6 * (x ++ ts).length + 1 ≤ fuel) :
    readBehind fuel (x ++ ts) = .ok (ss.reverse, rest) := by
  obtain ⟨fuel, rfl⟩ : ∃ n, fuel = n + 1 := ⟨fuel - 1, by omega⟩
  have hsuffixes := hread (fuel + 1) (by simp at hfuel; omega)
  have hnested : nestedDeclarator (fuel + 1) (x ++ ts) = .ok ([], ts) := by
    match x, h with
    | [], h =>
        cases ts with
        | nil => rfl
        | cons t ts =>
            simp only [Closed, List.mem_cons, List.not_mem_nil, or_false] at hts
            rcases hts with rfl | rfl | rfl | rfl
            · simp [nestedDeclarator, Token.isPunct]
            · simp [nestedDeclarator, Token.isPunct]
            · have hparams : beginsDeclarator ts = false := h
              simp [nestedDeclarator, Token.isPunct, hparams]
            · simp [nestedDeclarator, Token.isPunct]
    | [.word w], h =>
        have hw : Quals.ofWord? w = none := h
        simp [nestedDeclarator, Token.isPunct, hw]
  simp [readBehind, hnested, hsuffixes]

/-- A word or `::`, as a type begins with. -/
def BeginsType : Token → Prop
  | .word _ => True
  | t => t = .punct "::"

theorem BeginsType.not_isPunct {t : Token} (h : BeginsType t) {p : String} (hp : p ≠ "::") :
    t.isPunct p = false := by
  cases t with
  | word | number => rfl
  | punct p' =>
      obtain rfl : p' = "::" := by simpa [BeginsType] using h
      simpa [Token.isPunct] using fun heq => hp heq.symm

theorem BeginsName.cons {ts : List Token} (h : BeginsName ts) :
    ∃ t ts', ts = t :: ts' ∧ BeginsType t := by
  cases ts with
  | nil => exact h.elim
  | cons t ts =>
      refine ⟨t, ts, rfl, ?_⟩
      cases t with
      | word w => trivial
      | number n => exact absurd h (by simp [BeginsName, Token.isPunct])
      | punct p => simpa [BeginsName, Token.isPunct, BeginsType] using h

theorem beginsType_textTokens {base : Base} {behind : List Token}
    (hsound : base.Sound fun _ => True) (h : LegibleBase base behind) :
    ∃ t ts, textTokens base.text = t :: ts ∧ BeginsType t := by
  cases base with
  | name n => exact h.2.1.cons
  | void | builtin | complex =>
      obtain ⟨htokens, hne, _⟩ := Base.of_words (by simp) hsound
      rw [htokens]
      obtain ⟨w, ws, hws⟩ := List.exists_cons_of_ne_nil hne
      exact ⟨.word w, ws.map Token.word, by rw [hws, List.map_cons], trivial⟩

/-- A printed type begins with a word or `::`. -/
theorem beginsType_tokens {s : Spelling} {x behind : List Token} (hsound : Sound (fun _ => True) s)
    (h : Legible s x behind) : ∃ t ts, tokens s x = t :: ts ∧ BeginsType t := by
  match s, hsound, h with
  | .mk base quals ops, hsound, h =>
      unfold Sound at hsound
      unfold Legible at h
      unfold tokens qualTokens
      obtain ⟨t, ts, hts, ht⟩ := beginsType_textTokens hsound.1 h.1
      cases quals.words with
      | nil => exact ⟨t, ts ++ opTokens ops x, by simp [hts], ht⟩
      | cons w ws => exact ⟨.word w, _, by simp only [List.map_cons, List.cons_append]; rfl, trivial⟩

theorem paramTokens_head {params : List Spelling} {variadic : Bool} {behind : List Token}
    (hsound : AllSound (fun _ => True) params) (h : LegibleAll params variadic behind)
    (hne : (params.isEmpty && !variadic) = false) :
    ∃ t ts, paramTokens params variadic = t :: ts ∧ t.isPunct ")" = false := by
  match params, variadic, hsound, h, hne with
  | [], true, _, _, _ => exact ⟨.punct "...", [], rfl, rfl⟩
  | s :: rest, variadic, hsound, h, _ =>
      unfold AllSound at hsound
      unfold LegibleAll at h
      obtain ⟨t, ts, hts, ht⟩ := beginsType_tokens hsound.1 h.1
      unfold paramTokens
      exact ⟨t, _, by rw [hts, List.cons_append], ht.not_isPunct (by decide)⟩

/-! ## Everything is read back -/

theorem closed_paren (ts : List Token) : Closed (.punct ")" :: ts) := by simp [Closed]

/-- The tokens end, or they close a type inside others. -/
def EndsType : List Token → Prop
  | [] => True
  | t :: _ => t ∈ [.punct ")", .punct ","]

theorem EndsType.closed {ts : List Token} (h : EndsType ts) : Closed ts := by
  cases ts with
  | nil => trivial
  | cons t ts =>
      simp only [EndsType, List.mem_cons, List.not_mem_nil, or_false] at h
      rcases h with rfl | rfl <;> simp [Closed]

theorem readsSuffixes_stop {ts : List Token} (h : EndsType ts) : ReadsSuffixes ts [] ts := by
  intro fuel hfuel
  obtain ⟨fuel, rfl⟩ : ∃ n, fuel = n + 1 := ⟨fuel - 1, by omega⟩
  cases ts with
  | nil => rfl
  | cons t ts =>
      simp only [EndsType, List.mem_cons, List.not_mem_nil, or_false] at h
      rcases h with rfl | rfl <;> simp [declaratorSuffixes, Token.isPunct]

theorem prefixTokens_ne_nil {o : DeclaratorOp} (h : o.isPrefix = true) : prefixTokens o ≠ [] := by
  cases href : o.isReference with
  | true =>
      rcases isReference_cases href with rfl | rfl
      · rw [prefixTokens_lvalueReference]; simp
      · rw [prefixTokens_rvalueReference]; simp
  | false =>
      obtain ⟨front, hfront⟩ := sigil_endsWith_star href
      have hstar : Token.scan ['*'] = [.punct "*"] := by decide
      unfold prefixTokens textTokens
      rw [hfront, scan_append_lone (by decide), hstar]
      simp

/-- Every operator in front of a declarator takes a token. -/
theorem length_opTokens (ops : List DeclaratorOp) (x : List Token) :
    (ops.takeWhile DeclaratorOp.isPrefix).length +
      (opTokens (ops.dropWhile DeclaratorOp.isPrefix) x).length ≤ (opTokens ops x).length := by
  induction ops with
  | nil => simp
  | cons o ops ih =>
      cases ho : o.isPrefix with
      | false =>
          rw [List.takeWhile_cons_of_neg (by simp [ho]), List.dropWhile_cons_of_neg (by simp [ho])]
          simp
      | true =>
          have hpos := List.length_pos_iff.mpr (prefixTokens_ne_nil ho)
          rw [List.takeWhile_cons_of_pos ho, List.dropWhile_cons_of_pos ho]
          conv => rhs; unfold opTokens
          rw [if_pos ho]
          simp only [List.length_cons, List.length_append]
          omega

/-- A declarator is read as its operators in front and what is read behind them. -/
theorem declarator_opTokens {ops : List DeclaratorOp} {x ts : List Token} (fuel : Nat)
    (hsound : OpsSound (fun _ => True) ops) (h : LegibleFront ops x ts) (hts : Closed ts) :
    declarator (fuel + 1) (opTokens ops x ++ ts) =
      readBehind fuel (opTokens (ops.dropWhile DeclaratorOp.isPrefix) x ++ ts) >>= fun r =>
        .ok (ops.takeWhile DeclaratorOp.isPrefix ++ r.1, r.2) := by
  have hlength := length_opTokens ops x
  have hfront := pointerOpsFrom_opTokens (opTokens ops x ++ ts).length hsound h hts (by
    rw [List.length_append]
    omega)
  rw [declarator_succ, pointerOps, hfront, ok_bind]

mutual

theorem readBehind_opTokens : (ops : List DeclaratorOp) → {x ts rest : List Token} →
    {ss : List DeclaratorOp} → (fuel : Nat) → OpsSound (fun _ => True) ops →
    LegibleOps ops x ts → Closed ts → ReadsSuffixes ts ss rest →
    6 * (opTokens (ops.dropWhile DeclaratorOp.isPrefix) x ++ ts).length + 1 ≤ fuel →
    readBehind fuel (opTokens (ops.dropWhile DeclaratorOp.isPrefix) x ++ ts) =
      .ok (ss.reverse ++ ops.dropWhile DeclaratorOp.isPrefix, rest)
  | [], x, ts, rest, ss, fuel, _, h, hts, hread, hfuel => by
    unfold LegibleOps at h
    rw [List.dropWhile_nil, List.append_nil] at *
    unfold opTokens at *
    exact readBehind_id h hts hread hfuel
  | o :: ops, x, ts, rest, ss, fuel, hsound, h, hts, hread, hfuel => by
    unfold LegibleOps at h
    cases ho : o.isPrefix with
    | true =>
        rw [if_pos ho] at h
        rw [List.dropWhile_cons_of_pos ho] at hfuel ⊢
        exact readBehind_opTokens ops fuel hsound.2 h.2 hts hread hfuel
    | false =>
        rw [if_neg (by simp [ho])] at h
        rw [List.dropWhile_cons_of_neg (by simp [ho])] at hfuel ⊢
        have hclosed := closed_suffixTokens ho ts
        have hsuffix := readsSuffixes_suffixTokens o ho hsound.1 h.1 hts hread
        unfold opTokens at hfuel ⊢
        rw [if_neg (by simp [ho])] at hfuel ⊢
        cases hinner : opensWithPrefix ops with
        | false =>
            have hdrop : ops.dropWhile DeclaratorOp.isPrefix = ops := by
              cases ops with
              | nil => rfl
              | cons o' ops => exact List.dropWhile_cons_of_neg (by simpa [opensWithPrefix] using hinner)
            rw [hinner] at h hfuel
            rw [if_neg (by simp)] at hfuel ⊢
            rw [List.append_assoc] at hfuel ⊢
            have hrec := readBehind_opTokens ops fuel hsound.2 h.2 hclosed hsuffix
            rw [hdrop] at hrec
            simpa using hrec hfuel
        | true =>
            rw [hinner] at h hfuel
            rw [if_pos rfl] at h hfuel ⊢
            have hshape : .punct "(" :: opTokens ops x ++ [.punct ")"] ++ suffixTokens o ++ ts =
                .punct "(" :: (opTokens ops x ++ .punct ")" :: (suffixTokens o ++ ts)) := by simp
            rw [hshape] at hfuel ⊢
            obtain ⟨fuel, rfl⟩ : ∃ n, fuel = n + 2 := ⟨fuel - 2, by simp at hfuel; omega⟩
            have hlength := length_opTokens ops x
            simp only [List.length_cons, List.length_append] at hfuel
            have hclose : ReadsSuffixes (.punct ")" :: (suffixTokens o ++ ts)) [] _ :=
              readsSuffixes_stop (by simp [EndsType])
            have hrec := readBehind_opTokens ops fuel hsound.2 h.2 (closed_paren _) hclose (by
              simp only [List.length_cons, List.length_append, List.length_nil]
              omega)
            have hfront := legibleFront_of_legibleOps h.2
            have hinside := declarator_opTokens fuel hsound.2 hfront (closed_paren _)
            rw [hrec, ok_bind, List.reverse_nil, List.nil_append,
              List.takeWhile_append_dropWhile] at hinside
            have hbegins := beginsDeclarator_opTokens hfront hinner
            have hsuffixes := hsuffix (fuel + 2) (by simp only [List.length_append]; omega)
            unfold readBehind nestedDeclarator
            simp only [List.singleton_append] at hbegins hinside ⊢
            simp [Token.isPunct, hbegins, hinside, expect, hsuffixes]

theorem readsSuffixes_suffixTokens : (o : DeclaratorOp) → {ts rest : List Token} →
    {ss : List DeclaratorOp} → o.isPrefix = false → OpSound (fun _ => True) o → LegibleSuffix o ts →
    Closed ts → ReadsSuffixes ts ss rest →
    ReadsSuffixes (suffixTokens o ++ ts) (o :: ss) rest
  | .array extent, _, _, _, _, _, _, _, hread => readsSuffixes_array extent hread
  | .function params variadic quals ref, ts, rest, ss, _, hsound, h, hts, hread => by
    unfold OpSound at hsound
    unfold LegibleSuffix at h
    intro fuel hfuel
    have hshape : suffixTokens (.function params variadic quals ref) ++ ts =
        .punct "(" :: (paramTokens params variadic ++
          .punct ")" :: (qualTokens quals ++ (refTokens ref ++ ts))) := by
      simp [suffixTokens]
    rw [hshape] at hfuel ⊢
    simp only [List.length_cons, List.length_append] at hfuel
    obtain ⟨fuel, rfl⟩ : ∃ n, fuel = n + 2 := ⟨fuel - 2, by omega⟩
    have hparams : (if nextIs ")" (paramTokens params variadic ++
          .punct ")" :: (qualTokens quals ++ (refTokens ref ++ ts))) = true
        then .ok ([], false, (paramTokens params variadic ++
          .punct ")" :: (qualTokens quals ++ (refTokens ref ++ ts))).tail)
        else parameters fuel (paramTokens params variadic ++
          .punct ")" :: (qualTokens quals ++ (refTokens ref ++ ts)))) =
        Except.ok (params, variadic, qualTokens quals ++ (refTokens ref ++ ts)) := by
      cases hempty : params.isEmpty && !variadic with
      | true =>
          simp only [Bool.and_eq_true, List.isEmpty_iff, Bool.not_eq_true'] at hempty
          obtain ⟨rfl, rfl⟩ := hempty
          rfl
      | false =>
          obtain ⟨t, us, hhead, ht⟩ := paramTokens_head hsound.1 h hempty
          rw [if_neg (by simp [hhead, nextIs, ht])]
          refine parameters_paramTokens params variadic fuel hsound.1 h hempty ?_
          simp only [List.length_cons, List.length_append]
          omega
    have hnoqual : NoQual (refTokens ref ++ ts) := by
      cases ref with
      | none => exact hts.noQual
      | lvalue | rvalue => trivial
    have hrest := hread (fuel + 1) (by omega)
    unfold declaratorSuffixes
    simp only [functionSuffix_succ, hparams, ok_bind, cv_qualTokens hsound.2.2 hnoqual,
      functionTail_refTokens ref hts, hsound.2.1]
    simp [Token.isPunct, hrest]
  | .pointer _, _, _, _, h, _, _, _, _ | .lvalueReference, _, _, _, h, _, _, _, _
  | .rvalueReference, _, _, _, h, _, _, _, _ | .memberPointer .., _, _, _, h, _, _, _, _ =>
    absurd h (by simp [DeclaratorOp.isPrefix])

theorem parameters_paramTokens : (params : List Spelling) → (variadic : Bool) →
    {ts : List Token} → (fuel : Nat) → AllSound (fun _ => True) params →
    LegibleAll params variadic (.punct ")" :: ts) → (params.isEmpty && !variadic) = false →
    6 * (paramTokens params variadic ++ .punct ")" :: ts).length + 2 ≤ fuel →
    parameters fuel (paramTokens params variadic ++ .punct ")" :: ts) = .ok (params, variadic, ts)
  | [], true, ts, fuel, _, _, _, hfuel => by
    obtain ⟨fuel, rfl⟩ : ∃ n, fuel = n + 1 := ⟨fuel - 1, by omega⟩
    rw [parameters_succ]
    rfl
  | s :: rest, variadic, ts, fuel, hsound, h, _, hfuel => by
    unfold AllSound at hsound
    unfold LegibleAll at h
    unfold paramTokens at hfuel ⊢
    rw [List.append_assoc] at hfuel ⊢
    obtain ⟨fuel, rfl⟩ : ∃ n, fuel = n + 1 := ⟨fuel - 1, by omega⟩
    obtain ⟨t, us, hhead, ht⟩ := beginsType_tokens hsound.1 h.1
    have hbehind : EndsType ((if rest.isEmpty && !variadic then []
        else .punct "," :: paramTokens rest variadic) ++ .punct ")" :: ts) := by
      split <;> simp [EndsType]
    have htype := typeId_tokens s fuel hsound.1 h.1 hbehind (by omega)
    have hellipsis : nextIs "..." (tokens s [] ++ ((if rest.isEmpty && !variadic then []
        else .punct "," :: paramTokens rest variadic) ++ .punct ")" :: ts)) = false := by
      rw [hhead]
      exact ht.not_isPunct (by decide)
    rw [parameters_succ, hellipsis, if_neg (by simp), htype, ok_bind, ok_bind]
    cases hlast : rest.isEmpty && !variadic with
    | true =>
        simp only [Bool.and_eq_true, List.isEmpty_iff, Bool.not_eq_true'] at hlast
        obtain ⟨rfl, rfl⟩ := hlast
        rfl
    | false =>
        rw [hlast] at hfuel
        simp only [Bool.false_eq_true, if_false, List.cons_append, List.length_append,
          List.length_cons] at hfuel
        have hrest := parameters_paramTokens rest variadic fuel hsound.2 h.2 hlast (by
          simp only [List.length_append, List.length_cons]
          omega)
        simp [nextIs, expect, Token.isPunct, hrest]

/-- A legible spelling is what is read from its tokens. -/
theorem typeId_tokens : (s : Spelling) → {x ts : List Token} → (fuel : Nat) →
    Sound (fun _ => True) s → Legible s x ts →
    EndsType ts → 6 * (tokens s x ++ ts).length + 1 ≤ fuel →
    typeId fuel (tokens s x ++ ts) = .ok (s, ts)
  | .mk base quals ops, x, ts, fuel, hsound, h, hts, hfuel => by
    unfold Sound at hsound
    unfold Legible at h
    unfold tokens at hfuel ⊢
    rw [List.append_assoc] at hfuel ⊢
    obtain ⟨t, us, hhead, _⟩ := beginsType_textTokens hsound.1 h.1
    have hlength := length_opTokens ops x
    simp only [List.length_append, hhead, List.length_cons] at hfuel
    obtain ⟨fuel, rfl⟩ : ∃ n, fuel = n + 2 := ⟨fuel - 2, by omega⟩
    have hbehind := readBehind_opTokens ops fuel hsound.2.2 h.2 hts.closed (readsSuffixes_stop hts) (by
      simp only [List.length_append]
      omega)
    have hops := declarator_opTokens fuel hsound.2.2 (legibleFront_of_legibleOps h.2) hts.closed
    rw [hbehind, ok_bind, List.reverse_nil, List.nil_append,
      List.takeWhile_append_dropWhile] at hops
    unfold typeId
    rw [declSpecifiers_tokens hsound.1 hsound.2.1 h.1]
    simp [hops]

end

/-- A legible spelling is what is read from its text. -/
theorem read_print {s : Spelling} {x : String} (hsound : Sound (fun _ => True) s) (htidy : Tidy s)
    (hx : x.toList.head? ≠ some '&') (h : Legible s (textTokens x) []) :
    read (print s x) = .ok s := by
  have htype := typeId_tokens s (readFuel (tokens s (textTokens x))) hsound h trivial (by
    simp only [List.append_nil, readFuel]
    omega)
  rw [List.append_nil] at htype
  unfold read ofTokens
  rw [scan_print hx s htidy, htype]
  rfl

end CppReflect.Spelling
