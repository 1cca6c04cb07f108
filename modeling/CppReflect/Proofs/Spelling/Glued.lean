import CppReflect.Proofs.Spelling.Plain

/-!
# Glued spellings

A class that begins with `::` goes on with a name that is printed directly in front of it, and a
parameter `int ::B::*` that is printed directly behind the base of a function looks like a
declarator. A spelling with plain names in which neither happens is legible.
-/

namespace CppReflect.Spelling

/-- The base is a name. -/
def Base.isName : Base → Bool
  | .name _ => true
  | _ => false

/-- The parameter begins like the class of a member pointer: a lone word goes on with a class. -/
def looksLikeClass : Spelling → Bool
  | .mk base quals ops =>
    (qualTokens quals ++ textTokens base.text).length == 1 && opensWithGlobal ops

/-- The parameters begin like the class of a member pointer. -/
def looksLikeDeclarator : DeclaratorOp → Bool
  | .function (s :: _) _ _ _ => looksLikeClass s
  | _ => false

mutual

/-- Somewhere in what is printed for the spelling, a class that begins with `::` goes on with what
stands in front of it. -/
def glued : Spelling → Bool
  | .mk base _ ops => base.isName && opensWithGlobal ops || gluedOps ops

/-- Somewhere in what is printed for the operators and behind nothing else, a class that begins
with `::` goes on with what stands in front of it. -/
def gluedOps : List DeclaratorOp → Bool
  | [] => false
  | o :: ops => gluedOp o || ops.isEmpty && looksLikeDeclarator o || gluedOps ops

/-- A parameter of the operator is glued. -/
def gluedOp : DeclaratorOp → Bool
  | .function params _ _ _ => gluedAll params
  | _ => false

/-- One of the spellings is glued. -/
def gluedAll : List Spelling → Bool
  | [] => false
  | s :: rest => glued s || gluedAll rest

end

/-! ## Where no class begins with `::` -/

theorem opensWithGlobal_of_local {ops : List DeclaratorOp}
    (h : OpsSound (fun n => n.global = false) ops) : opensWithGlobal ops = false := by
  cases ops with
  | nil => rfl
  | cons o ops =>
      cases o with
      | memberPointer klass q => exact h.1.1
      | pointer | lvalueReference | rvalueReference | array | function => rfl

theorem looksLikeDeclarator_of_local {o : DeclaratorOp}
    (h : OpSound (fun n => n.global = false) o) : looksLikeDeclarator o = false := by
  cases o with
  | pointer | lvalueReference | rvalueReference | array | memberPointer => rfl
  | function params variadic quals ref =>
      unfold OpSound at h
      cases params with
      | nil => rfl
      | cons s rest =>
          obtain ⟨base, quals, ops⟩ := s
          have hops : OpsSound (fun n => n.global = false) ops := h.1.1.2.2
          change (_ && opensWithGlobal ops) = false
          rw [opensWithGlobal_of_local hops, Bool.and_false]

mutual

theorem glued_of_local : (s : Spelling) → Sound (fun n => n.global = false) s → glued s = false
  | .mk base quals ops, h => by
    unfold Sound at h
    unfold glued
    rw [opensWithGlobal_of_local h.2.2, gluedOps_of_local ops h.2.2, Bool.and_false, Bool.or_false]

theorem gluedOps_of_local : (ops : List DeclaratorOp) →
    OpsSound (fun n => n.global = false) ops → gluedOps ops = false
  | [], _ => by
    unfold gluedOps
    rfl
  | o :: ops, h => by
    unfold OpsSound at h
    unfold gluedOps
    rw [gluedOp_of_local o h.1, looksLikeDeclarator_of_local h.1, gluedOps_of_local ops h.2,
      Bool.and_false]
    rfl

theorem gluedOp_of_local : (o : DeclaratorOp) → OpSound (fun n => n.global = false) o →
    gluedOp o = false
  | .function params variadic quals ref, h => by
    unfold OpSound at h
    unfold gluedOp
    exact gluedAll_of_local params h.1
  | .pointer _, _ | .lvalueReference, _ | .rvalueReference, _ | .memberPointer .., _
  | .array _, _ => by
    unfold gluedOp
    rfl

theorem gluedAll_of_local : (params : List Spelling) →
    AllSound (fun n => n.global = false) params → gluedAll params = false
  | [], _ => by
    unfold gluedAll
    rfl
  | s :: rest, h => by
    unfold AllSound at h
    unfold gluedAll
    rw [glued_of_local s h.1, gluedAll_of_local rest h.2]
    rfl

end

/-! ## Parameters that begin no declarator -/

/-- A word that no `::` and no `<` follows begins no member pointer. -/
theorem memberPointerSegments?_stop {w : String} {behind : List Token} {fuel : Nat}
    (h : nextIs "<" behind = false) (h' : nextIs "::" behind = false) :
    memberPointerSegments? fuel (.word w :: behind) = none := by
  cases fuel with
  | zero => rfl
  | succ fuel =>
      unfold memberPointerSegments?
      cases behind with
      | nil => rfl
      | cons t behind =>
          have ht : t.isPunct "::" = false := h'
          cases behind with
          | nil => simp [h]
          | cons u behind => simp [h, ht]

theorem memberPointerSegments?_words {segments : List String} {behind : List Token} {fuel : Nat}
    (hne : segments ≠ []) (h : nextIs "<" behind = false) (h' : nextIs "::" behind = false) :
    memberPointerSegments? fuel (wordTokens segments ++ behind) = none := by
  induction segments generalizing fuel with
  | nil => exact absurd rfl hne
  | cons w rest ih =>
      cases rest with
      | nil => exact memberPointerSegments?_stop h h'
      | cons v rest =>
          cases fuel with
          | zero => rfl
          | succ fuel =>
              have hrest : memberPointerSegments? fuel (wordTokens (v :: rest) ++ behind) = none :=
                ih (by simp)
              obtain ⟨b, hv, hw⟩ := exists_wordTokens_cons w v rest
              rw [hv] at hrest
              rw [hw]
              unfold memberPointerSegments?
              simp only [List.cons_append] at hrest ⊢
              simp [nextIs, Token.isPunct, hrest]

theorem beginsDeclarator_of_none {t : Token} {ts : List Token} (ht : BeginsType t)
    (h : memberPointer? (t :: ts) = none) : beginsDeclarator (t :: ts) = false := by
  have hpunct : ∀ p ∈ ["*", "&", "&&", "^", "("], t.isPunct p = false := fun p hp =>
    ht.not_isPunct (by rintro rfl; exact absurd hp (by decide))
  cases t with
  | number n => exact absurd ht (by simp [BeginsType])
  | word w | punct p =>
      simp only [List.mem_cons, List.not_mem_nil, or_false, forall_eq_or_imp, forall_eq] at hpunct
      simp [beginsDeclarator, hpunct, h]

/-- A word in front of a name that does not begin with `::` begins no member pointer. -/
theorem memberPointer?_words {ws : List String} {behind : List Token} (hne : ws ≠ [])
    (h : nextIs "<" behind = false) (h' : ws.length = 1 → nextIs "::" behind = false) :
    memberPointer? (ws.map Token.word ++ behind) = none := by
  cases ws with
  | nil => exact absurd rfl hne
  | cons w ws =>
      apply memberPointerSegments?_stop
      · cases ws with
        | nil => exact h
        | cons v ws => rfl
      · cases ws with
        | nil => exact h' rfl
        | cons v ws => rfl

theorem beginsDeclarator_words {ws : List String} {behind : List Token} (hne : ws ≠ [])
    (h : memberPointer? (ws.map Token.word ++ behind) = none) :
    beginsDeclarator (ws.map Token.word ++ behind) = false := by
  cases ws with
  | nil => exact absurd rfl hne
  | cons w ws => exact beginsDeclarator_of_none (t := .word w) trivial h

/-- Words in front of a name without a member pointer behind it. -/
theorem memberPointer?_nameTokens {n : QualifiedName} (hn : OfWords n) (ws : List String)
    {behind : List Token} (h : nextIs "<" behind = false) (h' : nextIs "::" behind = false) :
    memberPointer? (ws.map Token.word ++ (nameTokens n ++ behind)) = none := by
  have hangle : nextIs "<" (nameTokens n ++ behind) = false := by
    obtain ⟨w, -, ts, hts⟩ := hn.exists_wordTokens
    unfold nameTokens
    rw [hts]
    cases n.global <;> rfl
  cases ws with
  | nil =>
      rw [List.map_nil, List.nil_append]
      unfold memberPointer?
      rw [skipGlobal_nameTokens hn]
      exact memberPointerSegments?_words hn.nonempty h h'
  | cons w ws =>
      cases hglobal : n.global with
      | false =>
          refine memberPointer?_words (by simp) hangle fun _ => ?_
          rw [nextIs_nameTokens hn, hglobal]
      | true =>
          cases ws with
          | nil =>
              -- the word and the name are read as one name
              have hjoined : nameTokens n ++ behind =
                  .punct "::" :: (wordTokens n.segments ++ behind) := by
                unfold nameTokens
                rw [hglobal]
                rfl
              have hword : wordTokens (w :: n.segments) =
                  .word w :: .punct "::" :: wordTokens n.segments := by
                rw [wordTokens]
                exact hn.nonempty
              have hshape : [w].map Token.word ++ (.punct "::" :: (wordTokens n.segments ++ behind)) =
                  wordTokens (w :: n.segments) ++ behind := by
                rw [hword]
                rfl
              have hskip : (skipGlobal (wordTokens (w :: n.segments) ++ behind)).2 =
                  wordTokens (w :: n.segments) ++ behind := by
                rw [hword]
                rfl
              rw [hjoined, hshape, memberPointer?, hskip]
              exact memberPointerSegments?_words (by simp) h h'
          | cons v ws => exact memberPointer?_words (by simp) hangle (by simp)

/-- A parameter that is not glued to what stands in front of it begins no declarator. -/
theorem beginsDeclarator_tokens {base : Base} {quals : Quals} {ops : List DeclaratorOp}
    {behind : List Token} (hsound : Sound Plain (.mk base quals ops))
    (hname : (base.isName && opensWithGlobal ops) = false)
    (hclass : looksLikeClass (.mk base quals ops) = false) (h : Closed behind) :
    beginsDeclarator (tokens (.mk base quals ops) [] ++ behind) = false := by
  unfold Sound at hsound
  have hlone : (qualTokens quals ++ textTokens base.text).length = 1 →
      opensWithGlobal ops = false := by
    intro hlength
    simpa [looksLikeClass, hlength] using hclass
  obtain ⟨hbenign, hcolons⟩ := opTokens_begin hsound.2.2 (x := []) trivial h
  unfold tokens qualTokens
  rw [List.append_assoc, List.append_assoc]
  cases base with
  | name n =>
      have hn : Plain n := hsound.1
      have hopens : opensWithGlobal ops = false := hname
      have hnone := memberPointer?_nameTokens hn.toOfWords quals.words hbenign.nextIs_angle
        (hcolons.trans hopens)
      change beginsDeclarator (_ ++ (textTokens n.text ++ _)) = false
      rw [textTokens_text hn.toOfWords]
      cases hwords : quals.words with
      | nil =>
          rw [hwords] at hnone
          obtain ⟨t, ts, hts, ht⟩ := hn.beginsName.cons
          rw [hts] at hnone ⊢
          exact beginsDeclarator_of_none ht hnone
      | cons w ws =>
          rw [hwords] at hnone
          exact beginsDeclarator_words (by simp) hnone
  | void | builtin | complex =>
      have hbase := Base.sound_mono (Q := fun _ => True) (fun _ _ => trivial) hsound.1
      obtain ⟨htokens, hne, _⟩ := Base.of_words (by simp) hbase
      have hne' := List.append_ne_nil_of_right_ne_nil quals.words hne
      rw [qualTokens, htokens, ← List.map_append, List.length_map] at hlone
      rw [htokens, ← List.append_assoc, ← List.map_append]
      have hnone := memberPointer?_words hne' hbenign.nextIs_angle fun hlength =>
        hcolons.trans (hlone hlength)
      exact beginsDeclarator_words hne' hnone

/-! ## What is not glued is legible -/

/-- If nothing stands in the place of a declarator, a parenthesis behind it opens parameters. -/
def OpensParams (x : List Token) : List Token → Prop
  | .punct "(" :: behind => x = [] → beginsDeclarator behind = false
  | _ => True

theorem EndsType.opensParams {x behind : List Token} (h : EndsType behind) :
    OpensParams x behind := by
  cases behind with
  | nil => trivial
  | cons t ts =>
      simp only [EndsType, List.mem_cons, List.not_mem_nil, or_false] at h
      rcases h with rfl | rfl <;> simp [OpensParams]

theorem legibleId_of_plain {x behind : List Token} (hx : PlainId x) (h : OpensParams x behind) :
    LegibleId x behind := by
  match x, hx with
  | [], _ =>
      unfold LegibleId
      split
      next => exact h rfl
      next => trivial
      next heq => exact absurd heq (by simp)
      next hnil _ _ => exact hnil rfl
  | [.word w], hx =>
      have hbenign : Benign [.word w] := hx
      exact hbenign.noQual

/-- The parameters of a function that are not glued to it are told from a nested declarator. -/
theorem opensParams_suffixTokens {o : DeclaratorOp} (ho : o.isPrefix = false)
    (hsound : OpSound Plain o) (hglued : gluedOp o = false) (hlooks : looksLikeDeclarator o = false)
    (x behind : List Token) : OpensParams x (suffixTokens o ++ behind) := by
  cases o with
  | pointer | lvalueReference | rvalueReference | memberPointer =>
      exact absurd ho (by simp [DeclaratorOp.isPrefix])
  | array extent => cases extent <;> simp [suffixTokens, OpensParams]
  | function params variadic quals ref =>
      unfold OpSound at hsound
      have hshape : suffixTokens (.function params variadic quals ref) ++ behind =
          .punct "(" :: (paramTokens params variadic ++
            .punct ")" :: (qualTokens quals ++ (refTokens ref ++ behind))) := by
        simp [suffixTokens]
      rw [hshape]
      intro _
      cases params with
      | nil => cases variadic <;> rfl
      | cons s rest =>
          obtain ⟨base, quals', ops⟩ := s
          have hsound := hsound.1.1
          unfold gluedOp gluedAll glued at hglued
          have hname := (Bool.or_eq_false_iff.mp (Bool.or_eq_false_iff.mp hglued).1).1
          unfold paramTokens
          rw [List.append_assoc]
          refine beginsDeclarator_tokens hsound hname hlooks ?_
          split <;> simp [Closed]

theorem legibleBase_of_plain {base : Base} {behind : List Token} (hsound : base.Sound Plain)
    (h : Benign behind) (hcolons : base.isName = true → nextIs "::" behind = false) :
    LegibleBase base behind := by
  cases base with
  | name n =>
      have hn : Plain n := hsound
      refine ⟨qualifiedName_text hn.toOfWords, ?_, h.endsName (hcolons rfl), h.noSpecifier⟩
      rw [textTokens_text hn.toOfWords]
      exact hn.beginsName
  | void | builtin | complex => exact ⟨h.noSpecifier, h.noBuiltin⟩

mutual

/-- A spelling with plain names that is not glued is legible. -/
theorem legible_of_not_glued : (s : Spelling) → {x behind : List Token} → Sound Plain s →
    glued s = false → PlainId x → EndsType behind → Legible s x behind
  | .mk base quals ops, x, behind, hsound, hglued, hx, hends => by
    unfold Sound at hsound
    unfold glued at hglued
    unfold Legible
    obtain ⟨hbase, hops⟩ := Bool.or_eq_false_iff.mp hglued
    obtain ⟨hbenign, hcolons⟩ := opTokens_begin hsound.2.2 hx hends.closed
    refine ⟨legibleBase_of_plain hsound.1 hbenign fun hname => ?_,
      legibleOps_of_not_glued ops hsound.2.2 hops hx hends.closed fun _ => hends.opensParams⟩
    rw [hname, Bool.true_and] at hbase
    exact hcolons.trans hbase

theorem legibleOps_of_not_glued : (ops : List DeclaratorOp) → {x behind : List Token} →
    OpsSound Plain ops → gluedOps ops = false → PlainId x → Closed behind →
    (ops.dropWhile DeclaratorOp.isPrefix = [] → OpensParams x behind) → LegibleOps ops x behind
  | [], x, behind, _, _, hx, _, hopens => by
    unfold LegibleOps
    exact legibleId_of_plain hx (hopens rfl)
  | o :: ops, x, behind, hsound, hglued, hx, hclosed, hopens => by
    unfold gluedOps at hglued
    obtain ⟨hglued, hops⟩ := Bool.or_eq_false_iff.mp hglued
    obtain ⟨hop, hlooks⟩ := Bool.or_eq_false_iff.mp hglued
    unfold LegibleOps
    cases ho : o.isPrefix with
    | true =>
        rw [if_pos rfl]
        rw [List.dropWhile_cons_of_pos ho] at hopens
        have hwords : OpSound OfWords o := (opsSound_mono (fun _ hn => hn.toOfWords) hsound).1
        exact ⟨legiblePrefix_of_plain hwords (opTokens_begin hsound.2 hx hclosed).1.noQual,
          legibleOps_of_not_glued ops hsound.2 hops hx hclosed hopens⟩
    | false =>
        rw [if_neg (by simp)]
        refine ⟨legibleOp_of_not_glued o hsound.1 hop, ?_⟩
        cases hinner : opensWithPrefix ops with
        | true =>
            rw [if_pos rfl]
            exact legibleOps_of_not_glued ops hsound.2 hops hx (closed_paren _) (by simp [OpensParams])
        | false =>
            rw [if_neg (by simp)]
            refine legibleOps_of_not_glued ops hsound.2 hops hx (closed_suffixTokens ho behind)
              fun hdrop => ?_
            -- the parameters stand behind nothing exactly if no operator is left
            cases ops with
            | nil => exact opensParams_suffixTokens ho hsound.1 hop (by simpa using hlooks) x behind
            | cons o' ops =>
                rw [List.dropWhile_cons_of_neg (by simpa [opensWithPrefix] using hinner)] at hdrop
                exact absurd hdrop (by simp)

theorem legibleOp_of_not_glued : (o : DeclaratorOp) → {behind : List Token} → OpSound Plain o →
    gluedOp o = false → LegibleSuffix o behind
  | .function params variadic quals ref, behind, hsound, hglued => by
    unfold OpSound at hsound
    unfold gluedOp at hglued
    unfold LegibleSuffix
    exact legibleAll_of_not_glued params variadic hsound.1 hglued (by simp [EndsType])
  | .pointer _, _, _, _ | .lvalueReference, _, _, _ | .rvalueReference, _, _, _
  | .memberPointer .., _, _, _ | .array _, _, _, _ => by
    unfold LegibleSuffix
    trivial

theorem legibleAll_of_not_glued : (params : List Spelling) → (variadic : Bool) →
    {behind : List Token} → AllSound Plain params → gluedAll params = false → EndsType behind →
    LegibleAll params variadic behind
  | [], _, _, _, _, _ => by
    unfold LegibleAll
    trivial
  | s :: rest, variadic, behind, hsound, hglued, hends => by
    unfold AllSound at hsound
    unfold gluedAll at hglued
    unfold LegibleAll
    obtain ⟨hs, hrest⟩ := Bool.or_eq_false_iff.mp hglued
    refine ⟨legible_of_not_glued s hsound.1 hs trivial ?_,
      legibleAll_of_not_glued rest variadic hsound.2 hrest hends⟩
    split
    · exact hends
    · simp [EndsType]

end

end CppReflect.Spelling
