import CppReflect.Proofs.Spelling.Canonical

/-!
# What readers leave

Every reader takes tokens from the front of a list and leaves the others. So the names of a spelling
that was read are names that were read somewhere in its tokens, and whatever holds of those holds of
the names of the spelling. Its qualifiers are made of the three that have words, and a builtin base
is one that has words.
-/

namespace CppReflect

@[simp] theorem ok_bind {ε α β : Type} (a : α) (f : α → Except ε β) : (Except.ok a >>= f) = f a :=
  rfl

/-- A computation that succeeds in two steps succeeds in each. -/
theorem bind_eq_ok {ε α β : Type} {x : Except ε α} {f : α → Except ε β} {b : β}
    (h : x >>= f = .ok b) : ∃ a, x = .ok a ∧ f a = .ok b := by
  cases x with
  | error e => exact absurd h (by simp [bind, Except.bind])
  | ok a => exact ⟨a, rfl, h⟩

namespace Quals

theorem valid_none : Quals.none.Valid := by decide

theorem valid_union {p q : Quals} (hp : p.Valid) (hq : q.Valid) : (p ∪ q).Valid := by
  unfold Valid at *
  rw [UInt8.lt_iff_toNat_lt] at *
  exact Nat.or_lt_two_pow (n := 3) hp hq

theorem valid_ofWord? {w : String} {q : Quals} (h : ofWord? w = some q) : q.Valid := by
  unfold ofWord? at h
  split at h
  · exact Option.some.inj h ▸ by decide
  split at h
  · exact Option.some.inj h ▸ by decide
  split at h
  · exact Option.some.inj h ▸ by decide
  · exact absurd h (by simp)

end Quals

namespace Spelling

variable {ts rest : List Token}

theorem expect_suffix {p : String} (h : expect p ts = .ok rest) : rest <:+ ts := by
  unfold expect at h
  split at h
  next t ts =>
    split at h
    · exact Except.ok.inj h ▸ List.suffix_cons t ts
    · simp at h
  next => simp at h

theorem templateArgsFrom_suffix {depth : Nat} {arg : List Token} {args : List String}
    (h : templateArgsFrom depth arg ts = .ok (args, rest)) : rest <:+ ts := by
  induction ts generalizing depth arg args rest with
  | nil => simp [templateArgsFrom] at h
  | cons t ts ih =>
      have hcons := List.suffix_cons t ts
      unfold templateArgsFrom at h
      split at h
      · exact (ih h).trans hcons
      split at h
      · simp only [Except.ok.injEq, Prod.mk.injEq] at h
        exact h.2 ▸ hcons
      split at h
      · exact (ih h).trans hcons
      split at h
      · obtain ⟨⟨args', rest'⟩, hargs, h⟩ := bind_eq_ok h
        simp only [Except.ok.injEq, Prod.mk.injEq] at h
        exact h.2 ▸ (ih hargs).trans hcons
      · exact (ih h).trans hcons

theorem nameSegment_suffix {segment : String} (h : nameSegment ts = .ok (segment, rest)) :
    rest <:+ ts := by
  unfold nameSegment at h
  split at h
  next w ts =>
    split at h
    · simp only [Except.ok.injEq, Prod.mk.injEq] at h
      exact h.2 ▸ List.suffix_cons _ _
    next t after =>
      split at h
      · obtain ⟨⟨args, rest'⟩, hargs, h⟩ := bind_eq_ok h
        simp only [Except.ok.injEq, Prod.mk.injEq] at h
        exact h.2 ▸ (templateArgsFrom_suffix hargs).trans
          ((List.suffix_cons t after).trans (List.suffix_cons _ _))
      · simp only [Except.ok.injEq, Prod.mk.injEq] at h
        exact h.2 ▸ List.suffix_cons _ _
  next => simp at h

theorem afterScopeMark?_suffix (h : afterScopeMark? ts = some rest) : rest <:+ ts := by
  unfold afterScopeMark? at h
  split at h
  next t w ts =>
    split at h
    · exact Option.some.inj h ▸ List.suffix_cons _ _
    · simp at h
  next => simp at h

theorem nameSegments_suffix {fuel : Nat} {segments : List String}
    (h : nameSegments fuel ts = .ok (segments, rest)) : rest <:+ ts := by
  induction fuel generalizing ts segments rest with
  | zero => simp [nameSegments] at h
  | succ fuel ih =>
      unfold nameSegments at h
      obtain ⟨⟨segment, rest'⟩, hsegment, h⟩ := bind_eq_ok h
      have hfirst := nameSegment_suffix hsegment
      simp only at h
      split at h
      next rest'' hmark =>
        obtain ⟨⟨segments', rest'''⟩, hsegments, h⟩ := bind_eq_ok h
        simp only [Except.ok.injEq, Prod.mk.injEq] at h
        exact h.2 ▸ (ih hsegments).trans ((afterScopeMark?_suffix hmark).trans hfirst)
      next =>
        simp only [Except.ok.injEq, Prod.mk.injEq] at h
        exact h.2 ▸ hfirst

theorem skipGlobal_suffix (ts : List Token) : (skipGlobal ts).2 <:+ ts := by
  unfold skipGlobal
  split
  next t ts =>
    split
    · exact List.suffix_cons t ts
    · exact List.suffix_refl _
  next => exact List.suffix_refl _

theorem qualifiedName_suffix {n : QualifiedName} (h : qualifiedName ts = .ok (n, rest)) :
    rest <:+ ts := by
  unfold qualifiedName at h
  obtain ⟨⟨segments, rest'⟩, hsegments, h⟩ := bind_eq_ok h
  simp only [Except.ok.injEq, Prod.mk.injEq] at h
  exact h.2 ▸ (nameSegments_suffix hsegments).trans (skipGlobal_suffix ts)

theorem memberPointerClassFrom_suffix {fuel : Nat} {segments : List String}
    (h : memberPointerClassFrom fuel ts = .ok (segments, rest)) : rest <:+ ts := by
  induction fuel generalizing ts segments rest with
  | zero => simp [memberPointerClassFrom] at h
  | succ fuel ih =>
      unfold memberPointerClassFrom at h
      obtain ⟨⟨segment, rest₁⟩, hsegment, h⟩ := bind_eq_ok h
      obtain ⟨rest₂, hcolons, h⟩ := bind_eq_ok h
      have hfirst := (expect_suffix hcolons).trans (nameSegment_suffix hsegment)
      split at h
      next t after =>
        split at h
        · simp only [Except.ok.injEq, Prod.mk.injEq] at h
          exact h.2 ▸ (List.suffix_cons t after).trans hfirst
        · obtain ⟨⟨segments', rest₃⟩, hsegments, h⟩ := bind_eq_ok h
          simp only [Except.ok.injEq, Prod.mk.injEq] at h
          exact h.2 ▸ (ih hsegments).trans hfirst
      next => simp at h

theorem memberPointerClass_suffix {n : QualifiedName} (h : memberPointerClass ts = .ok (n, rest)) :
    rest <:+ ts := by
  unfold memberPointerClass at h
  obtain ⟨⟨segments, rest'⟩, hsegments, h⟩ := bind_eq_ok h
  simp only [Except.ok.injEq, Prod.mk.injEq] at h
  exact h.2 ▸ (memberPointerClassFrom_suffix hsegments).trans (skipGlobal_suffix ts)

theorem cv_suffix (ts : List Token) : (cv ts).2 <:+ ts := by
  fun_induction cv ts with
  | case1 w rest q hq qs rest' hcv ih =>
      rw [hcv] at ih
      exact ih.trans (List.suffix_cons _ _)
  | case2 | case3 => exact List.suffix_refl _

theorem valid_cv (ts : List Token) : (cv ts).1.Valid := by
  fun_induction cv ts with
  | case1 w rest q hq qs rest' hcv ih =>
      rw [hcv] at ih
      exact Quals.valid_union (Quals.valid_ofWord? hq) ih
  | case2 | case3 => exact Quals.valid_none

theorem behindBracket_suffix (h : behindBracket ts = .ok rest) : rest <:+ ts := by
  induction ts with
  | nil => simp [behindBracket] at h
  | cons t ts ih =>
      unfold behindBracket at h
      split at h
      · exact Except.ok.inj h ▸ List.suffix_cons t ts
      · exact (ih h).trans (List.suffix_cons t ts)

theorem behindParens_suffix {depth : Nat} (h : behindParens depth ts = .ok rest) : rest <:+ ts := by
  induction ts generalizing depth with
  | nil => simp [behindParens] at h
  | cons t ts ih =>
      unfold behindParens at h
      split at h
      · exact (ih h).trans (List.suffix_cons t ts)
      split at h
      · split at h
        · exact Except.ok.inj h ▸ List.suffix_cons t ts
        · exact (ih h).trans (List.suffix_cons t ts)
      · exact (ih h).trans (List.suffix_cons t ts)

theorem functionTail_suffix {fuel : Nat} {ref ref' : RefQualifier}
    (h : functionTail fuel ref ts = .ok (ref', rest)) : rest <:+ ts := by
  induction fuel generalizing ts ref with
  | zero =>
      simp only [functionTail, Except.ok.injEq, Prod.mk.injEq] at h
      exact h.2 ▸ List.suffix_refl _
  | succ fuel ih =>
      cases ts with
      | nil =>
          simp only [functionTail, Except.ok.injEq, Prod.mk.injEq] at h
          exact h.2 ▸ List.suffix_refl _
      | cons t ts =>
          have hcons := List.suffix_cons t ts
          unfold functionTail at h
          split at h
          · exact (ih h).trans hcons
          split at h
          · exact (ih h).trans hcons
          split at h
          · split at h
            next p inner =>
              split at h
              · obtain ⟨rest', hparens, h⟩ := bind_eq_ok h
                exact (ih h).trans
                  ((behindParens_suffix hparens).trans ((List.suffix_cons p inner).trans hcons))
              · exact (ih h).trans hcons
            next =>
              simp only [Except.ok.injEq, Prod.mk.injEq] at h
              exact h.2 ▸ hcons
          split at h
          · obtain ⟨inner, hopen, h⟩ := bind_eq_ok h
            obtain ⟨rest', hparens, h⟩ := bind_eq_ok h
            exact (ih h).trans
              ((behindParens_suffix hparens).trans ((expect_suffix hopen).trans hcons))
          · simp only [Except.ok.injEq, Prod.mk.injEq] at h
            exact h.2 ▸ List.suffix_refl _

/-! ## What is read -/

variable {P : QualifiedName → Prop}

/-- Every name that is read somewhere in the tokens satisfies `P`. -/
def NamesRead (P : QualifiedName → Prop) (ts : List Token) : Prop :=
  ∀ ts', ts' <:+ ts → ∀ n rest,
    qualifiedName ts' = .ok (n, rest) ∨ memberPointerClass ts' = .ok (n, rest) → P n

theorem NamesRead.suffix (h : NamesRead P ts) (hsuffix : rest <:+ ts) : NamesRead P rest :=
  fun ts' hts' => h ts' (hts'.trans hsuffix)

/-- The words of builtin types make no base without words. -/
theorem Base.sound_ofWords? {words : List String} {base : Base} (h : Base.ofWords? words = some base) :
    base.Sound P := by
  have hite : ∀ {c : Prop} [Decidable c] {x y : Option Base}, (x = some base → base.Sound P) →
      (y = some base → base.Sound P) → (if c then x else y) = some base → base.Sound P := by
    intro c _ x y hx hy h
    by_cases hc : c
    · exact hx (by rwa [if_pos hc] at h)
    · exact hy (by rwa [if_neg hc] at h)
  have hsome : ∀ {base' : Base}, base'.Sound P → some base' = some base → base.Sound P :=
    fun hs h => Option.some.inj h ▸ hs
  have hwrap : ∀ {b : Builtin} {c : Bool}, b ≠ .nullPtr →
      some (if c = true then Base.complex b else .builtin b) = some base → base.Sound P := by
    intro b c hb
    cases c
    · exact hsome hb
    · exact hsome hb
  have hsign : ∀ {b b' : Builtin} {c u : Bool}, b ≠ .nullPtr → b' ≠ .nullPtr →
      some (if c = true then Base.complex (if u = true then b' else b)
        else .builtin (if u = true then b' else b)) = some base → base.Sound P := by
    intro b b' c u hb hb'
    cases u
    · exact hwrap hb
    · exact hwrap hb'
  have hnone : none = some base → base.Sound P := fun h => absurd h (by simp)
  have hdouble : (if List.count "long" words > 0 then Builtin.longDouble else .double) ≠ .nullPtr := by
    split <;> decide
  have hchar : (if words.contains "unsigned" = true then Builtin.uchar
      else if words.contains "signed" = true then .schar else .char) ≠ .nullPtr := by
    split
    · decide
    split <;> decide
  unfold Base.ofWords? at h
  simp only at h
  revert h
  refine hite (hite hnone (hsome trivial)) ?_
  refine hite (hwrap (by decide)) <| hite (hwrap (by decide)) <| hite (hwrap hdouble) ?_
  refine hite (hwrap (by decide)) <| hite (hwrap (by decide)) <| hite (hwrap (by decide)) ?_
  refine hite (hwrap (by decide)) <| hite (hwrap hchar) ?_
  refine hite (hsign (by decide) (by decide)) <| hite (hsign (by decide) (by decide)) ?_
  refine hite (hsign (by decide) (by decide)) <| hite (hsign (by decide) (by decide)) ?_
  exact hite (hsign (by decide) (by decide)) <| hite (hwrap (by decide)) hnone

/-- What the words in front of a declarator say is sound. -/
def Specifiers.Sound (P : QualifiedName → Prop) (s : Specifiers) : Prop :=
  s.quals.Valid ∧ ∀ n ∈ s.name, P n

theorem specifiersFrom_sound {fuel : Nat} {s s' : Specifiers} (hs : s.Sound P) (hts : NamesRead P ts)
    (h : specifiersFrom fuel s ts = .ok (s', rest)) : s'.Sound P ∧ rest <:+ ts := by
  induction fuel generalizing s ts with
  | zero =>
      simp only [specifiersFrom, Except.ok.injEq, Prod.mk.injEq] at h
      exact ⟨h.1 ▸ hs, h.2 ▸ List.suffix_refl _⟩
  | succ fuel ih =>
      cases ts with
      | nil =>
          simp only [specifiersFrom, Except.ok.injEq, Prod.mk.injEq] at h
          exact ⟨h.1 ▸ hs, h.2 ▸ List.suffix_refl _⟩
      | cons t ts =>
          have hcons := List.suffix_cons t ts
          have hstop : Except.ok (ε := SpellingError) (s, t :: ts) = .ok (s', rest) →
              s'.Sound P ∧ rest <:+ t :: ts := by
            intro h
            simp only [Except.ok.injEq, Prod.mk.injEq] at h
            exact ⟨h.1 ▸ hs, h.2 ▸ List.suffix_refl _⟩
          have hgo : ∀ {s₁ : Specifiers} {ts₁ : List Token},
              specifiersFrom fuel s₁ ts₁ = .ok (s', rest) → s₁.Sound P → ts₁ <:+ t :: ts →
              s'.Sound P ∧ rest <:+ t :: ts := by
            intro s₁ ts₁ h hs₁ hsuffix
            obtain ⟨hs', hrest⟩ := ih hs₁ (hts.suffix hsuffix) h
            exact ⟨hs', hrest.trans hsuffix⟩
          have hnamed : (qualifiedName (t :: ts) >>= fun r =>
              specifiersFrom fuel { s with name := some r.1 } r.2) = .ok (s', rest) →
              s'.Sound P ∧ rest <:+ t :: ts := by
            intro h
            obtain ⟨⟨n, rest'⟩, hname, h⟩ := bind_eq_ok h
            simp only at h
            refine hgo h ⟨hs.1, fun n' hn' => ?_⟩ (qualifiedName_suffix hname)
            exact Option.some.inj hn' ▸ hts _ (List.suffix_refl _) _ _ (Or.inl hname)
          unfold specifiersFrom at h
          simp only at h
          split at h
          next w =>
            split at h
            next q hq => exact hgo h ⟨Quals.valid_union hs.1 (Quals.valid_ofWord? hq), hs.2⟩ hcons
            next =>
              split at h
              · exact hgo h hs hcons
              split at h
              · split at h
                · exact hstop h
                · exact hgo h ⟨hs.1, hs.2⟩ hcons
              split at h
              · exact hnamed h
              · exact hstop h
          next =>
            split at h
            · exact hnamed h
            · exact hstop h

theorem declSpecifiers_sound {base : Base} {q : Quals} (hts : NamesRead P ts)
    (h : declSpecifiers ts = .ok (base, q, rest)) :
    base.Sound P ∧ q.Valid ∧ rest <:+ ts := by
  unfold declSpecifiers at h
  obtain ⟨⟨s, rest'⟩, hspecifiers, h⟩ := bind_eq_ok h
  obtain ⟨hs, hsuffix⟩ :=
    specifiersFrom_sound ⟨Quals.valid_none, fun _ hn => absurd hn (by simp)⟩ hts hspecifiers
  simp only at h
  split at h
  next n hn =>
    simp only [Except.ok.injEq, Prod.mk.injEq] at h
    obtain ⟨rfl, rfl, rfl⟩ := h
    exact ⟨hs.2 n hn, hs.1, hsuffix⟩
  next =>
    split at h
    next base' hbase =>
      simp only [Except.ok.injEq, Prod.mk.injEq] at h
      obtain ⟨rfl, rfl, rfl⟩ := h
      exact ⟨Base.sound_ofWords? hbase, hs.1, hsuffix⟩
    next => simp at h

theorem pointerOpsFrom_sound {fuel : Nat} {ops : List DeclaratorOp} (hts : NamesRead P ts)
    (h : pointerOpsFrom fuel ts = .ok (ops, rest)) : OpsSound P ops ∧ rest <:+ ts := by
  induction fuel generalizing ts ops rest with
  | zero =>
      simp only [pointerOpsFrom, Except.ok.injEq, Prod.mk.injEq] at h
      exact ⟨h.1 ▸ trivial, h.2 ▸ List.suffix_refl _⟩
  | succ fuel ih =>
      cases ts with
      | nil =>
          simp only [pointerOpsFrom, Except.ok.injEq, Prod.mk.injEq] at h
          exact ⟨h.1 ▸ trivial, h.2 ▸ List.suffix_refl _⟩
      | cons t ts =>
          have hcons := List.suffix_cons t ts
          have hfollowed : ∀ (o : DeclaratorOp) {ts₁ : List Token}, OpSound P o → ts₁ <:+ t :: ts →
              (pointerOpsFrom fuel ts₁ >>= fun r => .ok (o :: r.1, r.2)) = .ok (ops, rest) →
              OpsSound P ops ∧ rest <:+ t :: ts := by
            intro o ts₁ ho hsuffix h
            obtain ⟨⟨ops', rest'⟩, hrest, h⟩ := bind_eq_ok h
            obtain ⟨hops, hrest⟩ := ih (hts.suffix hsuffix) hrest
            simp only [Except.ok.injEq, Prod.mk.injEq] at h
            exact ⟨h.1 ▸ ⟨ho, hops⟩, h.2 ▸ hrest.trans hsuffix⟩
          unfold pointerOpsFrom at h
          simp only at h
          split at h
          · exact hfollowed (.pointer _) (valid_cv ts) ((cv_suffix ts).trans hcons) h
          split at h
          · exact hfollowed .lvalueReference trivial ((cv_suffix ts).trans hcons) h
          split at h
          · exact hfollowed .rvalueReference trivial ((cv_suffix ts).trans hcons) h
          split at h
          · obtain ⟨⟨klass, rest'⟩, hklass, h⟩ := bind_eq_ok h
            have hsuffix := (cv_suffix rest').trans (memberPointerClass_suffix hklass)
            exact hfollowed (.memberPointer klass _)
              ⟨hts _ (List.suffix_refl _) _ _ (Or.inr hklass), valid_cv rest'⟩ hsuffix h
          · simp only [Except.ok.injEq, Prod.mk.injEq] at h
            exact ⟨h.1 ▸ trivial, h.2 ▸ List.suffix_refl _⟩

theorem arraySuffix_sound {o : DeclaratorOp} (h : arraySuffix ts = .ok (o, rest)) :
    OpSound P o ∧ rest <:+ ts := by
  unfold arraySuffix at h
  split at h
  next n ts =>
    obtain ⟨rest', hbracket, h⟩ := bind_eq_ok h
    simp only [Except.ok.injEq, Prod.mk.injEq] at h
    exact ⟨h.1 ▸ trivial, h.2 ▸ (behindBracket_suffix hbracket).trans (List.suffix_cons _ _)⟩
  next =>
    obtain ⟨rest', hbracket, h⟩ := bind_eq_ok h
    simp only [Except.ok.injEq, Prod.mk.injEq] at h
    exact ⟨h.1 ▸ trivial, h.2 ▸ behindBracket_suffix hbracket⟩

theorem opsSound_reverse {ops : List DeclaratorOp} (h : OpsSound P ops) : OpsSound P ops.reverse := by
  induction ops with
  | nil => exact h
  | cons o ops ih =>
      rw [List.reverse_cons]
      exact opsSound_append.mpr ⟨ih h.2, h.1, trivial⟩

theorem allSound_append {params params' : List Spelling} (h : AllSound P params)
    (h' : AllSound P params') : AllSound P (params ++ params') := by
  induction params with
  | nil => exact h'
  | cons s params ih => exact ⟨h.1, ih h.2⟩

theorem withoutLoneVoid_sound {params : List Spelling} (h : AllSound P params) :
    AllSound P (withoutLoneVoid params) ∧
      withoutLoneVoid (withoutLoneVoid params) = withoutLoneVoid params := by
  fun_cases withoutLoneVoid params
  · exact ⟨trivial, rfl⟩
  next hvoid =>
    refine ⟨h, ?_⟩
    unfold withoutLoneVoid
    split
    next q => exact absurd rfl (hvoid q)
    next => rfl

theorem functionSuffix_succ (fuel : Nat) (ts : List Token) :
    functionSuffix (fuel + 1) ts =
      (if nextIs ")" ts = true then .ok ([], false, ts.tail) else parameters fuel ts) >>= fun r =>
        functionTail (cv r.2.2).2.length .none (cv r.2.2).2 >>= fun tail =>
          .ok (.function (withoutLoneVoid r.1) r.2.1 (cv r.2.2).1 tail.1, tail.2) := by
  conv => lhs; unfold functionSuffix
  split <;> rfl

theorem parameters_succ (fuel : Nat) (ts : List Token) :
    parameters (fuel + 1) ts =
      (if nextIs "..." ts = true then .ok ([], true, ts.tail)
        else typeId fuel ts >>= fun s => .ok ([s.1], false, s.2)) >>= fun r =>
          if nextIs ")" r.2.2 = true then .ok (r.1, r.2.1, r.2.2.tail)
          else expect "," r.2.2 >>= fun rest => parameters fuel rest >>= fun rs =>
            .ok (r.1 ++ rs.1, r.2.1 || rs.2.1, rs.2.2) := by
  conv => lhs; unfold parameters
  split
  · rfl
  · cases typeId fuel ts <;> rfl

mutual

/-- A type is read from the front, and it is sound. -/
theorem typeId_sound : (fuel : Nat) → {ts rest : List Token} → {s : Spelling} → NamesRead P ts →
    typeId fuel ts = .ok (s, rest) → Sound P s ∧ rest <:+ ts
  | 0, _, _, _, _, h => by simp [typeId] at h
  | fuel + 1, ts, rest, s, hts, h => by
    unfold typeId at h
    obtain ⟨⟨base, q, rest₁⟩, hbase, h⟩ := bind_eq_ok h
    obtain ⟨⟨ops, rest₂⟩, hops, h⟩ := bind_eq_ok h
    obtain ⟨hsound, hvalid, hsuffix⟩ := declSpecifiers_sound hts hbase
    obtain ⟨hsoundOps, hsuffix'⟩ := declarator_sound fuel (hts.suffix hsuffix) hops
    simp only [Except.ok.injEq, Prod.mk.injEq] at h
    obtain ⟨rfl, rfl⟩ := h
    unfold Sound
    exact ⟨⟨hsound, hvalid, hsoundOps⟩, hsuffix'.trans hsuffix⟩

theorem declarator_sound : (fuel : Nat) → {ts rest : List Token} → {ops : List DeclaratorOp} →
    NamesRead P ts → declarator fuel ts = .ok (ops, rest) → OpsSound P ops ∧ rest <:+ ts
  | 0, _, _, _, _, h => by simp [declarator] at h
  | fuel + 1, ts, rest, ops, hts, h => by
    unfold declarator at h
    obtain ⟨⟨front, rest₁⟩, hfront, h⟩ := bind_eq_ok h
    obtain ⟨⟨nested, rest₂⟩, hnested, h⟩ := bind_eq_ok h
    obtain ⟨⟨suffixes, rest₃⟩, hsuffixes, h⟩ := bind_eq_ok h
    obtain ⟨hsound₁, hsuffix₁⟩ := pointerOpsFrom_sound hts hfront
    obtain ⟨hsound₂, hsuffix₂⟩ := nestedDeclarator_sound fuel (hts.suffix hsuffix₁) hnested
    have hsuffix := hsuffix₂.trans hsuffix₁
    obtain ⟨hsound₃, hsuffix₃⟩ := declaratorSuffixes_sound fuel (hts.suffix hsuffix) hsuffixes
    simp only [Except.ok.injEq, Prod.mk.injEq] at h
    obtain ⟨rfl, rfl⟩ := h
    exact ⟨opsSound_append.mpr ⟨opsSound_append.mpr ⟨hsound₁, opsSound_reverse hsound₃⟩, hsound₂⟩,
      hsuffix₃.trans hsuffix⟩

theorem nestedDeclarator_sound : (fuel : Nat) → {ts rest : List Token} →
    {ops : List DeclaratorOp} → NamesRead P ts → nestedDeclarator fuel ts = .ok (ops, rest) →
    OpsSound P ops ∧ rest <:+ ts
  | 0, _, _, _, _, h => by simp [nestedDeclarator] at h
  | fuel + 1, [], rest, ops, hts, h => by
    simp only [nestedDeclarator, Except.ok.injEq, Prod.mk.injEq] at h
    exact ⟨h.1 ▸ trivial, h.2 ▸ List.suffix_refl _⟩
  | fuel + 1, t :: ts, rest, ops, hts, h => by
    have hcons := List.suffix_cons t ts
    unfold nestedDeclarator at h
    split at h
    · obtain ⟨⟨ops', rest₁⟩, hops, h⟩ := bind_eq_ok h
      obtain ⟨rest₂, hclose, h⟩ := bind_eq_ok h
      obtain ⟨hsound, hsuffix⟩ := declarator_sound fuel (hts.suffix hcons) hops
      simp only [Except.ok.injEq, Prod.mk.injEq] at h
      obtain ⟨rfl, rfl⟩ := h
      exact ⟨hsound, (expect_suffix hclose).trans (hsuffix.trans hcons)⟩
    split at h
    · split at h
      · simp only [Except.ok.injEq, Prod.mk.injEq] at h
        exact ⟨h.1 ▸ trivial, h.2 ▸ hcons⟩
      · simp only [Except.ok.injEq, Prod.mk.injEq] at h
        exact ⟨h.1 ▸ trivial, h.2 ▸ List.suffix_refl _⟩
    · simp only [Except.ok.injEq, Prod.mk.injEq] at h
      exact ⟨h.1 ▸ trivial, h.2 ▸ List.suffix_refl _⟩

theorem declaratorSuffixes_sound : (fuel : Nat) → {ts rest : List Token} →
    {ops : List DeclaratorOp} → NamesRead P ts → declaratorSuffixes fuel ts = .ok (ops, rest) →
    OpsSound P ops ∧ rest <:+ ts
  | 0, _, _, _, _, h => by simp [declaratorSuffixes] at h
  | fuel + 1, [], rest, ops, hts, h => by
    simp only [declaratorSuffixes, Except.ok.injEq, Prod.mk.injEq] at h
    exact ⟨h.1 ▸ trivial, h.2 ▸ List.suffix_refl _⟩
  | fuel + 1, t :: ts, rest, ops, hts, h => by
    have hcons := List.suffix_cons t ts
    unfold declaratorSuffixes at h
    split at h
    · obtain ⟨⟨o, rest₁⟩, ho, h⟩ := bind_eq_ok h
      obtain ⟨⟨ops', rest₂⟩, hops, h⟩ := bind_eq_ok h
      obtain ⟨hsound, hsuffix⟩ := arraySuffix_sound ho
      have hsuffix := hsuffix.trans hcons
      obtain ⟨hsound', hsuffix'⟩ := declaratorSuffixes_sound fuel (hts.suffix hsuffix) hops
      simp only [Except.ok.injEq, Prod.mk.injEq] at h
      obtain ⟨rfl, rfl⟩ := h
      exact ⟨⟨hsound, hsound'⟩, hsuffix'.trans hsuffix⟩
    split at h
    · obtain ⟨⟨o, rest₁⟩, ho, h⟩ := bind_eq_ok h
      obtain ⟨⟨ops', rest₂⟩, hops, h⟩ := bind_eq_ok h
      obtain ⟨hsound, hsuffix⟩ := functionSuffix_sound fuel (hts.suffix hcons) ho
      have hsuffix := hsuffix.trans hcons
      obtain ⟨hsound', hsuffix'⟩ := declaratorSuffixes_sound fuel (hts.suffix hsuffix) hops
      simp only [Except.ok.injEq, Prod.mk.injEq] at h
      obtain ⟨rfl, rfl⟩ := h
      exact ⟨⟨hsound, hsound'⟩, hsuffix'.trans hsuffix⟩
    · simp only [Except.ok.injEq, Prod.mk.injEq] at h
      exact ⟨h.1 ▸ trivial, h.2 ▸ List.suffix_refl _⟩

theorem functionSuffix_sound : (fuel : Nat) → {ts rest : List Token} → {o : DeclaratorOp} →
    NamesRead P ts → functionSuffix fuel ts = .ok (o, rest) → OpSound P o ∧ rest <:+ ts
  | 0, _, _, _, _, h => by simp [functionSuffix] at h
  | fuel + 1, ts, rest, o, hts, h => by
    rw [functionSuffix_succ] at h
    obtain ⟨⟨params, variadic, rest₁⟩, hparams, h⟩ := bind_eq_ok h
    have hparams : AllSound P params ∧ rest₁ <:+ ts := by
      split at hparams
      · simp only [Except.ok.injEq, Prod.mk.injEq] at hparams
        exact ⟨hparams.1 ▸ trivial, hparams.2.2 ▸ List.tail_suffix ts⟩
      · exact parameters_sound fuel hts hparams
    obtain ⟨⟨ref, rest₂⟩, htail, h⟩ := bind_eq_ok h
    have hsuffix := (functionTail_suffix htail).trans ((cv_suffix rest₁).trans hparams.2)
    simp only [Except.ok.injEq, Prod.mk.injEq] at h
    obtain ⟨rfl, rfl⟩ := h
    obtain ⟨hsound, hvoid⟩ := withoutLoneVoid_sound hparams.1
    unfold OpSound
    exact ⟨⟨hsound, hvoid, valid_cv rest₁⟩, hsuffix⟩

theorem parameters_sound : (fuel : Nat) → {ts rest : List Token} → {params : List Spelling} →
    {variadic : Bool} → NamesRead P ts → parameters fuel ts = .ok (params, variadic, rest) →
    AllSound P params ∧ rest <:+ ts
  | 0, _, _, _, _, _, h => by simp [parameters] at h
  | fuel + 1, ts, rest, params, variadic, hts, h => by
    rw [parameters_succ] at h
    obtain ⟨⟨param, ellipsis, rest₁⟩, hparam, h⟩ := bind_eq_ok h
    have hparam : AllSound P param ∧ rest₁ <:+ ts := by
      split at hparam
      · simp only [Except.ok.injEq, Prod.mk.injEq] at hparam
        exact ⟨hparam.1 ▸ trivial, hparam.2.2 ▸ List.tail_suffix ts⟩
      · obtain ⟨⟨s, rest₂⟩, hs, hparam⟩ := bind_eq_ok hparam
        obtain ⟨hsound, hsuffix⟩ := typeId_sound fuel hts hs
        simp only [Except.ok.injEq, Prod.mk.injEq] at hparam
        exact ⟨hparam.1 ▸ ⟨hsound, trivial⟩, hparam.2.2 ▸ hsuffix⟩
    simp only at h
    split at h
    · simp only [Except.ok.injEq, Prod.mk.injEq] at h
      exact ⟨h.1 ▸ hparam.1, h.2.2 ▸ (List.tail_suffix rest₁).trans hparam.2⟩
    · obtain ⟨rest₂, hcomma, h⟩ := bind_eq_ok h
      obtain ⟨⟨params', variadic', rest₃⟩, hparams, h⟩ := bind_eq_ok h
      have hsuffix := (expect_suffix hcomma).trans hparam.2
      obtain ⟨hsound, hsuffix'⟩ := parameters_sound fuel (hts.suffix hsuffix) hparams
      simp only [Except.ok.injEq, Prod.mk.injEq] at h
      exact ⟨h.1 ▸ allSound_append hparam.1 hsound, h.2.2 ▸ hsuffix'.trans hsuffix⟩

end

/-- Every spelling that is read is sound. -/
theorem ofTokens_sound {s : Spelling} (hts : NamesRead P ts) (h : ofTokens ts = .ok s) : Sound P s := by
  unfold ofTokens at h
  obtain ⟨⟨s', rest⟩, hs, h⟩ := bind_eq_ok h
  have hsound := (typeId_sound _ hts hs).1
  simp only at h
  split at h
  · exact Except.ok.inj h ▸ hsound
  · simp at h

end Spelling

end CppReflect
