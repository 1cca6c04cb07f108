import CppReflect.Proofs.Trampoline.Interleaving

/-!
# What a deletion leaves behind

When an interpreter is deleted its trampolines are forgotten, but not those of the requests that
work with it at the time: a trampoline that is made by then, or later on, is kept after all. The
invariants say why there are no others. The number of the interpreter is never handed out again, and
no other deletion takes the same interpreter out.
-/

namespace CppReflect

namespace Trampoline

variable {ι κ α : Type} [DecidableEq ι] [DecidableEq κ] {c : Callers ι κ}
  {t t' t'' : Traffic ι κ α} {move : Move ι κ α} {moves : List (Move ι κ α)}

/-! ## Numbers and deletions -/

/-- Numbers are handed out once, and an interpreter that was taken out was registered before and is
not any more. No two deletions have taken out the same one. -/
structure Traffic.Sound (t : Traffic ι κ α) : Prop where
  below : ∀ n ∈ t.registry.numbers, n < t.registry.next
  gone : ∀ j service, (t.removals j).service? = some service →
    service ∉ t.registry.numbers ∧ service < t.registry.next
  once : ∀ j k service, (t.removals j).service? = some service →
    (t.removals k).service? = some service → j = k

namespace Traffic.Sound

omit [DecidableEq ι] [DecidableEq κ] in
theorem start : ({} : Traffic ι κ α).Sound where
  below _ hn := nomatch hn
  gone _ _ hservice := nomatch hservice
  once _ _ _ hservice := nomatch hservice

omit [DecidableEq ι] [DecidableEq κ] in
/-- Nothing else matters. -/
theorem congr (hsound : t.Sound) (hnumbers : t'.registry.numbers = t.registry.numbers)
    (hnext : t'.registry.next = t.registry.next)
    (hremovals : ∀ j, (t'.removals j).service? = (t.removals j).service?) : t'.Sound where
  below := by
    rw [hnumbers, hnext]
    exact hsound.below
  gone j service := by
    rw [hremovals, hnumbers, hnext]
    exact hsound.gone j service
  once j k service := by
    rw [hremovals, hremovals]
    exact hsound.once j k service

omit [DecidableEq ι] [DecidableEq κ] in
theorem register (hsound : t.Sound) (interpreter : Interpreter) :
    ({ t with registry := t.registry.register interpreter } : Traffic ι κ α).Sound where
  below n hn := by
    rw [Registry.numbers_register, List.mem_append, List.mem_singleton] at hn
    rw [Registry.next_register]
    rcases hn with hn | rfl
    · exact Nat.lt_succ_of_lt (hsound.below n hn)
    · exact Nat.lt_succ_self _
  gone j service hservice := by
    obtain ⟨hnot, hlt⟩ := hsound.gone j service hservice
    rw [Registry.numbers_register, List.mem_append, List.mem_singleton, Registry.next_register]
    exact ⟨by rintro (hmem | rfl); exacts [hnot hmem, Nat.lt_irrefl _ hlt], Nat.lt_succ_of_lt hlt⟩
  once := hsound.once

omit [DecidableEq ι] in
theorem remove {j : κ} {service : Nat} (hsound : t.Sound) (hmem : service ∈ t.registry.numbers) :
    (Traffic.carryOn { t with registry := t.registry.without service } j
      (.removed service)).Sound := by
  -- What a deletion has taken out is this interpreter, or one that was taken out before.
  have hothers (k : κ) (s : Nat)
      (hk : (((t.carryOn j (.removed service)).removals k)).service? = some s) :
      k = j ∧ s = service ∨ (t.removals k).service? = some s ∧ s ≠ service := by
    rw [removals_carryOn] at hk
    split at hk
    next hkj => exact .inl ⟨hkj, Option.some.inj hk.symm⟩
    next => exact .inr ⟨hk, fun hs => (hsound.gone k s hk).1 (hs ▸ hmem)⟩
  refine ⟨fun n hn => ?_, fun k s hk => ?_, fun k k' s hk hk' => ?_⟩
  · change n ∈ (t.registry.without service).numbers at hn
    rw [Registry.numbers_without] at hn
    exact hsound.below n (List.mem_of_mem_filter hn)
  · change s ∉ (t.registry.without service).numbers ∧ _
    rw [Registry.numbers_without]
    rcases hothers k s hk with ⟨-, rfl⟩ | ⟨hk, -⟩
    · exact ⟨by simp, hsound.below _ hmem⟩
    · exact (hsound.gone k s hk).imp_left fun hnot hin => hnot (List.mem_of_mem_filter hin)
  · rcases hothers k s hk with ⟨rfl, rfl⟩ | ⟨hk, hs⟩ <;>
      rcases hothers k' _ hk' with ⟨rfl, hs'⟩ | ⟨hk', hs'⟩
    · rfl
    · exact absurd rfl hs'
    · exact absurd hs' hs
    · exact hsound.once k k' s hk hk'

end Traffic.Sound

theorem Step.sound (hstep : Step c t move t') (hsound : t.Sound) : t'.Sound := by
  cases hstep with
  | take _ _ | refuse _ _ | hit _ _ | miss _ _ | keep _ _ =>
      exact hsound.congr rfl rfl fun _ => rfl
  | make _ _ => exact hsound.congr Registry.numbers_replace rfl fun _ => rfl
  | remove _ hdelete =>
      obtain ⟨hmem, rfl⟩ := Registry.eq_of_delete? hdelete
      exact hsound.remove hmem
  | lack hbefore _ | forget hbefore =>
      refine hsound.congr rfl rfl fun k => ?_
      rw [Traffic.removals_carryOn]
      split
      next hsame => rw [hsame, hbefore]; rfl
      next => rfl
  | register interpreter => exact hsound.register interpreter
  | activate hactivate =>
      obtain rfl := Registry.eq_of_activate? hactivate
      exact hsound.congr rfl rfl fun _ => rfl

theorem Run.sound (hrun : Run c t moves t') (hsound : t.Sound) : t'.Sound :=
  hrun.invariant (fun _ _ _ _ hstep => hstep.sound) hsound

/-! ## Requests that are late -/

/-- An interpreter is deleted and its trampolines are forgotten. The requests that still work with
it are among those that were under way by then. -/
structure Traffic.Gone (underWay : ι → Prop) (service : Nat) (t : Traffic ι κ α) : Prop where
  unlisted : service ∉ t.registry.numbers
  past : service < t.registry.next
  finished : ∀ j, t.removals j ≠ .removed service
  old : ∀ i, (t.requests i).underWay? = some service → underWay i

/-- A request for the trampoline of a role for a declaration was under way by then, and is answered
with code by now. -/
def Traffic.Late (c : Callers ι κ) (underWay : ι → Prop) (role : Role) (key : CacheKey)
    (t : Traffic ι κ α) : Prop :=
  ∃ i code, c.role i = role ∧ c.decl i = key.decl ∧ underWay i ∧
    t.requests i = .answered key.service (.ok code)

section

variable {underWay : ι → Prop} {service : Nat} {role : Role} {key : CacheKey} {i : ι}
  {p : Progress α}

omit [DecidableEq ι] [DecidableEq κ] in
theorem Traffic.Gone.congr (hgone : t.Gone underWay service)
    (hnumbers : t'.registry.numbers = t.registry.numbers)
    (hnext : t'.registry.next = t.registry.next)
    (hremovals : ∀ j, t'.removals j = .removed service → t.removals j = .removed service)
    (hrequests : ∀ i, (t'.requests i).underWay? = some service →
      (t.requests i).underWay? = some service) : t'.Gone underWay service where
  unlisted := hnumbers ▸ hgone.unlisted
  past := hnext ▸ hgone.past
  finished j hj := hgone.finished j (hremovals j hj)
  old i hi := hgone.old i (hrequests i hi)

omit [DecidableEq κ] in
/-- A request that comes to a point with some interpreter came from a point with that one. -/
theorem Traffic.underWay?_proceed
    (hp : p.underWay? = some service → (t.requests i).underWay? = some service) (k : ι)
    (hk : ((t.proceed i p).requests k).underWay? = some service) :
    (t.requests k).underWay? = some service := by
  rw [requests_proceed] at hk
  split at hk
  next hsame => exact hsame ▸ hp hk
  next => exact hk

omit [DecidableEq κ] in
theorem Traffic.late_proceed (hopen : ∀ code, t.requests i ≠ .answered key.service (.ok code)) :
    (t.proceed i p).Late c underWay role key ↔ t.Late c underWay role key ∨
      c.role i = role ∧ c.decl i = key.decl ∧ underWay i ∧
        ∃ code, p = .answered key.service (.ok code) := by
  constructor
  · rintro ⟨k, code, hrole, hdecl, hunder, hcode⟩
    rw [requests_proceed] at hcode
    split at hcode
    next hsame => exact .inr ⟨hsame ▸ hrole, hsame ▸ hdecl, hsame ▸ hunder, code, hcode⟩
    next => exact .inl ⟨k, code, hrole, hdecl, hunder, hcode⟩
  · rintro (⟨k, code, hrole, hdecl, hunder, hcode⟩ | ⟨hrole, hdecl, hunder, code, hcode⟩)
    · have hother : k ≠ i := fun hsame => hopen code (hsame ▸ hcode)
      exact ⟨k, code, hrole, hdecl, hunder, by rwa [requests_proceed, if_neg hother]⟩
    · exact ⟨i, code, hrole, hdecl, hunder, by rwa [requests_proceed, if_pos rfl]⟩

omit [DecidableEq κ] in
theorem Traffic.late_proceed_of_open
    (hopen : ∀ code, t.requests i ≠ .answered key.service (.ok code))
    (hp : ∀ code, p ≠ .answered key.service (.ok code)) :
    (t.proceed i p).Late c underWay role key ↔ t.Late c underWay role key := by
  rw [late_proceed hopen]
  exact or_iff_left fun ⟨_, _, _, code, hcode⟩ => hp code hcode

/-- A number that is gone does not come back. -/
theorem Step.gone (hstep : Step c t move t') (hgone : t.Gone underWay service) :
    t'.Gone underWay service := by
  cases hstep with
  | take hwaiting hactive =>
      refine hgone.congr rfl rfl (fun _ => id) (Traffic.underWay?_proceed fun hservice => ?_)
      -- What is taken is listed.
      obtain rfl := Option.some.inj hservice
      have hget := (Registry.active?_eq_some_iff.mp hactive).2
      exact absurd (Registry.mem_numbers_of_get? hget) hgone.unlisted
  | refuse _ _ | hit _ _ | keep _ _ =>
      exact hgone.congr rfl rfl (fun _ => id) (Traffic.underWay?_proceed fun h => nomatch h)
  | miss hholding _ =>
      refine hgone.congr rfl rfl (fun _ => id) ?_
      exact Traffic.underWay?_proceed fun h => by rw [hholding]; exact h
  | make hmissed _ =>
      refine hgone.congr Registry.numbers_replace rfl (fun _ => id) ?_
      exact Traffic.underWay?_proceed fun h => by rw [hmissed]; exact h
  | @remove j n registry hwaiting hdelete =>
      obtain ⟨hmem, rfl⟩ := Registry.eq_of_delete? hdelete
      -- What is taken out was listed, so it is another one.
      have hother : n ≠ service := fun h => hgone.unlisted (h ▸ hmem)
      refine ⟨fun hin => ?_, hgone.past, fun k hk => ?_, hgone.old⟩
      · change service ∈ (t.registry.without n).numbers at hin
        rw [Registry.numbers_without] at hin
        exact hgone.unlisted (List.mem_of_mem_filter hin)
      · rw [Traffic.removals_carryOn] at hk
        split at hk
        next => exact hother (Removal.removed.inj hk)
        next => exact hgone.finished k hk
  | lack _ _ | forget _ =>
      refine hgone.congr rfl rfl (fun k hk => ?_) fun _ => id
      rw [Traffic.removals_carryOn] at hk
      split at hk
      next => cases hk
      next => exact hk
  | register interpreter =>
      refine ⟨fun hin => ?_, Nat.lt_succ_of_lt hgone.past, hgone.finished, hgone.old⟩
      rw [Registry.numbers_register, List.mem_append, List.mem_singleton] at hin
      exact hin.elim hgone.unlisted hgone.past.ne
  | activate hactivate =>
      obtain rfl := Registry.eq_of_activate? hactivate
      exact hgone.congr rfl rfl (fun _ => id) fun _ => id

/-- What is kept for an interpreter that is gone comes from the requests that were late. -/
theorem Step.late (hstep : Step c t move t') (hgone : t.Gone underWay key.service)
    (hlate : (t.engine.kept? role key).isSome ↔ t.Late c underWay role key) :
    (t'.engine.kept? role key).isSome ↔ t'.Late c underWay role key := by
  cases hstep with
  | take hwaiting _ | refuse hwaiting _ =>
      exact hlate.trans (Traffic.late_proceed_of_open (by simp [hwaiting]) (by simp)).symm
  | miss hholding _ =>
      exact hlate.trans (Traffic.late_proceed_of_open (by simp [hholding]) (by simp)).symm
  | make hmissed hmade =>
      rw [← kept?_of_synthesize hmade] at hlate
      exact hlate.trans (Traffic.late_proceed_of_open (by simp [hmissed]) (by simp)).symm
  | @hit i service code hholding hkept =>
      rw [Traffic.late_proceed (by simp [hholding])]
      change (Engine.kept? { t.engine with stats := _ } role key).isSome ↔ _
      rw [Engine.kept?_stats, hlate]
      refine (or_iff_left_of_imp ?_).symm
      rintro ⟨rfl, hdecl, -, code', hcode⟩
      cases hcode
      rw [Callers.key, hdecl] at hkept
      exact hlate.mp (Option.isSome_of_mem hkept)
  | @keep i service result reply engine hmade hsettle =>
      rw [Traffic.late_proceed (by simp [hmade])]
      change (Engine.kept? engine role key).isSome ↔ _
      rw [Engine.kept?_of_settle hsettle, Option.isSome_or, Bool.or_eq_true, hlate]
      refine or_congr Iff.rfl ?_
      by_cases hkey : role = c.role i ∧ key = c.key i service
      · -- Nobody takes an interpreter that is gone, so the request was under way by then.
        obtain ⟨rfl, rfl⟩ := hkey
        have hunder : underWay i := hgone.old i (by rw [hmade]; rfl)
        have hanswer : (∃ code, reply = .ok code) ↔ ∃ code, result = .ok code :=
          Engine.settle_isOk hsettle
        rw [if_pos ⟨rfl, rfl⟩]
        simp only [Callers.key, hunder, true_and, Progress.answered.injEq, hanswer]
        cases result <;> simp [Except.toOption]
      · rw [if_neg hkey]
        refine iff_of_false Bool.false_ne_true ?_
        rintro ⟨hrole, hdecl, -, code, hcode⟩
        cases hcode
        exact hkey ⟨hrole.symm, by rw [Callers.key, hdecl]⟩
  | @forget j service hremoved =>
      have hother : key.service ≠ service := fun h => hgone.finished j (h ▸ hremoved)
      change (Engine.kept? (t.engine.forget service) role key).isSome ↔ _
      rw [Engine.kept?_forget, if_neg hother]
      exact hlate
  | remove _ _ | lack _ _ | register _ | activate _ => exact hlate

end

/-- When the trampolines of an interpreter have just been forgotten, nothing is kept for it, and no
request that is still under way with it is answered. -/
theorem Traffic.Sound.forgotten {j : κ} {service : Nat} (hsound : t.Sound)
    (hremoved : t.removals j = .removed service) (hforget : Step c t (.forget j) t') :
    t'.Gone (fun i => (t.requests i).underWay? = some service) service ∧
      ∀ role d, (t'.engine.kept? role ⟨service, d⟩).isSome ↔
        t'.Late c (fun i => (t.requests i).underWay? = some service) role ⟨service, d⟩ := by
  have hservice : (t.removals j).service? = some service := by rw [hremoved]; rfl
  cases hforget with
  | @forget _ n hn =>
      obtain rfl : n = service := Removal.removed.inj (hn.symm.trans hremoved)
      refine ⟨⟨(hsound.gone j n hservice).1, (hsound.gone j n hservice).2, fun k hk => ?_,
        fun _ => id⟩, fun role d => ?_⟩
      · rw [Traffic.removals_carryOn] at hk
        split at hk
        next => cases hk
        next hother =>
          have hkn : (t.removals k).service? = some n := by
            change t.removals k = _ at hk
            rw [hk]
            rfl
          exact hother (hsound.once k j n hkn hservice)
      · change (Engine.kept? (t.engine.forget n) role ⟨n, d⟩).isSome ↔ _
        rw [Engine.kept?_forget, if_pos rfl]
        refine iff_of_false Bool.false_ne_true ?_
        rintro ⟨i, code, -, -, hunder, hcode⟩
        change t.requests i = _ at hcode
        rw [hcode] at hunder
        cases hunder

theorem Run.late {underWay : ι → Prop} {role : Role} {key : CacheKey} (hrun : Run c t moves t')
    (hgone : t.Gone underWay key.service)
    (hlate : (t.engine.kept? role key).isSome ↔ t.Late c underWay role key) :
    (t'.engine.kept? role key).isSome ↔ t'.Late c underWay role key := by
  refine (hrun.invariant (P := fun t => t.Gone underWay key.service ∧
    ((t.engine.kept? role key).isSome ↔ t.Late c underWay role key)) ?_ ⟨hgone, hlate⟩).2
  exact fun _ _ _ _ hstep h => ⟨hstep.gone h.1, hstep.late h.1 h.2⟩

/-- Once an interpreter is deleted and its trampolines are forgotten, the trampolines that are kept
for it are those of the requests that were under way with it by then and have succeeded since. -/
theorem Run.kept?_iff_late {before after : List (Move ι κ α)} {j : κ} {service : Nat}
    (hbefore : Run c {} before t) (hremoved : t.removals j = .removed service)
    (hforget : Step c t (.forget j) t') (hafter : Run c t' after t'') (role : Role) (d : DeclId) :
    (t''.engine.kept? role ⟨service, d⟩).isSome ↔ ∃ i code, c.role i = role ∧ c.decl i = d ∧
      (t.requests i).underWay? = some service ∧
      t''.requests i = .answered service (.ok code) := by
  obtain ⟨hgone, hlate⟩ := (hbefore.sound Traffic.Sound.start).forgotten hremoved hforget
  exact hafter.late hgone (hlate role d)

theorem run_lampLate : ∃ t t' t'' : Traffic Bool Unit Nat,
    Run lampCallers {}
      [.register lampBench.interpreter, .take false, .lookUp false, .remove ()] t ∧
    Step lampCallers t (.forget ()) t' ∧
    Run lampCallers t' [.make false (placedAt 4096) lampBench, .keep false] t'' ∧
    t.removals () = .removed 1 ∧ (t.requests false).underWay? = some 1 ∧
    t''.requests false = .answered 1 (.ok 4096) ∧ t''.requests true = .waiting :=
  ⟨_, _, _, .cons (.register _) <| .cons (.take rfl rfl) <| .cons (.miss rfl rfl) <|
    .cons (.remove rfl rfl) <| .nil _, .forget rfl, .cons (.make rfl (synthesize_lamp _ _)) <|
    .cons (.keep rfl rfl) <| .nil _, rfl, rfl, rfl, rfl⟩

/-- A request takes an interpreter and finds nothing. The interpreter is deleted and its trampolines
are forgotten, and then the request has one made. All are done, and the trampoline is kept. -/
theorem Run.kept?_iff_late_lamp : ∃ t t' t'' : Traffic Bool Unit Nat,
    Run lampCallers {}
      [.register lampBench.interpreter, .take false, .lookUp false, .remove ()] t ∧
    Step lampCallers t (.forget ()) t' ∧
    Run lampCallers t' [.make false (placedAt 4096) lampBench, .keep false] t'' ∧
    t''.requests false = .answered 1 (.ok 4096) ∧ t''.requests true = .waiting ∧
    (t''.engine.kept? .destruction ⟨1, ⟨1⟩⟩).isSome := by
  obtain ⟨t, t', t'', hbefore, hforget, hafter, hremoved, hunder, hfalse, htrue⟩ := run_lampLate
  have hkept := (hbefore.kept?_iff_late hremoved hforget hafter .destruction ⟨1⟩).mpr
    ⟨false, 4096, rfl, rfl, hunder, hfalse⟩
  exact ⟨t, t', t'', hbefore, hforget, hafter, hfalse, htrue, hkept⟩

/-- If no request is under way with an interpreter when its trampolines are forgotten, nothing is
ever kept for it again. -/
theorem Run.kept?_eq_none {before after : List (Move ι κ α)} {j : κ} {service : Nat}
    (hbefore : Run c {} before t) (hremoved : t.removals j = .removed service)
    (hidle : ∀ i, (t.requests i).underWay? ≠ some service) (hforget : Step c t (.forget j) t')
    (hafter : Run c t' after t'') (role : Role) (d : DeclId) :
    t''.engine.kept? role ⟨service, d⟩ = none := by
  obtain ⟨hgone, hlate⟩ := (hbefore.sound Traffic.Sound.start).forgotten hremoved hforget
  have hkept := (hafter.late hgone (hlate role d)).not.mpr
    fun ⟨i, _, _, _, hunder, _⟩ => hidle i hunder
  simpa using hkept

end Trampoline

end CppReflect
