import CppReflect.Proofs.Session.Basic
import CppReflect.Proofs.Trampoline.History
import Mathlib.Logic.Function.Basic

/-!
# Requests and deletions that overlap

Several callers may ask for trampolines and delete interpreters at the same time. A request takes
the active interpreter, looks for a trampoline that is kept, has one made if there is none, and
keeps that; a deletion takes its interpreter out, and has its trampolines forgotten. Nothing comes
in between within such a part, and anything may come in between two of them: a request goes on with
its interpreter even if that is deleted by then.
-/

namespace CppReflect

namespace Trampoline

variable {ι κ α : Type}

/-! ## The last part of a request -/

/-- Counts what synthesis came to, and keeps it if it is code. Tells what is kept then. -/
def Engine.settle (e : Engine α) (role : Role) (key : CacheKey) :
    Except SynthesisError α → Except SynthesisError α × Engine α
  | .ok code =>
    let (kept, e) := Engine.keep { e with stats := e.stats.recordCompilation 0 } role key code
    (.ok kept, e)
  | .error error => (.error error, { e with stats := e.stats.recordFailure })

namespace Engine

variable {e : Engine α} {role : Role} {key : CacheKey}

theorem settle_ok (e : Engine α) (role : Role) (key : CacheKey) (code : α) :
    e.settle role key (.ok code) =
      let kept := Engine.keep { e with stats := e.stats.recordCompilation 0 } role key code
      (.ok kept.1, kept.2) := rfl

/-- What is kept stays, and another code is dropped. -/
theorem keep_of_kept? {kept : α} (hkept : e.kept? role key = some kept) (code : α) :
    e.keep role key code = (kept, e) := by
  have hget : (e.cache role).get? key = some kept := hkept
  cases role <;> simp only [keep, Cache.insert_of_get? hget] <;> rfl

variable {e' : Engine α} {result reply : Except SynthesisError α}

/-- The code is kept if nothing was kept for the key. -/
theorem kept?_of_settle (hsettle : e.settle role key result = (reply, e')) (role' : Role)
    (key' : CacheKey) : e'.kept? role' key' =
      (e.kept? role' key').or (if role' = role ∧ key' = key then result.toOption else none) := by
  cases result with
  | error error =>
      cases hsettle
      rw [kept?_stats]
      simp [Except.toOption]
  | ok code =>
      rw [settle_ok, Prod.mk.injEq] at hsettle
      obtain ⟨-, rfl⟩ := hsettle
      rcases hkept : kept? { e with stats := e.stats.recordCompilation 0 } role key with _ | kept
      · rw [kept?_keep hkept, kept?_stats]
        rfl
      · rw [keep_of_kept? hkept, kept?_stats]
        by_cases hsame : role' = role ∧ key' = key
        · obtain ⟨rfl, rfl⟩ := hsame
          rw [kept?_stats] at hkept
          rw [hkept]
          rfl
        · rw [if_neg hsame, Option.or_none]

/-- The code that is told is the one that is kept. -/
theorem kept?_of_settle_ok {code : α} (hsettle : e.settle role key result = (.ok code, e')) :
    e'.kept? role key = some code := by
  cases result with
  | error error => cases hsettle
  | ok made =>
      rw [settle_ok, Prod.mk.injEq, Except.ok.injEq] at hsettle
      obtain ⟨rfl, rfl⟩ := hsettle
      cases role <;> exact Cache.get?_insert_self _ key made

/-- A request is answered with code if synthesis came to code, and only then. -/
theorem settle_isOk (hsettle : e.settle role key result = (reply, e')) :
    (∃ code, reply = .ok code) ↔ ∃ code, result = .ok code := by
  cases result with
  | error error =>
      cases hsettle
      simp
  | ok made =>
      rw [settle_ok, Prod.mk.injEq] at hsettle
      simp [← hsettle.1]

end Engine

/-- What is kept does not change while a trampoline is made. -/
theorem kept?_of_synthesize {compiler : Compiler α} {role : Role} {d : DeclId} {e : Engine α}
    {service : Nat} {bench : Workbench} {w : Workshop α} {result : Except SynthesisError α}
    (hmade : (synthesize compiler role d).run.run { engine := e, service, bench } = (result, w))
    (role' : Role) (key : CacheKey) : w.engine.kept? role' key = e.kept? role' key := by
  have hspared := Spares.synthesize compiler role d { engine := e, service, bench }
  rw [hmade] at hspared
  exact hspared.kept? role' key

/-! ## What is under way -/

/-- What callers ask for: each request asks for the trampoline of a role for a declaration, and each
deletion names an interpreter, or else means the active one. -/
structure Callers (ι κ : Type) where
  role : ι → Role
  decl : ι → DeclId
  number : κ → Option Nat

/-- What a request looks for in an interpreter. -/
def Callers.key (c : Callers ι κ) (i : ι) (service : Nat) : CacheKey := ⟨service, c.decl i⟩

/-- How far a request has come. -/
inductive Progress (α : Type) where
  | waiting
  /-- It has taken an interpreter. -/
  | holding (service : Nat)
  /-- It has found nothing that is kept. -/
  | missed (service : Nat)
  /-- Synthesis is over. -/
  | made (service : Nat) (result : Except SynthesisError α)
  | answered (service : Nat) (reply : Except SynthesisError α)
  /-- There was no active interpreter. -/
  | refused

/-- The interpreter that a request works with and is not done with. -/
def Progress.underWay? : Progress α → Option Nat
  | holding service | missed service | made service _ => some service
  | waiting | answered .. | refused => none

/-- How far a deletion has come. -/
inductive Removal where
  | waiting
  /-- The interpreter is taken out, and its trampolines are still to be forgotten. -/
  | removed (service : Nat)
  /-- All is done. If there was nothing to delete, no interpreter is told. -/
  | returned (service : Option Nat)

/-- The interpreter that a deletion has taken out. -/
def Removal.service? : Removal → Option Nat
  | waiting => none
  | removed service => some service
  | returned service => service

/-- The interpreters, the engine, and how far everything has come. -/
structure Traffic (ι κ α : Type) where
  registry : Registry Interpreter := {}
  engine : Engine α := {}
  requests : ι → Progress α := fun _ => .waiting
  removals : κ → Removal := fun _ => .waiting

/-- The parts of requests and deletions, and what else befalls interpreters. What an interpreter and
the host are like by the time of a synthesis may depend on whatever else was done with them. -/
inductive Move (ι κ α : Type) where
  | take (i : ι)
  | lookUp (i : ι)
  | make (i : ι) (compiler : Compiler α) (bench : Workbench)
  | keep (i : ι)
  | remove (j : κ)
  | forget (j : κ)
  | register (interpreter : Interpreter)
  | activate (n : Nat)

namespace Traffic

/-- A request has come to some point. -/
def proceed [DecidableEq ι] (t : Traffic ι κ α) (i : ι) (p : Progress α) : Traffic ι κ α :=
  { t with requests := Function.update t.requests i p }

/-- A deletion has come to some point. -/
def carryOn [DecidableEq κ] (t : Traffic ι κ α) (j : κ) (r : Removal) : Traffic ι κ α :=
  { t with removals := Function.update t.removals j r }

theorem requests_proceed [DecidableEq ι] (t : Traffic ι κ α) (i k : ι) (p : Progress α) :
    (t.proceed i p).requests k = if k = i then p else t.requests k :=
  Function.update_apply ..

theorem removals_carryOn [DecidableEq κ] (t : Traffic ι κ α) (j k : κ) (r : Removal) :
    (t.carryOn j r).removals k = if k = j then r else t.removals k :=
  Function.update_apply ..

end Traffic

variable [DecidableEq ι] [DecidableEq κ]

/-- What a part does. -/
inductive Step (c : Callers ι κ) (t : Traffic ι κ α) : Move ι κ α → Traffic ι κ α → Prop
  | take {i : ι} {service : Nat} {interpreter : Interpreter} (hwaiting : t.requests i = .waiting)
      (hactive : t.registry.active? = some (service, interpreter)) :
      Step c t (.take i) (t.proceed i (.holding service))
  | refuse {i : ι} (hwaiting : t.requests i = .waiting) (hvacant : t.registry.active? = none) :
      Step c t (.take i) (t.proceed i .refused)
  | hit {i : ι} {service : Nat} {code : α} (hholding : t.requests i = .holding service)
      (hkept : t.engine.kept? (c.role i) (c.key i service) = some code) :
      Step c t (.lookUp i)
        (Traffic.proceed { t with
          engine := { t.engine with stats := t.engine.stats.recordHit } } i
          (.answered service (.ok code)))
  | miss {i : ι} {service : Nat} (hholding : t.requests i = .holding service)
      (hfree : t.engine.kept? (c.role i) (c.key i service) = none) :
      Step c t (.lookUp i) (t.proceed i (.missed service))
  | make {i : ι} {service : Nat} {compiler : Compiler α} {bench : Workbench}
      {result : Except SynthesisError α} {w : Workshop α} (hmissed : t.requests i = .missed service)
      (hmade : (synthesize compiler (c.role i) (c.decl i)).run.run
        { engine := t.engine, service, bench } = (result, w)) :
      Step c t (.make i compiler bench)
        (Traffic.proceed { t with
          engine := w.engine
          registry := t.registry.replace service w.bench.interpreter } i (.made service result))
  | keep {i : ι} {service : Nat} {result reply : Except SynthesisError α} {engine : Engine α}
      (hmade : t.requests i = .made service result)
      (hsettle : t.engine.settle (c.role i) (c.key i service) result = (reply, engine)) :
      Step c t (.keep i) (Traffic.proceed { t with engine } i (.answered service reply))
  | remove {j : κ} {service : Nat} {registry : Registry Interpreter}
      (hwaiting : t.removals j = .waiting)
      (hdelete : t.registry.delete? (c.number j) = some (service, registry)) :
      Step c t (.remove j) (Traffic.carryOn { t with registry } j (.removed service))
  | lack {j : κ} (hwaiting : t.removals j = .waiting)
      (hdelete : t.registry.delete? (c.number j) = none) :
      Step c t (.remove j) (t.carryOn j (.returned none))
  | forget {j : κ} {service : Nat} (hremoved : t.removals j = .removed service) :
      Step c t (.forget j)
        (Traffic.carryOn { t with engine := t.engine.forget service } j (.returned (some service)))
  | register (interpreter : Interpreter) :
      Step c t (.register interpreter) { t with registry := t.registry.register interpreter }
  | activate {n : Nat} {registry : Registry Interpreter}
      (hactivate : t.registry.activate? n = some registry) :
      Step c t (.activate n) { t with registry }

/-- Some parts one after the other, those of different requests and deletions in any order. -/
inductive Run (c : Callers ι κ) : Traffic ι κ α → List (Move ι κ α) → Traffic ι κ α → Prop
  | nil (t : Traffic ι κ α) : Run c t [] t
  | cons {t t' t'' : Traffic ι κ α} {move : Move ι κ α} {moves : List (Move ι κ α)}
      (hstep : Step c t move t') (hrun : Run c t' moves t'') : Run c t (move :: moves) t''

variable {c : Callers ι κ} {t t' t'' : Traffic ι κ α} {move : Move ι κ α}
  {moves : List (Move ι κ α)}

/-- What each part of a run preserves, the run does. -/
theorem Run.invariant {P : Traffic ι κ α → Prop} (hrun : Run c t moves t')
    (hstep : ∀ move ∈ moves, ∀ {t t'}, Step c t move t' → P t → P t') (ht : P t) : P t' := by
  induction hrun with
  | nil _ => exact ht
  | cons hfirst _ ih =>
      refine ih (fun move hmove => hstep move (List.mem_cons_of_mem _ hmove)) ?_
      exact hstep _ List.mem_cons_self hfirst ht

/-! ## Parts without anything in between -/

/-- The parts of a request, one right after the other, come to what the engine does to serve it. -/
theorem exists_run_of_serve {i : ι} {service : Nat} {interpreter : Interpreter}
    {compiler : Compiler α} {bench : Workbench} {reply : Except SynthesisError α} {w : Workshop α}
    (hwaiting : t.requests i = .waiting)
    (hactive : t.registry.active? = some (service, interpreter))
    (hserve : (serve compiler (c.role i) (c.decl i)).run.run
      { engine := t.engine, service, bench } = (reply, w)) :
    ∃ moves t', Run c t moves t' ∧ t'.requests i = .answered service reply ∧
      t'.engine = w.engine := by
  have hproceed (t : Traffic ι κ α) (p : Progress α) : (t.proceed i p).requests i = p := by
    rw [Traffic.requests_proceed, if_pos rfl]
  have htake := Step.take (c := c) hwaiting hactive
  obtain ⟨code, hkept, hserve'⟩ | ⟨hfree, hmade⟩ := serve_cases compiler (c.role i) (c.decl i)
    { engine := t.engine, service, bench }
  · -- What is kept is found at once.
    cases hserve.symm.trans hserve'
    exact ⟨_, _, .cons htake (.cons (.hit (hproceed _ _) hkept) (.nil _)), hproceed _ _, rfl⟩
  · have hmiss : Step c (t.proceed i (.holding service)) _ _ := .miss (hproceed _ _) hfree
    obtain ⟨code, w', hmade, hspared, hserve'⟩ | ⟨error, w', hmade, -, hserve'⟩ := hmade
    · cases hserve.symm.trans hserve'
      have hkeep : (w'.engine.settle (c.role i) (c.key i service) (.ok code)).1 = .ok code := by
        refine congrArg Except.ok (Engine.keep_of_free ?_ code)
        rw [Engine.kept?_stats]
        exact (hspared.kept? _ _).trans hfree
      exact ⟨_, _, .cons htake (.cons hmiss (.cons (.make (hproceed _ _) hmade)
        (.cons (.keep (hproceed _ _) (Prod.ext hkeep rfl)) (.nil _)))), hproceed _ _, rfl⟩
    · cases hserve.symm.trans hserve'
      exact ⟨_, _, .cons htake (.cons hmiss (.cons (.make (hproceed _ _) hmade)
        (.cons (.keep (hproceed _ _) rfl) (.nil _)))), hproceed _ _, rfl⟩

/-- The parts of a deletion, one right after the other, come to what a session does to delete an
interpreter. -/
theorem exists_run_of_delete {t : Traffic ι κ MachineCode} {j : κ} {s : Session}
    (hwaiting : t.removals j = .waiting) (hregistry : t.registry = s.registry)
    (hengine : t.engine = s.engine) :
    ∃ moves t', Run c t moves t' ∧
      t'.registry = ((Session.deleteInterpreter (c.number j)).run s).2.registry ∧
      t'.engine = ((Session.deleteInterpreter (c.number j)).run s).2.engine := by
  rw [Session.run_deleteInterpreter, ← hregistry, ← hengine]
  cases hdelete : t.registry.delete? (c.number j) with
  | none => exact ⟨_, _, .cons (.lack hwaiting hdelete) (.nil _), hregistry, hengine⟩
  | some deleted =>
      have hremoved : (Traffic.carryOn { t with registry := deleted.2 } j
          (.removed deleted.1)).removals j = .removed deleted.1 := by
        rw [Traffic.removals_carryOn, if_pos rfl]
      exact ⟨_, _, .cons (.remove hwaiting hdelete) (.cons (.forget hremoved) (.nil _)), rfl, rfl⟩

/-! ## One trampoline for all -/

/-- No part but forgetting drops what is kept. -/
theorem Step.kept? (hstep : Step c t move t') (hmove : ∀ j, move ≠ .forget j) {role : Role}
    {key : CacheKey} {code : α} (hkept : t.engine.kept? role key = some code) :
    t'.engine.kept? role key = some code := by
  cases hstep with
  | hit _ _ => exact (Engine.kept?_stats _ _ role key).trans hkept
  | make _ hmade => exact (kept?_of_synthesize hmade role key).trans hkept
  | keep _ hsettle =>
      refine (Engine.kept?_of_settle hsettle role key).trans ?_
      rw [hkept]
      rfl
  | forget _ => exact absurd rfl (hmove _)
  | take _ _ | refuse _ _ | miss _ _ | remove _ _ | lack _ _ | register _ | activate _ =>
      exact hkept

theorem Run.kept? (hrun : Run c t moves t') (hmoves : ∀ j, .forget j ∉ moves) {role : Role}
    {key : CacheKey} {code : α} (hkept : t.engine.kept? role key = some code) :
    t'.engine.kept? role key = some code := by
  refine hrun.invariant (fun move hmove _ _ hstep => hstep.kept? ?_) hkept
  rintro j rfl
  exact hmoves j hmove

/-- A request that is answered with code is answered with what is kept. -/
theorem Step.kept?_of_answer (hstep : Step c t move t') {i : ι} {service : Nat} {code : α}
    (hbefore : t.requests i ≠ .answered service (.ok code))
    (hafter : t'.requests i = .answered service (.ok code)) :
    t'.engine.kept? (c.role i) (c.key i service) = some code := by
  cases hstep with
  | hit _ hkept =>
      rw [Traffic.requests_proceed] at hafter
      split at hafter
      next hsame =>
        cases hafter
        subst hsame
        exact (Engine.kept?_stats _ _ _ _).trans hkept
      next => exact absurd hafter hbefore
  | keep _ hsettle =>
      rw [Traffic.requests_proceed] at hafter
      split at hafter
      next hsame =>
        cases hafter
        subst hsame
        exact Engine.kept?_of_settle_ok hsettle
      next => exact absurd hafter hbefore
  | take _ _ | refuse _ _ | miss _ _ | make _ _ =>
      rw [Traffic.requests_proceed] at hafter
      split at hafter
      next => cases hafter
      next => exact absurd hafter hbefore
  | remove _ _ | lack _ _ | forget _ | register _ | activate _ => exact absurd hafter hbefore

/-- What requests were answered with is kept. -/
def Traffic.Agreed (c : Callers ι κ) (t : Traffic ι κ α) : Prop :=
  ∀ i service code, t.requests i = .answered service (.ok code) →
    t.engine.kept? (c.role i) (c.key i service) = some code

/-- As long as nothing is forgotten, what requests were answered with stays. -/
theorem Step.agreed (hstep : Step c t move t') (hmove : ∀ j, move ≠ .forget j)
    (hagreed : t.Agreed c) : t'.Agreed c := by
  intro i service code hcode
  -- An old answer is kept because nothing is dropped, a new one because of how it came about.
  by_cases hbefore : t.requests i = .answered service (.ok code)
  · exact hstep.kept? hmove (hagreed i service code hbefore)
  · exact hstep.kept?_of_answer hbefore hcode

theorem Run.agreed (hrun : Run c t moves t') (hmoves : ∀ j, .forget j ∉ moves)
    (hagreed : t.Agreed c) : t'.Agreed c := by
  refine hrun.invariant (fun move hmove _ _ hstep => hstep.agreed ?_) hagreed
  rintro j rfl
  exact hmoves j hmove

/-- However requests overlap, as long as nothing is forgotten all those for the trampoline of a role
for a declaration of an interpreter that succeed are answered with the same code, and that is what
every later look-up finds. -/
theorem Run.answers_agree {later : List (Move ι κ α)} (hwaiting : ∀ i, t.requests i = .waiting)
    (hrun : Run c t moves t') (hmoves : ∀ j, .forget j ∉ moves) (hlater : Run c t' later t'')
    (hlater' : ∀ j, .forget j ∉ later) {i k : ι} (hrole : c.role i = c.role k)
    (hdecl : c.decl i = c.decl k) {service : Nat} {a b : α}
    (hi : t'.requests i = .answered service (.ok a))
    (hk : t'.requests k = .answered service (.ok b)) :
    a = b ∧ t''.engine.kept? (c.role i) ⟨service, c.decl i⟩ = some a := by
  -- To begin with nothing is answered, so that all answers agree with what is kept.
  have hagreed : t'.Agreed c := by
    refine hrun.agreed hmoves fun i service code hcode => ?_
    rw [hwaiting i] at hcode
    cases hcode
  have ha := hagreed i service a hi
  have hb := hagreed k service b hk
  rw [Callers.key, ← hrole, ← hdecl] at hb
  exact ⟨Option.some.inj (ha.symm.trans hb), hlater.kept? hlater' ha⟩

section Lamp

/-- A model with a class. -/
def lampModel : Model :=
  ((Model.addDecl Model.root "Lamp" .none (.record { tag := .struct })).run .empty).2

/-- An interpreter for that model. -/
def lampBench : Workbench where
  interpreter := { model := lampModel, backend := .rehearsed {} }
  host := default

/-- Two requests for the destructor trampoline of the class, and a deletion of what is active. -/
def lampCallers : Callers Bool Unit where
  role _ := .destruction
  decl _ := ⟨1⟩
  number _ := none

/-- A compiler that places what it compiles at an address. -/
def placedAt (address : Nat) : Compiler Nat := fun _ => return some address

theorem synthesize_lamp (e : Engine Nat) (address : Nat) :
    let made := (synthesize (placedAt address) .destruction ⟨1⟩).run.run
      { engine := e, service := 1, bench := lampBench }
    made = (.ok address, made.2) := rfl

/-- Two requests find nothing, both have a trampoline made, and both keep what was made. -/
def lampRace : List (Move Bool Unit Nat) :=
  [.take false, .take true, .lookUp false, .lookUp true, .make false (placedAt 4096) lampBench,
    .make true (placedAt 8192) lampBench, .keep false, .keep true]

theorem run_lampRace : ∃ t : Traffic Bool Unit Nat,
    Run lampCallers { registry := Registry.register {} lampBench.interpreter } lampRace t ∧
      t.requests false = .answered 1 (.ok 4096) ∧ t.requests true = .answered 1 (.ok 4096) :=
  ⟨_, .cons (.take rfl rfl) <| .cons (.take rfl rfl) <| .cons (.miss rfl rfl) <|
    .cons (.miss rfl rfl) <| .cons (.make rfl (synthesize_lamp _ _)) <|
    .cons (.make rfl (synthesize_lamp _ _)) <| .cons (.keep rfl rfl) <|
    .cons (.keep rfl rfl) <| .nil _, rfl, rfl⟩

/-- Both requests are answered with the trampoline that was kept first, and so is any later one. -/
theorem Run.answers_agree_lamp : ∃ t : Traffic Bool Unit Nat,
    Run lampCallers { registry := Registry.register {} lampBench.interpreter } lampRace t ∧
      t.requests false = .answered 1 (.ok 4096) ∧ t.requests true = .answered 1 (.ok 4096) ∧
      t.engine.kept? .destruction ⟨1, ⟨1⟩⟩ = some 4096 := by
  obtain ⟨t, hrun, hfalse, htrue⟩ := run_lampRace
  have hagree := hrun.answers_agree (i := false) (k := true) (fun _ => rfl) (by simp [lampRace])
    (.nil t) (by simp) rfl rfl hfalse htrue
  exact ⟨t, hrun, hfalse, htrue, hagree.2⟩

end Lamp

end Trampoline

end CppReflect
