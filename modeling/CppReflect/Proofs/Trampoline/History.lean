import CppReflect.Trampoline.Engine
import Mathlib.Data.List.DropRight

/-!
# What an engine keeps over a run

An engine is asked for trampolines on behalf of several interpreters, and told to forget some of
them. Each request comes with the interpreter as it is by then and with a compiler that may fail, or
find no address, or find any. The history of a run decides what the engine keeps: the code of the
first request that succeeded since the interpreter was last forgotten.
-/

namespace CppReflect

namespace Trampoline

variable {α β γ : Type}

/-- A computation that fails is followed by nothing. -/
theorem run_bind (x : EngineT α β) (f : β → EngineT α γ) (w : Workshop α) :
    (x >>= f).run.run w =
      match x.run.run w with
      | (.ok b, w') => (f b).run.run w'
      | (.error e, w') => (.error e, w') := by
  change (ExceptT.bindCont f (x.run.run w).1).run (x.run.run w).2 = _
  rcases x.run.run w with ⟨_ | _, _⟩ <;> rfl

theorem run_outcome (x : EngineT α β) (w : Workshop α) :
    (outcome x).run.run w = (.ok (x.run.run w).1, (x.run.run w).2) := rfl

/-! ## Synthesis -/

/-- What was compiled before, the counters and the number of the interpreter are as they were. -/
structure Workshop.Spared (w w' : Workshop α) : Prop where
  cache : ∀ role, w'.engine.cache role = w.engine.cache role
  stats : w'.engine.stats = w.engine.stats
  service : w'.service = w.service

theorem Workshop.Spared.trans {w w' w'' : Workshop α} (h : w.Spared w') (h' : w'.Spared w'') :
    w.Spared w'' where
  cache role := (h'.cache role).trans (h.cache role)
  stats := h'.stats.trans h.stats
  service := h'.service.trans h.service

/-- The computation spares what the engine keeps. -/
def Spares (x : EngineT α β) : Prop := ∀ w : Workshop α, w.Spared (x.run.run w).2

namespace Spares

theorem of_reply {x : EngineT α β} (hx : ∀ w, (x.run.run w).2 = w) : Spares x := by
  intro w
  rw [hx]
  exact ⟨fun _ => rfl, rfl, rfl⟩

theorem pure (b : β) : Spares (pure b : EngineT α β) := of_reply fun _ => rfl

theorem throw (e : SynthesisError) : Spares (throw e : EngineT α β) := of_reply fun _ => rfl

theorem bind {x : EngineT α β} {f : β → EngineT α γ} (hx : Spares x) (hf : ∀ b, Spares (f b)) :
    Spares (x >>= f) := by
  intro w
  have hfirst := hx w
  rw [run_bind]
  generalize x.run.run w = reply at hfirst ⊢
  rcases reply with ⟨e | b, w'⟩
  · exact hfirst
  · exact hfirst.trans (hf b w')

theorem onBench (x : SynthesisM β) : Spares (onBench x : EngineT α β) :=
  fun _ => ⟨fun _ => rfl, rfl, rfl⟩

theorem modelAtWork : Spares (modelAtWork : EngineT α Model) := of_reply fun _ => rfl

/-- Names draw numbers, and nothing else. -/
theorem drafted (e : SynthesisError) (draft : UInt64 → ModelM (Option (β × UInt64))) :
    Spares (drafted e draft : EngineT α β) := by
  have hget : Spares (get : EngineT α (Workshop α)) := of_reply fun _ => rfl
  have hserial (serial : UInt64) : Spares (modifyEngine fun e : Engine α => { e with serial }) :=
    fun _ => ⟨fun role => by cases role <;> rfl, rfl, rfl⟩
  refine hget.bind fun w => (onBench _).bind fun found => ?_
  cases found with
  | none => exact throw e
  | some b => exact (hserial b.2).bind fun _ => pure b.1

theorem compile (compiler : Compiler α) (request : CompileRequest) :
    Spares (compile compiler request) := by
  refine (onBench _).bind fun compiled => ?_
  match compiled with
  | .ok (some code) => exact pure code
  | .ok none => exact throw _
  | .error _ => exact throw _

/-- Making a trampoline spares what was made before. -/
theorem synthesize (compiler : Compiler α) (role : Role) (d : DeclId) :
    Spares (synthesize compiler role d) := by
  cases role with
  | call =>
      refine (onBench _).bind fun _ => (drafted _ _).bind fun _ => modelAtWork.bind fun m => ?_
      exact compile compiler _
  | destruction => exact (drafted _ _).bind fun _ => compile compiler _

end Spares

/-! ## Keeping and forgetting -/

namespace Engine

variable {e : Engine α} {role : Role} {key : CacheKey}

/-- What an engine keeps for a role and a key. -/
def kept? (e : Engine α) (role : Role) (key : CacheKey) : Option α := (e.cache role).get? key

/-- Counting changes nothing of what is kept. -/
theorem kept?_stats (e : Engine α) (stats : Stats) (role : Role) (key : CacheKey) :
    kept? { e with stats } role key = e.kept? role key := by
  cases role <;> rfl

theorem keep_of_free (hfree : e.kept? role key = none) (code : α) :
    (e.keep role key code).1 = code := by
  have hget : (e.cache role).get? key = none := hfree
  cases role <;> simp [keep, Cache.insert, hget]

theorem keep_stats (e : Engine α) (role : Role) (key : CacheKey) (code : α) :
    (e.keep role key code).2.stats = e.stats := by
  cases role <;> rfl

theorem kept?_keep (hfree : e.kept? role key = none) (code : α) (role' : Role) (key' : CacheKey) :
    (e.keep role key code).2.kept? role' key' =
      (e.kept? role' key').or (if role' = role ∧ key' = key then some code else none) := by
  have hinsert := Cache.get?_insert_of_free hfree code key'
  cases role <;> cases role' <;> simp_all [kept?, keep, cache]

theorem kept?_forget (service : Nat) :
    (e.forget service).kept? role key =
      if key.service = service then none else e.kept? role key := by
  cases role <;> exact Cache.get?_forget _ service key

end Engine

theorem Workshop.Spared.kept? {w w' : Workshop α} (h : w.Spared w') (role : Role)
    (key : CacheKey) : w'.engine.kept? role key = w.engine.kept? role key := by
  rw [Engine.kept?, Engine.kept?, h.cache]

/-! ## Answers -/

section Answers

variable {compiler : Compiler α} {role : Role} {d : DeclId} {w : Workshop α}

theorem serve_eq : (serve compiler role d).run.run w =
    match (w.engine.cache role).get? ⟨w.service, d⟩ with
    | some code =>
      (.ok code, { w with engine := { w.engine with stats := w.engine.stats.recordHit } })
    | none =>
      match (synthesize compiler role d).run.run w with
      | (.ok code, w') =>
        let (kept, engine) := Engine.keep
          { w'.engine with stats := w'.engine.stats.recordCompilation 0 } role ⟨w.service, d⟩ code
        (.ok kept, { w' with engine })
      | (.error e, w') =>
        (.error e, { w' with
          engine := { w'.engine with stats := w'.engine.stats.recordFailure } }) := by
  unfold serve
  rw [run_bind]
  change StateT.run (ExceptT.run (match (w.engine.cache role).get? ⟨w.service, d⟩ with
    | some _ => _
    | none => _)) w = _
  cases (w.engine.cache role).get? ⟨w.service, d⟩ with
  | some code => rfl
  | none =>
      simp only
      rw [run_bind, run_outcome]
      generalize (synthesize compiler role d).run.run w = made
      rcases made with ⟨e | code, w'⟩
      · rfl
      · rfl

/-- A request is answered with what is kept, or else with what synthesis comes to, which is kept if
it is code. -/
theorem serve_cases (compiler : Compiler α) (role : Role) (d : DeclId) (w : Workshop α) :
    (∃ code, w.engine.kept? role ⟨w.service, d⟩ = some code ∧
      (serve compiler role d).run.run w =
        (.ok code, { w with engine := { w.engine with stats := w.engine.stats.recordHit } })) ∨
    w.engine.kept? role ⟨w.service, d⟩ = none ∧
      ((∃ code w', (synthesize compiler role d).run.run w = (.ok code, w') ∧ w.Spared w' ∧
          (serve compiler role d).run.run w = (.ok code, { w' with
            engine := (Engine.keep { w'.engine with stats := w'.engine.stats.recordCompilation 0 }
              role ⟨w.service, d⟩ code).2 })) ∨
        ∃ error w', (synthesize compiler role d).run.run w = (.error error, w') ∧ w.Spared w' ∧
          (serve compiler role d).run.run w = (.error error, { w' with
            engine := { w'.engine with stats := w'.engine.stats.recordFailure } })) := by
  have hspared := Spares.synthesize compiler role d w
  rw [serve_eq]
  rcases hkept : w.engine.kept? role ⟨w.service, d⟩ with _ | code
  · have hget : (w.engine.cache role).get? ⟨w.service, d⟩ = none := hkept
    rw [hget]
    refine .inr ⟨rfl, ?_⟩
    rcases hmade : (synthesize compiler role d).run.run w with ⟨error | code, w'⟩
    · rw [hmade] at hspared
      exact .inr ⟨error, w', rfl, hspared, rfl⟩
    · rw [hmade] at hspared
      refine .inl ⟨code, w', rfl, hspared, ?_⟩
      have hfree : Engine.kept? { w'.engine with stats := w'.engine.stats.recordCompilation 0 } role
          ⟨w.service, d⟩ = none := by rw [Engine.kept?_stats, hspared.kept?, hkept]
      exact Prod.ext (congrArg Except.ok (Engine.keep_of_free hfree code)) rfl
  · have hget : (w.engine.cache role).get? ⟨w.service, d⟩ = some code := hkept
    rw [hget]
    exact .inl ⟨code, rfl, rfl⟩

end Answers

/-! ## Runs -/

/-- A request to an engine, with the interpreter as it is by then and what compiles for it; or an
order to forget an interpreter. -/
inductive Event (α : Type) where
  | request (service : Nat) (role : Role) (d : DeclId) (compiler : Compiler α) (bench : Workbench)
  | forget (service : Nat)

/-- What has happened: a request was answered, or an interpreter was forgotten. -/
inductive Entry (α : Type) where
  | answered (role : Role) (key : CacheKey) (reply : Except SynthesisError α)
  | forgotten (service : Nat)

namespace Entry

/-- A request was answered. -/
def isAnswer : Entry α → Bool
  | answered .. => true
  | forgotten _ => false

/-- The interpreter was forgotten. -/
def forgets (service : Nat) : Entry α → Bool
  | answered .. => false
  | forgotten s => s == service

/-- The code that a request for a role and a key was answered with. -/
def code? (role : Role) (key : CacheKey) : Entry α → Option α
  | answered r k (.ok code) => if role = r ∧ key = k then some code else none
  | answered _ _ (.error _) | forgotten _ => none

end Entry

/-- What has happened since an interpreter was last forgotten. -/
def since (service : Nat) (h : List (Entry α)) : List (Entry α) :=
  h.rtakeWhile fun x => !x.forgets service

/-- The code of the first request for a role and a key that succeeded since the interpreter was last
forgotten. -/
def firstCode? (role : Role) (key : CacheKey) (h : List (Entry α)) : Option α :=
  (since key.service h).findSome? (Entry.code? role key)

theorem since_answered (service : Nat) (h : List (Entry α)) (role : Role) (key : CacheKey)
    (reply : Except SynthesisError α) :
    since service (h ++ [.answered role key reply]) =
      since service h ++ [.answered role key reply] :=
  List.rtakeWhile_concat_pos _ _ _ rfl

theorem since_forgotten (service forgotten : Nat) (h : List (Entry α)) :
    since service (h ++ [.forgotten forgotten]) =
      if service = forgotten then [] else since service h ++ [.forgotten forgotten] := by
  unfold since
  rw [List.rtakeWhile_concat]
  by_cases hservice : service = forgotten
  · simp [Entry.forgets, hservice]
  · simp [Entry.forgets, hservice, Ne.symm hservice]

theorem firstCode?_answered (role role' : Role) (key key' : CacheKey) (h : List (Entry α))
    (reply : Except SynthesisError α) :
    firstCode? role key (h ++ [.answered role' key' reply]) =
      (firstCode? role key h).or ((Entry.answered role' key' reply).code? role key) := by
  unfold firstCode?
  rw [since_answered, List.findSome?_append]
  simp

theorem firstCode?_forgotten (role : Role) (key : CacheKey) (h : List (Entry α)) (service : Nat) :
    firstCode? role key (h ++ [.forgotten service]) =
      if key.service = service then none else firstCode? role key h := by
  unfold firstCode?
  rw [since_forgotten]
  split
  · rfl
  · simp [Entry.code?]

/-- Deals with an event, and tells what has happened. -/
def Engine.handle (e : Engine α) : Event α → Entry α × Engine α
  | .request service role d compiler bench =>
    let (reply, w) := (serve compiler role d).run.run { engine := e, service, bench }
    (.answered role ⟨service, d⟩ reply, w.engine)
  | .forget service => (.forgotten service, e.forget service)

/-- Deals with some events, and tells what has happened, the first event first. -/
def Engine.run (e : Engine α) : List (Event α) → List (Entry α) × Engine α
  | [] => ([], e)
  | event :: events =>
    let (x, e) := e.handle event
    let (h, e) := e.run events
    (x :: h, e)

/-- An engine fits what has happened: it keeps the code that came first since the interpreter was
forgotten, every request that succeeded since then was answered with that, and each request was
counted once. -/
structure Engine.Fits (e : Engine α) (h : List (Entry α)) : Prop where
  kept : ∀ role key, e.kept? role key = firstCode? role key h
  constant : ∀ role key code, .answered role key (.ok code) ∈ since key.service h →
    firstCode? role key h = some code
  counted : e.stats.compiled + e.stats.cacheHits + e.stats.failures =
    UInt64.ofNat (h.countP Entry.isAnswer)

/-- The number of requests that were counted. -/
def Stats.requests (s : Stats) : UInt64 := s.compiled + s.cacheHits + s.failures

theorem Stats.requests_recordHit (s : Stats) : s.recordHit.requests = s.requests + 1 := by
  simp only [Stats.requests, Stats.recordHit]
  ac_rfl

theorem Stats.requests_recordCompilation (s : Stats) (time : UInt64) :
    (s.recordCompilation time).requests = s.requests + 1 := by
  simp only [Stats.requests, Stats.recordCompilation]
  ac_rfl

theorem Stats.requests_recordFailure (s : Stats) : s.recordFailure.requests = s.requests + 1 := by
  simp only [Stats.requests, Stats.recordFailure]
  ac_rfl

section

variable (compiler : Compiler α) (role : Role) (d : DeclId) (w : Workshop α)

/-- A request adds its code to what is kept, if it has come to any, and nothing else. -/
theorem serve_kept? (role' : Role) (key : CacheKey) :
    ((serve compiler role d).run.run w).2.engine.kept? role' key =
      (w.engine.kept? role' key).or
        ((Entry.answered role ⟨w.service, d⟩ ((serve compiler role d).run.run w).1).code?
          role' key) := by
  obtain ⟨code, hkept, hserve⟩ | ⟨hfree, ⟨code, w', -, hspared, hserve⟩ |
      ⟨e, w', -, hspared, hserve⟩⟩ := serve_cases compiler role d w
  · rw [hserve, Engine.kept?_stats]
    by_cases hsame : role' = role ∧ key = ⟨w.service, d⟩
    · obtain ⟨rfl, rfl⟩ := hsame
      simp [hkept]
    · simp [Entry.code?, hsame]
  · rw [hserve, Engine.kept?_keep (by rwa [Engine.kept?_stats, hspared.kept?]), Engine.kept?_stats,
      hspared.kept?]
    rfl
  · rw [hserve, Engine.kept?_stats, hspared.kept?]
    simp [Entry.code?]

theorem serve_requests :
    ((serve compiler role d).run.run w).2.engine.stats.requests = w.engine.stats.requests + 1 := by
  obtain ⟨code, hkept, hserve⟩ | ⟨hfree, ⟨code, w', -, hspared, hserve⟩ |
      ⟨e, w', -, hspared, hserve⟩⟩ := serve_cases compiler role d w
  · rw [hserve, Stats.requests_recordHit]
  · rw [hserve, Engine.keep_stats, Stats.requests_recordCompilation, hspared.stats]
  · rw [hserve, Stats.requests_recordFailure, hspared.stats]

/-- A request that succeeds is answered with what is kept from then on. -/
theorem kept?_of_serve_ok {code : α} (hok : ((serve compiler role d).run.run w).1 = .ok code) :
    ((serve compiler role d).run.run w).2.engine.kept? role ⟨w.service, d⟩ = some code := by
  rw [serve_kept?, hok]
  obtain ⟨kept, hkept, hserve⟩ | ⟨hfree, -⟩ := serve_cases compiler role d w
  · rw [hserve] at hok
    cases hok
    simp [hkept]
  · simp [hfree, Entry.code?]

end

/-! ## Every run -/

namespace Engine.Fits

variable {e : Engine α} {h : List (Entry α)}

theorem start : ({} : Engine α).Fits [] where
  kept role _ := by cases role <;> rfl
  constant _ _ _ hcode := by cases hcode
  counted := rfl

theorem forget (hfits : e.Fits h) (service : Nat) :
    (e.forget service).Fits (h ++ [.forgotten service]) where
  kept role key := by
    rw [firstCode?_forgotten, ← hfits.kept]
    exact Engine.kept?_forget service
  constant := by
    intro role key code hcode
    rw [since_forgotten] at hcode
    rw [firstCode?_forgotten]
    split at hcode
    next => cases hcode
    next hother =>
      rw [if_neg hother]
      exact hfits.constant role key code (by simpa using hcode)
  counted := by
    rw [List.countP_append]
    exact hfits.counted

theorem serve {w : Workshop α} (hfits : w.engine.Fits h) (compiler : Compiler α) (role : Role)
    (d : DeclId) : ((serve compiler role d).run.run w).2.engine.Fits
      (h ++ [.answered role ⟨w.service, d⟩ ((serve compiler role d).run.run w).1]) where
  kept role' key := by
    rw [firstCode?_answered, ← hfits.kept, serve_kept?]
  constant := by
    intro role' key code hcode
    rw [since_answered, List.mem_append, List.mem_singleton] at hcode
    rcases hcode with hbefore | hnow
    · rw [firstCode?_answered, hfits.constant role' key code hbefore]
      rfl
    · -- The answer is what the engine keeps by now, and that fits the history by the first part.
      injection hnow with hrole hkey hok
      subst hrole hkey
      rw [firstCode?_answered, ← hfits.kept, ← serve_kept?]
      exact kept?_of_serve_ok compiler role' d w hok.symm
  counted := by
    have hrequests := serve_requests compiler role d w
    rw [Stats.requests, Stats.requests, hfits.counted] at hrequests
    rw [hrequests, List.countP_append, UInt64.ofNat_add]
    rfl

end Engine.Fits

/-- Whatever happens next, the engine fits it. -/
theorem Engine.Fits.handle {e : Engine α} {h : List (Entry α)} (hfits : e.Fits h)
    (event : Event α) : (e.handle event).2.Fits (h ++ [(e.handle event).1]) := by
  cases event with
  | request service role d compiler bench =>
      exact Fits.serve (w := { engine := e, service, bench }) hfits compiler role d
  | forget service => exact hfits.forget service

theorem Engine.Fits.run {e : Engine α} {h : List (Entry α)} (hfits : e.Fits h)
    (events : List (Event α)) : (e.run events).2.Fits (h ++ (e.run events).1) := by
  induction events generalizing e h with
  | nil => simpa [Engine.run] using hfits
  | cons event events ih =>
      have hrest := ih (hfits.handle event)
      rw [List.append_assoc] at hrest
      exact hrest

/-- How an engine deals with what comes next, once some things have happened: it fits them, and
decides by them which requests need a compiler. -/
structure Engine.Serves (e : Engine α) (h : List (Entry α)) : Prop extends e.Fits h where
  /-- A request that has succeeded since the interpreter was forgotten is answered with the code that
  came first. The compiler does not matter, and the interpreter is left alone. -/
  again : ∀ role service d code, firstCode? role ⟨service, d⟩ h = some code → ∀ compiler bench,
    (serve compiler role d).run.run { engine := e, service, bench } =
      (.ok code, { engine := { e with stats := e.stats.recordHit }, service, bench })
  /-- Any other request is answered with what synthesis comes to. -/
  fresh : ∀ role service d, firstCode? role ⟨service, d⟩ h = none → ∀ compiler bench,
    ((serve compiler role d).run.run { engine := e, service, bench }).1 =
        ((synthesize compiler role d).run.run { engine := e, service, bench }).1 ∧
      ((serve compiler role d).run.run { engine := e, service, bench }).2.bench =
        ((synthesize compiler role d).run.run { engine := e, service, bench }).2.bench
  /-- A request that fails leaves no trace in what is kept, and is a fresh one the next time. -/
  failed : ∀ role service d compiler bench error,
    ((serve compiler role d).run.run { engine := e, service, bench }).1 = .error error →
      (∀ role', ((serve compiler role d).run.run
        { engine := e, service, bench }).2.engine.cache role' = e.cache role') ∧
      firstCode? role ⟨service, d⟩ (h ++ [.answered role ⟨service, d⟩ (.error error)]) = none
  /-- What is forgotten is what was made for the interpreter. -/
  dropped : ∀ service role entry, entry ∈ ((e.forget service).cache role).entries ↔
    entry ∈ (e.cache role).entries ∧ entry.1.service ≠ service

theorem Engine.Fits.serves {e : Engine α} {h : List (Entry α)} (hfits : e.Fits h) :
    e.Serves h where
  toFits := hfits
  again := by
    intro role service d code hcode compiler bench
    rw [← hfits.kept] at hcode
    obtain ⟨kept, hkept, hserve⟩ | ⟨hfree, -⟩ :=
      serve_cases compiler role d { engine := e, service, bench }
    · obtain rfl : kept = code := Option.some.inj (hkept.symm.trans hcode)
      exact hserve
    · cases hfree.symm.trans hcode
  fresh := by
    intro role service d hcode compiler bench
    rw [← hfits.kept] at hcode
    obtain ⟨kept, hkept, -⟩ | ⟨-, ⟨code, w', hmade, -, hserve⟩ | ⟨error, w', hmade, -, hserve⟩⟩ :=
      serve_cases compiler role d { engine := e, service, bench }
    · cases hcode.symm.trans hkept
    · rw [hserve, hmade]
      exact ⟨rfl, rfl⟩
    · rw [hserve, hmade]
      exact ⟨rfl, rfl⟩
  failed := by
    intro role service d compiler bench error herror
    obtain ⟨kept, -, hserve⟩ | ⟨hfree, ⟨code, w', -, -, hserve⟩ | ⟨_, w', -, hspared, hserve⟩⟩ :=
      serve_cases compiler role d { engine := e, service, bench }
    · rw [hserve] at herror
      cases herror
    · rw [hserve] at herror
      cases herror
    · refine ⟨fun role' => ?_, ?_⟩
      · have hcache := hspared.cache role'
        rw [hserve]
        cases role' <;> exact hcache
      · rw [firstCode?_answered, ← hfits.kept]
        simp [Entry.code?, show e.kept? role ⟨service, d⟩ = none from hfree]
  dropped := by
    intro service role entry
    cases role <;> simp [Engine.forget, Engine.cache, Cache.forget]

/-- Whatever an engine was asked for and told to forget, and whatever was compiled for it, it keeps
and serves what its history says, and has counted every request. -/
theorem Engine.run_serves (events : List (Event α)) :
    (({} : Engine α).run events).2.Serves (({} : Engine α).run events).1 :=
  (Engine.Fits.start.run events).serves

end Trampoline

end CppReflect
