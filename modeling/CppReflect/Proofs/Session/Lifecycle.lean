import CppReflect.Proofs.Session.Settled
import Mathlib.Data.List.Range

/-!
# The life of interpreters

What callers have done to the interpreters of a session is a history: interpreters were registered,
made active and deleted. The history alone tells which interpreters there are, which of them is
active, and what the next call does to them. A session fits its history at any time, and it keeps
trampolines only for the interpreters that are left.
-/

namespace CppReflect.Session

/-! ## Histories -/

/-- What a caller has done to an interpreter. -/
inductive Change where
  | registered (n : Nat)
  | activated (n : Nat)
  | deleted (n : Nat)
deriving DecidableEq, Repr

namespace Change

/-- The interpreter that was registered. -/
def registration? : Change → Option Nat
  | registered n => some n
  | activated _ | deleted _ => none

/-- The interpreter that was deleted. -/
def deletion? : Change → Option Nat
  | deleted n => some n
  | registered _ | activated _ => none

end Change

/-- The interpreters that were registered, the first one first. -/
def registeredIn (h : List Change) : List Nat := h.filterMap Change.registration?

/-- The interpreters that were deleted. -/
def deletedIn (h : List Change) : List Nat := h.filterMap Change.deletion?

/-- The interpreters that were registered and not deleted, in the order of their registration. -/
def survivors (h : List Change) : List Nat := (registeredIn h).filter fun n => n ∉ deletedIn h

/-- The active interpreter: what was last registered or activated, unless something was deleted
since, and then the newest survivor. -/
def current (h : List Change) : Option Nat :=
  match h.getLast? with
  | none => none
  | some (.registered n) | some (.activated n) => some n
  | some (.deleted _) => (survivors h).getLast?

/-- What a number names: an interpreter that is left, or nothing. -/
def survivor? (h : List Change) (number : Option Nat) : Option Nat :=
  number.filter (· ∈ survivors h)

theorem survivor?_mem {h : List Change} {number : Option Nat} {n : Nat}
    (hn : survivor? h number = some n) : n ∈ survivors h := by
  rw [survivor?, Option.filter_eq_some_iff] at hn
  exact of_decide_eq_true hn.2

section

variable (h : List Change) (n : Nat)

@[simp] theorem registeredIn_registered :
    registeredIn (h ++ [.registered n]) = registeredIn h ++ [n] := by
  simp [registeredIn, Change.registration?]

@[simp] theorem registeredIn_activated : registeredIn (h ++ [.activated n]) = registeredIn h := by
  simp [registeredIn, Change.registration?]

@[simp] theorem registeredIn_deleted : registeredIn (h ++ [.deleted n]) = registeredIn h := by
  simp [registeredIn, Change.registration?]

@[simp] theorem deletedIn_registered : deletedIn (h ++ [.registered n]) = deletedIn h := by
  simp [deletedIn, Change.deletion?]

@[simp] theorem deletedIn_activated : deletedIn (h ++ [.activated n]) = deletedIn h := by
  simp [deletedIn, Change.deletion?]

@[simp] theorem deletedIn_deleted : deletedIn (h ++ [.deleted n]) = deletedIn h ++ [n] := by
  simp [deletedIn, Change.deletion?]

theorem survivors_registered (hnew : n ∉ deletedIn h) :
    survivors (h ++ [.registered n]) = survivors h ++ [n] := by
  simp [survivors, hnew]

@[simp] theorem survivors_activated : survivors (h ++ [.activated n]) = survivors h := by
  simp [survivors]

@[simp] theorem survivors_deleted :
    survivors (h ++ [.deleted n]) = (survivors h).filter (· != n) := by
  simp only [survivors, registeredIn_deleted, deletedIn_deleted, List.filter_filter]
  refine List.filter_congr fun k _ => ?_
  by_cases hk : k = n <;> simp [hk]

@[simp] theorem current_registered : current (h ++ [.registered n]) = some n := by
  simp [current]

@[simp] theorem current_activated : current (h ++ [.activated n]) = some n := by
  simp [current]

theorem current_deleted :
    current (h ++ [.deleted n]) = (survivors (h ++ [.deleted n])).getLast? := by
  simp [current]

example : current [.registered 1, .registered 2, .registered 3, .activated 1, .deleted 3] =
    some 2 := by decide

end

/-- A history that a session can have: numbers are handed out in a row, and what is deleted or made
active was there. -/
structure Orderly (h : List Change) : Prop where
  numbered : registeredIn h = List.range' 1 (registeredIn h).length
  past : ∀ n ∈ deletedIn h, n ∈ registeredIn h
  current_mem : ∀ n, current h = some n → n ∈ survivors h
  vacant : current h = none → survivors h = []

namespace Orderly

variable {h : List Change} {n : Nat}

theorem start : Orderly [] where
  numbered := rfl
  past _ hn := nomatch hn
  current_mem _ hn := nomatch hn
  vacant _ := rfl

/-- The number that the next interpreter gets was never handed out. -/
theorem not_mem_registeredIn (ho : Orderly h) :
    (registeredIn h).length + 1 ∉ registeredIn h := by
  rw [ho.numbered]
  simp [Nat.add_comm]

theorem register (ho : Orderly h) : Orderly (h ++ [.registered ((registeredIn h).length + 1)]) := by
  have hnew : (registeredIn h).length + 1 ∉ deletedIn h := fun hn =>
    ho.not_mem_registeredIn (ho.past _ hn)
  refine ⟨?_, ?_, ?_, ?_⟩
  · -- The new number is the next one of the row.
    rw [registeredIn_registered, List.length_append, List.length_singleton, List.range'_concat,
      ← ho.numbered, Nat.one_mul, Nat.add_comm 1]
  · intro n hn
    rw [deletedIn_registered] at hn
    rw [registeredIn_registered]
    exact List.mem_append_left _ (ho.past n hn)
  · rintro n hn
    rw [current_registered, Option.some.injEq] at hn
    rw [survivors_registered h _ hnew, hn]
    exact List.mem_append_right _ (List.mem_singleton_self n)
  · intro hnone
    rw [current_registered] at hnone
    cases hnone

theorem activate (ho : Orderly h) (hn : n ∈ survivors h) : Orderly (h ++ [.activated n]) := by
  refine ⟨?_, ?_, ?_, ?_⟩
  · simpa using ho.numbered
  · simpa using ho.past
  · rintro k hk
    rw [current_activated, Option.some.injEq] at hk
    rw [survivors_activated]
    exact hk ▸ hn
  · intro hnone
    rw [current_activated] at hnone
    cases hnone

theorem delete (ho : Orderly h) (hn : n ∈ survivors h) : Orderly (h ++ [.deleted n]) := by
  refine ⟨?_, ?_, ?_, ?_⟩
  · simpa using ho.numbered
  · intro k hk
    rw [deletedIn_deleted, List.mem_append, List.mem_singleton] at hk
    rw [registeredIn_deleted]
    rcases hk with hk | rfl
    · exact ho.past k hk
    · exact List.mem_of_mem_filter hn
  · intro k hk
    rw [current_deleted] at hk
    exact List.mem_of_getLast? hk
  · intro hnone
    rw [current_deleted] at hnone
    exact List.getLast?_eq_none_iff.mp hnone

end Orderly

/-! ## Calls -/

/-- What a caller may do: register an interpreter that was started elsewhere, have a trampoline
made, or carry out the operation of some name. -/
inductive Call where
  | register (i : Interpreter)
  | obtain (role : Trampoline.Role) (d : DeclId)
  | operation (name : String) (args : Arguments)

namespace Call

/-- Does what a call is for. -/
def run : Call → SessionM Reply
  | register i => return .interpreter (some (← Session.register i))
  | obtain role d => do
    let _ ← withEngine (Trampoline.obtain role d).run
    return .nothing
  | operation name args => ((Operation.named? name).map (·.run args)).getD (return .nothing)

/-- What a call does to the interpreters, by the history so far. The null handle names the active
interpreter where one is deleted, and none where one is made active. -/
def change? (h : List Change) : Call → Option Change
  | register _ => some (.registered ((registeredIn h).length + 1))
  | obtain .. => none
  | operation name args =>
    let number := args.interpreter "interp"
    if name = "CreateInterpreter" then some (.registered ((registeredIn h).length + 1))
    else if name = "DeleteInterpreter" then
      (survivor? h (number.or (current h))).map .deleted
    else if name = "ActivateInterpreter" ∨ name = "UseExternalInterpreter" then
      (survivor? h number).map .activated
    else none

end Call

/-- The session after some calls. -/
def after (s : Session) (calls : List Call) : Session :=
  calls.foldl (fun s call => (call.run.run s).2) s

section

variable {s : Session} {h : List Change}

theorem deleteInterpreter_eq (number : Option Nat) : (deleteInterpreter number).run s =
    match (number.or s.registry.active).filter (· ∈ s.registry.numbers) with
    | some n => (true, { s with registry := s.registry.without n, engine := s.engine.forget n })
    | none => (false, s) := by
  rw [run_deleteInterpreter, Registry.delete?_eq]
  cases number.or s.registry.active with
  | none => rfl
  | some n => by_cases hn : n ∈ s.registry.numbers <;> simp [Option.filter, hn]

theorem activate_eq (number : Option Nat) : (Operation.activate number).run s =
    match number.filter (· ∈ s.registry.numbers) with
    | some n => (true, { s with registry := { s.registry with active := some n } })
    | none => (false, s) := by
  cases number with
  | none => rfl
  | some n =>
      change (Session.activate n).run s = _
      rw [Session.activate, StateT.run_modifyGet, Registry.activate?_eq]
      by_cases hn : n ∈ s.registry.numbers <;> simp [Option.filter, hn] <;> rfl

end

/-! ## Every run -/

/-- A session fits what was done to its interpreters. -/
structure Fits (s : Session) (h : List Change) : Prop where
  /-- There are the interpreters that were registered and not deleted, in that order. -/
  numbers : s.registry.numbers = survivors h
  active : s.registry.active = current h
  next : s.registry.next = (registeredIn h).length + 1
  /-- Trampolines are kept for interpreters that there are. -/
  cached : ∀ role entry, entry ∈ (s.engine.cache role).entries → entry.1.service ∈ survivors h

namespace Fits

variable {s s' : Session} {h : List Change} {n : Nat}

theorem start (config : Config) (host : Host) : Fits { config, host } [] where
  numbers := rfl
  active := rfl
  next := rfl
  cached role _ hentry := by cases role <;> cases hentry

theorem settle (hfits : s.Fits h) (hsettled : s.Settled s') : s'.Fits h where
  numbers := hsettled.numbers.trans hfits.numbers
  active := hsettled.active.trans hfits.active
  next := hsettled.next.trans hfits.next
  cached role entry hentry :=
    (hsettled.added role entry hentry).elim (hfits.cached role entry) fun hnumber =>
      hfits.numbers ▸ hnumber

theorem register (hfits : s.Fits h) (ho : Orderly h) (i : Interpreter) :
    Fits { s with registry := s.registry.register i }
      (h ++ [.registered ((registeredIn h).length + 1)]) := by
  have hnew : (registeredIn h).length + 1 ∉ deletedIn h := fun hn =>
    ho.not_mem_registeredIn (ho.past _ hn)
  refine ⟨?_, ?_, ?_, fun role entry hentry => ?_⟩
  · rw [Registry.numbers_register, survivors_registered h _ hnew, hfits.numbers, hfits.next]
  · rw [Registry.active_register, current_registered, hfits.next]
  · rw [Registry.next_register, registeredIn_registered, hfits.next, List.length_append]
    rfl
  · rw [survivors_registered h _ hnew]
    exact List.mem_append_left _ (hfits.cached role entry hentry)

theorem activate (hfits : s.Fits h) (n : Nat) :
    Fits { s with registry := { s.registry with active := some n } } (h ++ [.activated n]) where
  numbers := hfits.numbers.trans (survivors_activated h n).symm
  active := (current_activated h n).symm
  next := by rw [registeredIn_activated, ← hfits.next]
  cached role entry hentry := by
    rw [survivors_activated]
    exact hfits.cached role entry hentry

/-- A deleted interpreter takes its trampolines with it. -/
theorem delete (hfits : s.Fits h) (n : Nat) :
    Fits { s with registry := s.registry.without n, engine := s.engine.forget n }
      (h ++ [.deleted n]) where
  numbers := by rw [Registry.numbers_without, survivors_deleted, hfits.numbers]
  active := by
    rw [Registry.active_without, Registry.numbers_without, current_deleted, survivors_deleted,
      hfits.numbers]
  next := by rw [registeredIn_deleted, ← hfits.next, Registry.next_without]
  cached role entry hentry := by
    have hleft : entry ∈ (s.engine.cache role).entries ∧ entry.1.service ≠ n := by
      cases role <;> exact (List.mem_filter.mp hentry).imp_right bne_iff_ne.mp
    rw [survivors_deleted, List.mem_filter]
    exact ⟨hfits.cached role entry hleft.1, bne_iff_ne.mpr hleft.2⟩

/-! ### Calls -/

/-- An interpreter is deleted if the history says that it is there. -/
theorem deleteInterpreter (hfits : s.Fits h) (number : Option Nat) :
    (Session.deleteInterpreter number).run s =
      match survivor? h (number.or (current h)) with
      | some n => (true, { s with registry := s.registry.without n, engine := s.engine.forget n })
      | none => (false, s) := by
  rw [deleteInterpreter_eq, hfits.active, hfits.numbers]
  rfl

/-- An interpreter is made active if the history says that it is there. -/
theorem activateInterpreter (hfits : s.Fits h) (number : Option Nat) :
    (Operation.activate number).run s =
      match survivor? h number with
      | some n => (true, { s with registry := { s.registry with active := some n } })
      | none => (false, s) := by
  rw [activate_eq, hfits.numbers]
  rfl

theorem creation (hfits : s.Fits h) (ho : Orderly h) (args : List String) :
    Fits ((createInterpreter args).run s).2
      (h ++ [.registered ((registeredIn h).length + 1)]) :=
  let start := Interpreter.start s.config.toolchain (args ++ s.config.extraInterpreterArgs)
  (hfits.settle (Settles.onHost start s)).register ho (start.run s.host).1

theorem deletion (hfits : s.Fits h) (ho : Orderly h) (number : Option Nat) :
    Orderly (h ++ ((survivor? h (number.or (current h))).map Change.deleted).toList) ∧
      Fits ((Session.deleteInterpreter number).run s).2
        (h ++ ((survivor? h (number.or (current h))).map Change.deleted).toList) := by
  rw [hfits.deleteInterpreter]
  cases hfound : survivor? h (number.or (current h)) with
  | none => simpa using ⟨ho, hfits⟩
  | some n => exact ⟨ho.delete (survivor?_mem hfound), hfits.delete n⟩

theorem activation (hfits : s.Fits h) (ho : Orderly h) (number : Option Nat) :
    Orderly (h ++ ((survivor? h number).map Change.activated).toList) ∧
      Fits ((Operation.activate number).run s).2
        (h ++ ((survivor? h number).map Change.activated).toList) := by
  rw [hfits.activateInterpreter]
  cases hfound : survivor? h number with
  | none => simpa using ⟨ho, hfits⟩
  | some n => exact ⟨ho.activate (survivor?_mem hfound), hfits.activate n⟩

end Fits

/-- A name that is none of the four leaves the interpreters alone, whether there is an operation of
that name or not. -/
theorem settles_of_name {name : String} (hname : name ∉ Settles.lifecycle) (args : Arguments) :
    Settles (Call.operation name args).run := by
  cases hnamed : Operation.named? name with
  | none =>
      simp only [Call.run, hnamed]
      exact Settles.pure _
  | some op =>
      have hop : op ∈ Operation.table := List.mem_of_find?_eq_some hnamed
      have hsame : op.name = name := by simpa using List.find?_some hnamed
      simp only [Call.run, hnamed]
      exact Settles.operation hop (hsame ▸ hname) args

/-- Whatever is called next, the history stays one that a session can have, and the session fits
it. -/
theorem Fits.call {s : Session} {h : List Change} (hfits : s.Fits h) (ho : Orderly h)
    (call : Call) : Orderly (h ++ (call.change? h).toList) ∧
      Fits (call.run.run s).2 (h ++ (call.change? h).toList) := by
  cases call with
  | register i => exact ⟨ho.register, hfits.register ho i⟩
  | obtain role d =>
      have hsettled := Settles.withEngine
        (Trampoline.Stocks.serve Trampoline.serviceCompiler role d) s
      simpa [Call.change?] using ⟨ho, hfits.settle hsettled⟩
  | operation name args =>
      by_cases hname : name ∈ Settles.lifecycle
      · simp only [Settles.lifecycle, List.mem_cons, List.not_mem_nil, or_false] at hname
        rcases hname with rfl | rfl | rfl | rfl
        · exact ⟨ho.register, hfits.creation ho _⟩
        · exact hfits.deletion ho _
        · exact hfits.activation ho _
        · exact hfits.activation ho _
      · -- No other operation touches the interpreters, so nothing is noted.
        have hnone : (Call.operation name args).change? h = none := by
          simp_all [Settles.lifecycle, Call.change?]
        rw [hnone]
        simpa using ⟨ho, hfits.settle (settles_of_name hname args s)⟩

/-- A session as its history tells it, and what callers see of that. -/
structure Follows (s : Session) (h : List Change) : Prop extends s.Fits h where
  /-- No interpreter is active if and only if none is left. -/
  vacant : current h = none ↔ survivors h = []
  current_mem : ∀ n, current h = some n → n ∈ survivors h
  /-- The active interpreter is told to whoever asks. -/
  shown : ∀ args, ((Call.operation "GetInterpreter" args).run.run s).1 = .interpreter (current h)
  /-- Callers are told whether they have changed something. -/
  told : ∀ name ∈ ["DeleteInterpreter", "ActivateInterpreter"], ∀ args,
    ((Call.operation name args).run.run s).1 =
      .truth ((Call.operation name args).change? h).isSome
  /-- What fails changes nothing. -/
  failed : ∀ name ∈ ["DeleteInterpreter", "ActivateInterpreter", "UseExternalInterpreter"],
    ∀ args, (Call.operation name args).change? h = none →
      ((Call.operation name args).run.run s).2 = s

/-- A session that fits its history goes on fitting it, whatever is called. -/
theorem Fits.after {s : Session} {h : List Change} (hfits : s.Fits h) (ho : Orderly h)
    (calls : List Call) :
    Orderly (calls.foldl (fun h call => h ++ (call.change? h).toList) h) ∧
      Fits (after s calls) (calls.foldl (fun h call => h ++ (call.change? h).toList) h) := by
  induction calls generalizing s h with
  | nil => exact ⟨ho, hfits⟩
  | cons call calls ih =>
      obtain ⟨ho, hfits⟩ := hfits.call ho call
      exact ih hfits ho

end CppReflect.Session
