import CppReflect.Operation.Table
import CppReflect.Proofs.Session.Basic
import CppReflect.Proofs.Trampoline.History

/-!
# What leaves the interpreters alone

All but four operations leave it as it is which interpreters a session has and which of them is
active. They may add trampolines, but only for interpreters that there are.
-/

namespace CppReflect

/-! ## Trampolines that are added -/

namespace Trampoline

variable {α β γ : Type}

/-- The trampolines of an engine after a keeping are those from before and the one that is kept. -/
theorem Engine.mem_cache_keep {e : Engine α} {role role' : Role} {key : CacheKey} {code : α}
    {entry : CacheKey × α} (h : entry ∈ ((e.keep role key code).2.cache role').entries) :
    entry ∈ (e.cache role').entries ∨ entry.1 = key := by
  have hinsert (c : Cache α) (hentry : entry ∈ (c.insert key code).2.entries) :
      entry ∈ c.entries ∨ entry.1 = key := by
    unfold Cache.insert at hentry
    split at hentry
    next => exact .inl hentry
    next =>
      rw [List.mem_append, List.mem_singleton] at hentry
      exact hentry.imp_right (congrArg Prod.fst)
  cases role <;> cases role' <;> first | exact hinsert _ h | exact .inl h

/-- The engine has worked for one interpreter, and whatever it has added since is for that one. -/
structure Workshop.Stocked (w w' : Workshop α) : Prop where
  service : w'.service = w.service
  added : ∀ role entry, entry ∈ (w'.engine.cache role).entries →
    entry ∈ (w.engine.cache role).entries ∨ entry.1.service = w.service

namespace Workshop.Stocked

variable {w w' w'' : Workshop α}

theorem refl (w : Workshop α) : w.Stocked w := ⟨rfl, fun _ _ => .inl⟩

theorem trans (h : w.Stocked w') (h' : w'.Stocked w'') : w.Stocked w'' where
  service := h'.service.trans h.service
  added role entry hentry :=
    (h'.added role entry hentry).elim (h.added role entry) fun hservice =>
      .inr (hservice.trans h.service)

end Workshop.Stocked

/-- The computation adds trampolines for the interpreter at work only. -/
def Stocks (x : StateM (Workshop α) β) : Prop := ∀ w : Workshop α, w.Stocked (x.run w).2

namespace Stocks

theorem pure (b : β) : Stocks (pure b : StateM (Workshop α) β) := fun w => .refl w

theorem get : Stocks (get : StateM (Workshop α) (Workshop α)) := fun w => .refl w

theorem bind {x : StateM (Workshop α) β} {f : β → StateM (Workshop α) γ} (hx : Stocks x)
    (hf : ∀ b, Stocks (f b)) : Stocks (x >>= f) :=
  fun w => (hx w).trans (hf (x.run w).1 (x.run w).2)

theorem onBench (x : StateM Workbench β) : Stocks (Workshop.onBench x : StateM (Workshop α) β) :=
  fun _ => ⟨rfl, fun _ _ => .inl⟩

/-- A request adds at most the trampoline that it is for. -/
theorem serve (compiler : Compiler α) (role : Role) (d : DeclId) :
    Stocks (serve compiler role d).run := by
  intro w
  obtain ⟨code, -, hserve⟩ | ⟨-, hmade⟩ := serve_cases compiler role d w
  · rw [hserve]
    exact ⟨rfl, fun role' entry hentry => .inl (by cases role' <;> exact hentry)⟩
  · obtain ⟨code, w', -, hspared, hserve⟩ | ⟨error, w', -, hspared, hserve⟩ := hmade
    · rw [hserve]
      refine ⟨hspared.service, fun role' entry hentry => ?_⟩
      refine (Engine.mem_cache_keep hentry).imp (fun hbefore => ?_) (congrArg CacheKey.service)
      rw [← hspared.cache role']
      cases role' <;> exact hbefore
    · rw [hserve]
      refine ⟨hspared.service, fun role' entry hentry => .inl ?_⟩
      rw [← hspared.cache role']
      cases role' <;> exact hentry

theorem callable (func : DeclId) : Stocks (callable func) := by
  refine get.bind fun w => ?_
  dsimp only
  cases w.bench.interpreter.model.function? func with
  | none => exact pure _
  | some info =>
      dsimp only
      split
      · cases (w.bench.interpreter.model.decl func).parent with
        | none => exact pure _
        | some record =>
            refine (serve serviceCompiler .destruction record).bind fun reply => ?_
            cases reply <;> exact pure _
      · refine (onBench _).bind fun _ => (serve serviceCompiler .call func).bind fun reply => ?_
        cases reply <;> exact pure _

end Stocks

end Trampoline

namespace Session

/-! ## Computations that leave the interpreters alone -/

/-- The same interpreters are registered and the same one is active, and trampolines were added for
registered ones only. -/
structure Settled (s s' : Session) : Prop where
  numbers : s'.registry.numbers = s.registry.numbers
  active : s'.registry.active = s.registry.active
  next : s'.registry.next = s.registry.next
  added : ∀ role entry, entry ∈ (s'.engine.cache role).entries →
    entry ∈ (s.engine.cache role).entries ∨ entry.1.service ∈ s.registry.numbers

namespace Settled

variable {s s' s'' : Session}

theorem refl (s : Session) : s.Settled s := ⟨rfl, rfl, rfl, fun _ _ => .inl⟩

theorem trans (h : s.Settled s') (h' : s'.Settled s'') : s.Settled s'' where
  numbers := h'.numbers.trans h.numbers
  active := h'.active.trans h.active
  next := h'.next.trans h.next
  added role entry hentry :=
    (h'.added role entry hentry).elim (h.added role entry) fun hnumber =>
      .inr (h.numbers ▸ hnumber)

end Settled

variable {α β : Type}

/-- The computation neither registers nor deletes nor activates an interpreter, and adds trampolines
for registered ones only. -/
def Settles (x : SessionM α) : Prop := ∀ s : Session, s.Settled (x.run s).2

namespace Settles

theorem pure (a : α) : Settles (pure a : SessionM α) := fun s => .refl s

theorem get : Settles (get : SessionM Session) := fun s => .refl s

theorem bind {x : SessionM α} {f : α → SessionM β} (hx : Settles x) (hf : ∀ a, Settles (f a)) :
    Settles (x >>= f) :=
  fun s => (hx s).trans (hf (x.run s).1 (x.run s).2)

theorem map {x : SessionM α} (f : α → β) (hx : Settles x) : Settles (f <$> x) := hx

/-- What concerns neither the registry nor the engine. -/
theorem of_frame {x : SessionM α} (hregistry : ∀ s, (x.run s).2.registry = s.registry)
    (hengine : ∀ s, (x.run s).2.engine = s.engine) : Settles x := by
  intro s
  refine ⟨?_, ?_, ?_, fun role entry hentry => .inl ?_⟩
  · rw [hregistry]
  · rw [hregistry]
  · rw [hregistry]
  · rwa [← hengine]

/-- What the engine does for the active interpreter, which is registered. -/
theorem withEngine {x : StateM (Trampoline.Workshop MachineCode) α} (hx : Trampoline.Stocks x) :
    Settles (withEngine x) := by
  intro s
  cases hactive : s.registry.active? with
  | none =>
      rw [withEngine_of_vacant hactive]
      exact .refl s
  | some e =>
      obtain ⟨service, interpreter⟩ := e
      have hstocked := hx { engine := s.engine, service, bench := { interpreter, host := s.host } }
      have hservice : service ∈ s.registry.numbers :=
        Registry.mem_numbers_of_get? (Registry.active?_eq_some_iff.mp hactive).2
      rw [withEngine_of_active hactive]
      refine ⟨Registry.numbers_replace, rfl, rfl, fun role entry hentry => ?_⟩
      refine (hstocked.added role entry hentry).imp_right fun hadded => ?_
      rwa [hadded]

theorem withBench (x : StateM Workbench α) : Settles (withBench x) :=
  withEngine (Trampoline.Stocks.onBench x)

theorem withModel (x : ModelM α) : Settles (withModel x) := withBench _

theorem onHost (x : StateM Host α) : Settles (onHost x) := of_frame (fun _ => rfl) fun _ => rfl

theorem note (call : Option Trampoline.NotedCall) : Settles (note call) :=
  of_frame (fun _ => rfl) fun _ => rfl

/-! ### Objects -/

theorem sizeOf (scope : Handle) : Settles (sizeOf scope) := (withBench _).bind fun _ => pure _

theorem allocate (scope : Handle) (count : Nat) : Settles (allocate scope count) := by
  refine (sizeOf scope).bind fun size => ?_
  by_cases hsize : size * max count 1 = 0 ∨ maxStorage < size * max count 1
  · simp only [hsize, if_true]
    exact pure _
  · simp only [hsize, if_false]
    exact of_frame (fun _ => rfl) fun _ => rfl

theorem deallocate (scope : Handle) (address : Option Address) :
    Settles (deallocate scope address) := by
  cases address with
  | none => exact pure _
  | some _ => exact (sizeOf scope).bind fun _ => pure _

theorem callable (func : Handle) : Settles (callable func) := by
  refine get.bind fun s => ?_
  cases s.model?.bind (·.declOfHandle? func) with
  | none => exact pure _
  | some d => exact (withEngine (Trampoline.Stocks.callable d)).bind fun _ => pure _

theorem constructAt (constructor : Trampoline.Callable) (addresses : List Address) :
    Settles (constructAt constructor addresses) := by
  induction addresses with
  | nil => exact pure _
  | cons address rest ih => exact (note _).bind fun _ => ih

theorem construct (scope : Handle) (arena : Option Address) (count : Nat) :
    Settles (construct scope arena count) := by
  refine get.bind fun s => ?_
  cases s.model?.bind (Query.defaultConstructor? · scope) with
  | none => exact pure _
  | some constructor =>
      refine (callable constructor.handle).bind fun constructor => ?_
      cases constructor.isValid with
      | false => exact pure _
      | true =>
          refine (sizeOf scope).bind fun stride => ?_
          have hplaced (base : Address) : Settles (if stride = 0 ∧ 1 < count then
                (Pure.pure none : SessionM (Option Address))
              else do
                Session.constructAt constructor
                  ((List.range (max count 1)).map fun i => base + i * stride)
                Pure.pure (some base)) := by
            split
            · exact pure _
            · exact (constructAt constructor _).bind fun _ => pure _
          cases arena with
          | none =>
              refine (allocate scope count).bind fun base => ?_
              cases base with
              | none => exact pure _
              | some base => exact hplaced base
          | some address => exact hplaced address

theorem destruct (object : Option Address) (scope : Handle) (withFree : Bool) (count : Nat) :
    Settles (destruct object scope withFree count) := by
  cases object with
  | none => exact pure _
  | some address =>
      refine (withModel _).bind fun record => ?_
      cases record.join with
      | none => exact pure _
      | some record =>
          refine (withEngine (Trampoline.Stocks.serve _ .destruction record)).bind fun reply => ?_
          match reply with
          | none | some (.error _) => exact pure _
          | some (.ok code) =>
              refine (note _).bind fun _ => ?_
              cases withFree with
              | false => exact pure _
              | true => exact (deallocate scope (some address)).bind fun _ => pure _

theorem objectText (type : String) (object : Option Object) :
    Settles (objectText type object) := by
  cases object with
  | none => exact pure _
  | some o => exact (withModel _).bind fun _ => pure _

/-! ### Operations -/

/-- An action settles if it does so where it concerns the session as a whole. -/
theorem action {a : Action} (ha : ∀ f, a = .manage f → Settles f) : Settles a.run := by
  cases a with
  | read absent f => exact get.bind fun _ => pure _
  | explore absent way f => exact (withModel _).bind fun _ => pure _
  | intern absent f => exact (withModel _).bind fun _ => pure _
  | ask absent f => exact (withBench _).bind fun _ => pure _
  | manage f => exact ha f rfl

/-- The operations that change which interpreters there are or which of them is active. -/
def lifecycle : List String :=
  ["CreateInterpreter", "DeleteInterpreter", "ActivateInterpreter", "UseExternalInterpreter"]

/-- Questions on declarations and types. -/
theorem question {op : Operation} (hop : op ∈ Operation.scopeOperations ++
      Operation.typeOperations ++ Operation.functionOperations ++ Operation.variableOperations ++
      Operation.templateOperations) (args : Arguments) : Settles (op.run args) := by
  refine action ?_
  revert op
  open Operation in
  simp only [List.forall_mem_append, scopeOperations, typeOperations, functionOperations,
    variableOperations, templateOperations, isKind, isTypeKind, onType, measures, tellsText, lists,
    listsOfClass, finds, findsType, makesType, counts, locates, List.forall_mem_cons,
    List.not_mem_nil, reduceCtorEq, false_implies, implies_true, true_and, and_true,
    Action.manage.injEq, forall_eq']
  refine ⟨fun f hf => ?_, pure _, pure _⟩
  split at hf
  next =>
    injection hf with hf
    exact hf ▸ pure _
  next => cases hf

theorem systemOperation {op : Operation} (hop : op ∈ Operation.systemOperations)
    (hname : op.name ∉ lifecycle) (args : Arguments) : Settles (op.run args) := by
  refine action ?_
  revert op
  open Operation in
  simp only [systemOperations, manages, runsCode, lifecycle, bind_pure_comp, List.mem_cons,
    List.not_mem_nil, or_false, not_or, and_imp, forall_eq_or_imp, String.reduceEq,
    not_false_eq_true, Action.manage.injEq, forall_eq', forall_const, reduceCtorEq,
    IsEmpty.forall_iff, not_true_eq_false, forall_eq, true_and]
  exact ⟨pure _, map _ (of_frame (fun _ => rfl) fun _ => rfl), map _ get, pure _, map _ get,
    map _ (onHost _), map _ (onHost _), map _ (objectText _ _)⟩

theorem objectOperation {op : Operation} (hop : op ∈ Operation.objectOperations)
    (args : Arguments) : Settles (op.run args) := by
  refine action ?_
  revert op
  open Operation in
  simp only [objectOperations, manages, List.forall_mem_cons, List.not_mem_nil, false_implies,
    implies_true, and_true, Action.manage.injEq, forall_eq']
  exact ⟨map _ (allocate _ _), (deallocate _ _).bind fun _ => pure _, map _ (construct _ _ _),
    map _ (destruct _ _ _ _), map _ (callable _)⟩

/-- All operations but four leave the interpreters alone. -/
theorem operation {op : Operation} (hop : op ∈ Operation.table) (hname : op.name ∉ lifecycle)
    (args : Arguments) : Settles (op.run args) := by
  rw [Operation.table, List.mem_append] at hop
  rcases hop with hop | hobject
  · by_cases hsystem : op ∈ Operation.systemOperations
    · exact systemOperation hsystem hname args
    · exact question (by simpa [hsystem] using hop) args
  · exact objectOperation hobject args

end Settles

end Session

end CppReflect
