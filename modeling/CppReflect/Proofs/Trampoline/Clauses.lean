import CppReflect.Trampoline.Engine
import Mathlib.Data.List.Forall2

/-!
# Argument counts of trampolines

A call trampoline has one clause for each number of arguments from the required ones to all of them,
or a single clause without a condition if no argument can be left out. Each call in the clause for
`n` arguments reads the first `n` cells, from the first one to the last. What a callable knows of its
function has the same two bounds, but only the lower one is checked before a call.
-/

namespace CppReflect

namespace Trampoline

/-! ## Answers of computations -/

/-- The computation answers with something that satisfies `P`, whatever state it is run on. -/
def Yields {σ α : Type} (x : StateM σ α) (P : α → Prop) : Prop := ∀ s, P (x.run s).1

namespace Yields

variable {σ α β : Type} {P : α → Prop} {Q : β → Prop}

theorem pure {a : α} (ha : P a) : Yields (pure a : StateM σ α) P := fun _ => ha

theorem bind {x : StateM σ α} {f : α → StateM σ β} (hx : Yields x P)
    (hf : ∀ a, P a → Yields (f a) Q) : Yields (x >>= f) Q := fun s => hf _ (hx s) _

theorem mono {x : StateM σ α} {P' : α → Prop} (hx : Yields x P) (hP : ∀ a, P a → P' a) :
    Yields x P' := fun s => hP _ (hx s)

theorem bind_any {x : StateM σ α} {f : α → StateM σ β} (hf : ∀ a, Yields (f a) Q) :
    Yields (x >>= f) Q := fun _ => hf _ _

/-- The answers on the elements of a list, in their order. -/
theorem mapM {f : α → StateM σ β} {R : α → β → Prop} {l : List α}
    (hf : ∀ a ∈ l, Yields (f a) (R a)) : Yields (l.mapM f) (List.Forall₂ R l) := by
  induction l with
  | nil => exact pure .nil
  | cons a l ih =>
      rw [List.mapM_cons]
      refine (hf a List.mem_cons_self).bind fun b hb => ?_
      refine (ih fun c hc => hf c (List.mem_cons_of_mem a hc)).bind fun bs hbs => ?_
      exact pure (.cons hb hbs)

end Yields

/-! ## Cells -/

variable {m : Model}

/-- Each argument has the cell of its place. -/
theorem cellsFrom_index (m : Model) (index : Nat) (ts : List TypeId) :
    Yields (cellsFrom m index ts) fun r => r.1.map Cell.index = List.range' index ts.length := by
  induction ts generalizing index with
  | nil => exact Yields.pure rfl
  | cons t ts ih =>
      refine Yields.bind_any fun first => (ih (index + 1)).bind fun r hr => Yields.pure ?_
      rw [List.map_cons, hr, List.length_cons, List.range'_succ]

theorem cells_index (m : Model) {params : List TypeId} {n : Nat} (hn : n ≤ params.length) :
    Yields (cells m params n) fun r => r.1.map Cell.index = List.range n := by
  intro s
  have hcells := cellsFrom_index m 0 (params.take n) s
  rw [List.length_take_of_le hn, ← List.range_eq_range'] at hcells
  exact hcells

/-! ## Calls -/

/-- The cells that the call of a block reads, from its first argument to its last. -/
def Block.reads (b : Block) : List Nat := b.call.args.map Cell.index

/-- What stands in front of the arguments of a call. -/
def Call.head (level : Nat) (c : Call) : String :=
  match c.cast with
  | some signature => "(" ++ signature.render level ++ c.path ++ ")"
  | none => c.path

/-- The way in which an argument is taken out of its cell. -/
def Operand.reading (o : Operand) : String :=
  match o.indirection with
  | .none => "*(" ++ o.name ++ "*)"
  | .pointer => "*(" ++ o.name ++ "**)"
  | .lvalueReference => "(" ++ o.name ++ "&)*(" ++ o.name ++ "*)"
  | .rvalueReference => "(" ++ o.name ++ "&&)*(" ++ o.name ++ "*)"

/-- An argument is written as what is read, and the cell that it is read from. -/
theorem Cell.text_eq (c : Cell) :
    c.text = c.operand.reading ++ ("args[" ++ toString c.index ++ "]") := by
  unfold Cell.text Operand.reading
  cases c.operand.indirection <;> rfl

/-- A call that reads the first `n` cells is written with `n` arguments, and the argument at place
`i` is taken out of `args[i]`. -/
theorem Call.render_of_reads {c : Call} {n : Nat} (hreads : c.args.map Cell.index = List.range n)
    (level : Nat) :
    c.render level = c.head level ++ "(" ++
      spread level (c.args.zipIdx.map fun (a, i) =>
        a.operand.reading ++ ("args[" ++ toString i ++ "]")) ++ ")" := by
  have hindex : c.args.zipIdx.map (fun (a, i) =>
      a.operand.reading ++ ("args[" ++ toString i ++ "]")) = c.args.map Cell.text := by
    refine List.ext_getElem (by simp) fun i hi _ => ?_
    have hat : i < c.args.length := by simpa using hi
    have hplace : (c.args[i]).index = i := by
      have := congrArg (·[i]?) hreads
      have hn : i < n := by
        have hlength := congrArg List.length hreads
        simp only [List.length_map, List.length_range] at hlength
        omega
      simpa [hat, hn] using this
    simp [Cell.text_eq, hplace]
  rw [hindex]
  rfl

/-! ## Blocks -/

section Blocks

variable {t : Target} {n : Nat} {P : List Cell → List AuxTypedef → Prop}
  (hcells : Yields (cells m t.params n) fun r => P r.1 r.2)
  (hmore : ∀ cells typedefs front, P cells typedefs → P cells (front ++ typedefs))

include hcells

theorem call_cells (ret : String) :
    Yields (call m t ret n) fun r => P r.1.args r.2 :=
  hcells.bind fun _ hr => Yields.pure hr

theorem construction_cells (placement : String) :
    Yields (construction m t placement n) fun r => P r.1.args r.2 :=
  hcells.bind fun _ hr => Yields.pure hr

theorem voidBlock_cells : Yields (voidBlock m t n) fun b => P b.call.args b.typedefs :=
  (call_cells hcells "void").bind fun _ hr => Yields.pure hr

theorem placingBlock_cells : Yields (placingBlock m t n) fun b => P b.call.args b.typedefs :=
  (construction_cells hcells "(obj) ").bind fun _ hr => Yields.pure hr

theorem heapBlock_cells (before : String) :
    Yields (heapBlock m t before n) fun b => P b.call.args b.typedefs :=
  (construction_cells hcells "").bind fun _ hr => Yields.pure hr

include hmore

theorem storingBlock_cells : Yields (storingBlock m t n) fun b => P b.call.args b.typedefs :=
  Yields.bind_any fun result =>
    (call_cells hcells result.1.castName).bind fun _ hr => Yields.pure (hmore _ _ _ hr)

theorem droppingBlock_cells : Yields (droppingBlock m t n) fun b => P b.call.args b.typedefs := by
  unfold droppingBlock
  extract_lets finished
  have hfinished : ∀ r, Yields (finished r) fun b => P b.call.args b.typedefs := by
    rintro ⟨ret, typedefs⟩
    exact (call_cells hcells ret).bind fun _ hr => Yields.pure (hmore _ _ _ hr)
  split_ifs
  · exact hfinished ("", [])
  · exact Yields.bind_any fun result => hfinished (result.1.castName, result.2)

/-- A clause runs at least one block, and what is known of the cells of the first `n` arguments and
their typedefs is known of each of its blocks, whatever other typedefs it has. -/
theorem body_cells :
    Yields (body m t n) fun b =>
      b.blocks ≠ [] ∧ ∀ block ∈ b.blocks, P block.call.args block.typedefs := by
  unfold body
  split_ifs with hconstructor hvoid
  · refine (placingBlock_cells hcells).bind fun placing hplacing => ?_
    refine (heapBlock_cells hcells _).bind fun storing hstoring => ?_
    refine (heapBlock_cells hcells _).bind fun dropping hdropping => ?_
    exact Yields.pure (by simp [Body.blocks, hplacing, hstoring, hdropping])
  · refine (voidBlock_cells hcells).bind fun block hblock => ?_
    exact Yields.pure (by simp [Body.blocks, hblock])
  · refine (storingBlock_cells hcells hmore).bind fun storing hstoring => ?_
    refine (droppingBlock_cells hcells hmore).bind fun dropping hdropping => ?_
    exact Yields.pure (by simp [Body.blocks, hstoring, hdropping])

end Blocks

/-- What is known of each sort of block is known of all blocks of a clause. -/
theorem body_blocks {t : Target} {n : Nat} {P : Block → Prop}
    (hplacing : Yields (placingBlock m t n) P)
    (hheap : ∀ before, Yields (heapBlock m t before n) P) (hvoid : Yields (voidBlock m t n) P)
    (hstoring : Yields (storingBlock m t n) P) (hdropping : Yields (droppingBlock m t n) P) :
    Yields (body m t n) fun b => ∀ block ∈ b.blocks, P block := by
  unfold body
  split_ifs
  · refine hplacing.bind fun placing hplacing => ?_
    refine (hheap _).bind fun storing hstoring => ?_
    refine (hheap _).bind fun dropping hdropping => ?_
    exact Yields.pure (by simp [Body.blocks, hplacing, hstoring, hdropping])
  · refine hvoid.bind fun block hblock => ?_
    exact Yields.pure (by simp [Body.blocks, hblock])
  · refine hstoring.bind fun storing hstoring => ?_
    refine hdropping.bind fun dropping hdropping => ?_
    exact Yields.pure (by simp [Body.blocks, hstoring, hdropping])

/-- Each block of a clause reads the first `n` cells. -/
theorem body_reads {t : Target} {n : Nat} (hn : n ≤ t.params.length) :
    Yields (body m t n) fun b =>
      b.blocks ≠ [] ∧ ∀ block ∈ b.blocks, block.reads = List.range n :=
  body_cells (P := fun cells _ => cells.map Cell.index = List.range n) (cells_index m hn)
    fun _ _ _ hcells => hcells

/-! ## Clauses -/

/-- The counts of the clauses of a trampoline for a function that has `all` parameters and needs
`required` arguments. -/
def expectedCounts (required all : Nat) : List (Option Nat) :=
  if required = all then [none] else (List.range' required (all + 1 - required)).map some

/-- A clause calls the function, and each call passes the cells from the first one to the last,
each in its place: as many as the clause is for, or all if it is for any number. -/
structure Clause.Unpacks (c : Clause) (all : Nat) : Prop where
  calls : c.body.blocks ≠ []
  reads : ∀ b ∈ c.body.blocks, b.reads = List.range (c.count.getD all)
  written : ∀ b ∈ c.body.blocks, ∀ level, b.call.render level =
    b.call.head level ++ "(" ++ spread level (b.call.args.zipIdx.map fun (a, i) =>
      a.operand.reading ++ ("args[" ++ toString i ++ "]")) ++ ")"

theorem Clause.unpacks_of_body {c : Clause} {all : Nat}
    (hbody : c.body.blocks ≠ [] ∧
      ∀ b ∈ c.body.blocks, b.reads = List.range (c.count.getD all)) : c.Unpacks all where
  calls := hbody.1
  reads := hbody.2
  written := fun b hb => Call.render_of_reads (hbody.2 b hb)

/-- The clauses of a trampoline are those for the expected counts, in their order. -/
structure Wrapper.Unpacks (w : Wrapper) (required all : Nat) : Prop where
  counts : w.clauses.map Clause.count = expectedCounts required all
  clauses : ∀ c ∈ w.clauses, c.Unpacks all

/-- What is known of the body for each number of arguments is known of the clauses. -/
theorem clauses_bodies {t : Target} {Q : Nat → Body → Prop}
    (hbody : ∀ n ≤ t.params.length, Yields (body m t n) (Q n)) (required : Nat) :
    Yields (clauses m t required) fun cs =>
      cs.map Clause.count = expectedCounts required t.params.length ∧
        ∀ c ∈ cs, Q (c.count.getD t.params.length) c.body := by
  unfold clauses expectedCounts
  by_cases hall : required = t.params.length
  · simp only [hall, if_true]
    refine (hbody _ (Nat.le_refl _)).bind fun b hb => Yields.pure ⟨rfl, ?_⟩
    intro c hc
    obtain rfl := List.mem_singleton.mp hc
    exact hb
  · simp only [hall, if_false]
    have hclause : ∀ n ∈ List.range' required (t.params.length + 1 - required),
        Yields (do return { count := some n, body := ← body m t n })
          fun c : Clause => c.count = some n ∧ Q n c.body := by
      intro n hn
      have hle : n ≤ t.params.length := by
        have := List.mem_range'_1.mp hn
        omega
      exact (hbody n hle).bind fun b hb => Yields.pure ⟨rfl, hb⟩
    refine (Yields.mapM hclause).mono fun cs hcs => ?_
    generalize List.range' required _ = counts at hcs ⊢
    induction hcs with
    | nil => simp
    | cons hfirst _ ih => simpa [hfirst, ih.1] using ih.2

theorem clauses_unpack (t : Target) (required : Nat) :
    Yields (clauses m t required) fun cs =>
      cs.map Clause.count = expectedCounts required t.params.length ∧
        ∀ c ∈ cs, c.Unpacks t.params.length :=
  (clauses_bodies (fun _ hn => body_reads hn) required).mono fun _ hcs =>
    ⟨hcs.1, fun c hc => Clause.unpacks_of_body (hcs.2 c hc)⟩

/-! ## Trampolines -/

/-- A call passes one argument for each parameter. -/
theorem target_params (func : DeclId) (info : FunctionInfo) :
    Yields (target func info) fun t => t.params.length = info.params.length := by
  refine (Yields.mapM (R := fun _ _ => True) fun _ _ _ => trivial).bind fun params hparams => ?_
  have hlength : params.length = info.params.length := by
    rw [← hparams.length_eq, List.length_map]
  exact Yields.bind_any fun _ => Yields.bind_any fun _ => Yields.bind_any fun _ =>
    Yields.pure hlength

theorem wrapperOf_unpacks (m : Model) (t : Target) (required : Nat) :
    Yields (wrapperOf m t required) fun w => w.Unpacks required t.params.length :=
  Yields.bind_any fun _ => (clauses_unpack t required).bind fun _ hcs =>
    Yields.pure ⟨hcs.1, hcs.2⟩

/-- The trampoline of a function is drafted in the model that its target was read off. -/
theorem run_wrapper? {func : DeclId} {info : FunctionInfo} (hfunc : m.function? func = some info)
    (serial : UInt64) :
    (wrapper? func serial).run m =
      (some ((wrapperOf ((target func info).run m).2 ((target func info).run m).1
        info.minRequiredArgs).run serial), ((target func info).run m).2) := by
  unfold wrapper?
  rw [StateT.run_bind, StateT.run_get, pure_bind]
  simp only [hfunc]
  rfl

/-- Every function has a trampoline, which accepts from the required arguments to all of them. -/
theorem wrapper?_unpacks {func : DeclId} {info : FunctionInfo}
    (hfunc : m.function? func = some info) (serial : UInt64) :
    ∃ w next, ((wrapper? func serial).run m).1 = some (w, next) ∧
      w.Unpacks info.minRequiredArgs info.params.length := by
  have hparams := target_params func info m
  rw [run_wrapper? hfunc]
  generalize (target func info).run m = drafted at hparams ⊢
  have hw := wrapperOf_unpacks drafted.2 drafted.1 info.minRequiredArgs serial
  rw [hparams] at hw
  exact ⟨_, _, rfl, hw⟩

/-- A callable for a function either is the destructor of a class or has the shape of the function. -/
def Callable.IsFor (m : Model) (info : FunctionInfo) : Callable → Prop
  | .generic _ _ shape => shape = shapeOf m info
  | .destructor .. => info.isDestructor = true
  | .invalid => True

theorem callable_isFor {func : DeclId} {info : FunctionInfo} {workshop : Workshop MachineCode}
    (hfunc : workshop.bench.interpreter.model.function? func = some info) :
    ((callable func).run workshop).1.IsFor workshop.bench.interpreter.model info := by
  unfold callable
  rw [StateT.run_bind, StateT.run_get, pure_bind]
  simp only [hfunc]
  generalize workshop.bench.interpreter.model = m
  refine (?_ : Yields _ (Callable.IsFor m info)) workshop
  split_ifs with hdestructor
  · cases (m.decl func).parent with
    | none => exact Yields.pure trivial
    | some record =>
        refine Yields.bind_any fun reply => ?_
        cases reply with
        | ok code => exact Yields.pure hdestructor
        | error _ => exact Yields.pure trivial
  · refine Yields.bind_any fun _ => Yields.bind_any fun reply => ?_
    cases reply with
    | ok code => exact Yields.pure rfl
    | error _ => exact Yields.pure trivial

/-- A function with one required argument out of two. -/
def scaleInfo : FunctionInfo where
  returnType := ⟨0⟩
  params := [⟨"value", ⟨0⟩, none⟩, ⟨"factor", ⟨0⟩, some "2"⟩]

/-- A model with that function. -/
def scaleModel : Model :=
  ((do
    let _ ← Model.internKind (.builtin .int)
    Model.addDecl Model.root "scale" .none (.function scaleInfo) : ModelM DeclId).run .empty).2

/-- A rehearsed interpreter for that model, whose compilations yield call trampolines. -/
def scaleWorkshop : Workshop MachineCode where
  engine := {}
  service := 0
  bench :=
    { interpreter := { model := scaleModel, backend := .rehearsed { target := some .call } }
      host := default }

theorem Clause.runsFor_iff {c : Clause} {n : Nat} :
    c.runsFor n = true ↔ c.count = none ∨ c.count = some n := by
  unfold Clause.runsFor
  cases c.count <;> simp

/-- A trampoline runs a clause for every number of arguments if none can be left out, and for the
numbers between its bounds otherwise. -/
theorem Wrapper.Unpacks.runs_iff {w : Wrapper} {required all n : Nat}
    (hw : w.Unpacks required all) :
    (∃ c ∈ w.clauses, c.runsFor n = true) ↔ required = all ∨ required ≤ n ∧ n ≤ all := by
  have hcount : (∃ c ∈ w.clauses, c.runsFor n = true) ↔
      none ∈ w.clauses.map Clause.count ∨ some n ∈ w.clauses.map Clause.count := by
    simp only [Clause.runsFor_iff, List.mem_map, ← exists_or, and_or_left]
  rw [hcount, hw.counts, expectedCounts]
  split_ifs with hall
  · simp [hall]
  · simp only [List.mem_map, List.mem_range'_1, Option.some.injEq, exists_eq_right, hall, false_or]
    constructor
    · rintro (⟨_, _, hnone⟩ | hn)
      · cases hnone
      · omega
    · intro hn
      exact .inr (by omega)

/-- Accepted calls have the required arguments at least; how many more they have is not checked. -/
theorem Shape.required_le_of_accepts {s : Shape} {p : Passed} (haccepts : s.accepts p = true) :
    s.required ≤ p.count := by
  simp only [Shape.accepts, Bool.and_eq_true, decide_eq_true_eq] at haccepts
  exact haccepts.1.1.1.2

/-- What a callable accepts is run, unless it is told of more arguments than the function has while
some of them can be left out. -/
theorem accepted_runs_iff {func : DeclId} {info : FunctionInfo} {workshop : Workshop MachineCode}
    (hfunc : workshop.bench.interpreter.model.function? func = some info) {serial next : UInt64}
    {w : Wrapper}
    (hw : ((wrapper? func serial).run workshop.bench.interpreter.model).1 = some (w, next))
    {code : MachineCode} {origin : Nat} {shape : Shape}
    (hcallable : ((callable func).run workshop).1 = .generic code origin shape) {p : Passed}
    (haccepts : (Callable.generic code origin shape).accepts p = true) :
    (∃ c ∈ w.clauses, c.runsFor p.count = true) ↔
      p.count ≤ shape.num ∨ shape.required = shape.num := by
  have hfor := callable_isFor hfunc
  rw [hcallable] at hfor
  obtain rfl : shape = _ := hfor
  obtain ⟨w', next', hw', hunpacks⟩ := wrapper?_unpacks hfunc serial
  obtain ⟨rfl, rfl⟩ : w' = w ∧ next' = next := by
    rw [hw, Option.some.injEq, Prod.mk.injEq] at hw'
    exact ⟨hw'.1.symm, hw'.2.symm⟩
  have hrequired : info.minRequiredArgs ≤ p.count := Shape.required_le_of_accepts haccepts
  rw [hunpacks.runs_iff]
  simp only [shapeOf]
  omega

/-- `scale` is run with one argument; a call with three is accepted, and nothing is run. -/
theorem accepted_runs_scale :
    let w : Wrapper := (((wrapper? ⟨1⟩ 0).run scaleModel).1.getD default).1
    let passed (count : Nat) : Passed := { result := some 0, hasList := true, count }
    (((callable ⟨1⟩).run scaleWorkshop).1.accepts (passed 1) = true ∧
      ∃ c ∈ w.clauses, c.runsFor 1 = true) ∧
    (((callable ⟨1⟩).run scaleWorkshop).1.accepts (passed 3) = true ∧
      ¬∃ c ∈ w.clauses, c.runsFor 3 = true) := by
  intro w passed
  have hscale : scaleWorkshop.bench.interpreter.model.function? ⟨1⟩ = some scaleInfo := by
    decide +kernel
  have hcallable : ((callable ⟨1⟩).run scaleWorkshop).1 =
      .generic .call 2 (shapeOf scaleModel scaleInfo) := by decide +kernel
  have hwrapper : ((wrapper? ⟨1⟩ 0).run scaleWorkshop.bench.interpreter.model).1 =
      some (w, (((wrapper? ⟨1⟩ 0).run scaleModel).1.getD default).2) := by decide +kernel
  rw [hcallable]
  refine ⟨⟨by decide +kernel, ?_⟩, by decide +kernel, ?_⟩
  · exact (accepted_runs_iff hscale hwrapper hcallable (p := passed 1) (by decide +kernel)).mpr
      (.inl (by decide))
  · intro hruns
    have hbounds := (accepted_runs_iff hscale hwrapper hcallable (p := passed 3)
      (by decide +kernel)).mp hruns
    exact absurd hbounds (by decide)

end Trampoline

end CppReflect
