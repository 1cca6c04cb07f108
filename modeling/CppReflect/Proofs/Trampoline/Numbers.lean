import CppReflect.Proofs.Trampoline.Arguments

/-!
# Numbers in the names of trampolines

Symbols and auxiliary typedefs end in numbers that are drawn from one counter. Whatever is drafted
one after the other draws consecutive numbers, one for each name and no others, so that no number is
in two names until all numbers of the counter are used up.
-/

namespace CppReflect

namespace Trampoline

/-! ## Names with numbers -/

/-- The stems of the symbols of trampolines. -/
def symbolStems : List String := ["__cf_", "__dtor_"]

/-- The name is the stem of a symbol or typedef with the number behind it. -/
def Carries (name : String) (n : Nat) : Prop :=
  ∃ stem ∈ symbolStems ++ typedefStems, name = stem ++ toString n

theorem toString_inj {i j : Nat} (h : toString i = toString j) : i = j := by
  have hdigits := congrArg (fun s : String => Nat.ofDigitChars 10 s.toList 0) h
  simpa [Nat.toString_eq_ofList_toDigits] using hdigits

theorem isDigit_toString (n : Nat) : ∀ c ∈ (toString n).toList, c.isDigit = true := by
  intro c hc
  rw [Nat.toString_eq_ofList_toDigits, String.toList_ofList] at hc
  exact Nat.isDigit_of_mem_toDigits (by decide) (by decide) hc

/-- The number of a name is told by the digits that the name ends in. -/
theorem Carries.digits {name : String} {n : Nat} (h : Carries name n) :
    (name.toList.reverse.takeWhile Char.isDigit).reverse = (toString n).toList := by
  obtain ⟨stem, hstem, rfl⟩ := h
  have hends : ∀ s ∈ symbolStems ++ typedefStems,
      s.toList.reverse.takeWhile Char.isDigit = [] := by decide
  have hdigits : ∀ c ∈ (toString n).toList.reverse, c.isDigit = true := by
    intro c hc
    exact isDigit_toString n c (List.mem_reverse.mp hc)
  rw [String.toList_append, List.reverse_append, List.takeWhile_append_of_pos hdigits,
    hends stem hstem, List.append_nil, List.reverse_reverse]

theorem Carries.unique {name : String} {i j : Nat} (hi : Carries name i) (hj : Carries name j) :
    i = j := by
  apply toString_inj
  apply String.toList_inj.mp
  rw [← hi.digits, hj.digits]

/-- The names do not end in the same number. -/
def NumbersDiffer (a b : String) : Prop := ∀ i j, Carries a i → Carries b j → i ≠ j

/-- The names carry consecutive numbers from `n` on, which start over where the counter does. -/
def Consecutive (n : UInt64) : List String → Prop
  | [] => True
  | name :: rest => Carries name n.toNat ∧ Consecutive (n + 1) rest

namespace Consecutive

variable {n : UInt64} {names more : List String}

theorem add_succ (n : UInt64) (k : Nat) :
    n + UInt64.ofNat (k + 1) = n + 1 + UInt64.ofNat k := by
  rw [UInt64.ofNat_add, UInt64.add_comm (UInt64.ofNat k), ← UInt64.add_assoc]
  rfl

theorem append (h : Consecutive n names) (hmore : Consecutive (n + UInt64.ofNat names.length) more) :
    Consecutive n (names ++ more) := by
  induction names generalizing n with
  | nil => simpa using hmore
  | cons name names ih =>
      rw [List.length_cons, add_succ] at hmore
      exact ⟨h.1, ih h.2 hmore⟩

/-- Each name carries the number of its place. -/
theorem exists_number (h : Consecutive n names) {name : String} (hname : name ∈ names) :
    ∃ i < names.length, Carries name (n + UInt64.ofNat i).toNat := by
  induction names generalizing n with
  | nil => exact absurd hname List.not_mem_nil
  | cons first names ih =>
      rcases List.mem_cons.mp hname with rfl | hrest
      · exact ⟨0, Nat.zero_lt_succ _, by simpa using h.1⟩
      · obtain ⟨i, hi, hcarries⟩ := ih h.2 hrest
        rw [← add_succ] at hcarries
        exact ⟨i + 1, Nat.succ_lt_succ hi, hcarries⟩

/-- No number is in two names, unless there are more names than numbers. -/
theorem pairwise (h : Consecutive n names) (hlength : names.length ≤ UInt64.size) :
    names.Pairwise NumbersDiffer := by
  induction names generalizing n with
  | nil => exact .nil
  | cons name names ih =>
      rw [List.length_cons] at hlength
      refine .cons ?_ (ih h.2 (by omega))
      intro other hother i j hi hj
      obtain ⟨k, hk, hcarries⟩ := h.2.exists_number hother
      rw [hi.unique h.1, hj.unique hcarries, ← add_succ, UInt64.toNat_add, UInt64.toNat_ofNat']
      have hbound := n.toNat_lt
      have hsize : UInt64.size = 2 ^ 64 := rfl
      omega

end Consecutive

/-! ## Computations that draw -/

/-- The computation goes on from the names `before`: it draws consecutive numbers for the other names
of its answer, and no number besides. -/
def Draws {α : Type} (before : List String) (x : Numbered α) (names : α → List String) : Prop :=
  ∀ n, ∃ more, names (x.run n).1 = before ++ more ∧ Consecutive n more ∧
    (x.run n).2 = n + UInt64.ofNat more.length

namespace Draws

variable {α β : Type} {before : List String} {x : Numbered α} {names : α → List String}

theorem pure {a : α} (h : names a = before) : Draws before (Pure.pure a) names := by
  intro n
  have hstays : n = n + UInt64.ofNat ([] : List String).length := by simp
  exact ⟨[], h.trans (List.append_nil before).symm, trivial, hstays⟩

theorem bind {f : α → Numbered β} {names' : β → List String} (hx : Draws before x names)
    (hf : ∀ a, Draws (names a) (f a) names') : Draws before (x >>= f) names' := by
  intro n
  obtain ⟨first, hfirst, hdrawn, hnext⟩ := hx n
  obtain ⟨rest, hrest, hdrawn', hnext'⟩ := hf (x.run n).1 (x.run n).2
  rw [hfirst, List.append_assoc] at hrest
  rw [hnext] at hdrawn'
  refine ⟨first ++ rest, hrest, hdrawn.append hdrawn', ?_⟩
  refine hnext'.trans ?_
  rw [hnext, List.length_append, UInt64.ofNat_add, UInt64.add_assoc]

/-- What is drawn does not depend on the names that are there. -/
theorem behind (hx : Draws [] x names) (before : List String) :
    Draws before x fun a => before ++ names a := by
  intro n
  obtain ⟨more, hmore, hdrawn, hnext⟩ := hx n
  exact ⟨more, congrArg (before ++ ·) hmore, hdrawn, hnext⟩

/-- A computation that starts without names draws all names of its answer. -/
theorem consecutive (hx : Draws [] x names) {n next : UInt64} {a : α} (h : x.run n = (a, next)) :
    Consecutive n (names a) ∧ next = n + UInt64.ofNat (names a).length := by
  obtain ⟨more, hmore, hdrawn, hnext⟩ := hx n
  rw [List.nil_append] at hmore
  rw [h] at hmore hnext
  rw [hmore]
  exact ⟨hdrawn, hnext⟩

theorem mapM {f : α → Numbered β} {names' : β → List String} (hf : ∀ a, Draws [] (f a) names')
    (l : List α) : Draws [] (l.mapM f) fun bs => bs.flatMap names' := by
  induction l with
  | nil => exact pure rfl
  | cons a l ih =>
      rw [List.mapM_cons]
      apply (hf a).bind
      intro b
      apply (ih.behind (names' b)).bind
      intro bs
      exact pure rfl

end Draws

theorem freshName_draws {stem : String} (hstem : stem ∈ symbolStems ++ typedefStems) :
    Draws [] (freshName stem) fun name => [name] := by
  intro n
  exact ⟨[stem ++ toString n.toNat], rfl, ⟨⟨stem, hstem, rfl⟩, trivial⟩, rfl⟩

/-! ## Drafting -/

variable {m : Model} {t : Target} {n : Nat}

/-- The names of the typedefs of a block. -/
def Block.names (b : Block) : List String := b.typedefs.map AuxTypedef.name

/-- The names of the typedefs of a clause, in their order. -/
def Clause.names (c : Clause) : List String := c.body.blocks.flatMap Block.names

/-- The names of a call trampoline, its symbol and its typedefs. -/
def Wrapper.names (w : Wrapper) : List String := w.symbol :: w.clauses.flatMap Clause.names

/-- The names of typedefs that come with an answer. -/
def namesWith {α : Type} (r : α × List AuxTypedef) : List String := r.2.map AuxTypedef.name

theorem named_draws {stem : String} (hstem : stem ∈ typedefStems) (type : TypeId)
    (indirection : Indirection) : Draws [] (named stem type indirection) namesWith := by
  apply (freshName_draws (List.mem_append_right _ hstem)).bind
  intro name
  exact .pure rfl

theorem operand_draws (m : Model) (isArgument : Bool) (type : TypeId) :
    Draws [] (operand m isArgument type) namesWith := by
  unfold operand
  split_ifs
  · exact .pure rfl
  · exact named_draws (by decide) type .none
  · exact named_draws (by decide) type .none
  · simp only
    split_ifs
    · exact named_draws (by decide) _ _
    · exact .pure rfl

theorem cellsFrom_draws (m : Model) (index : Nat) (types : List TypeId) :
    Draws [] (cellsFrom m index types) namesWith := by
  induction types generalizing index with
  | nil => exact .pure rfl
  | cons type types ih =>
      apply (operand_draws m true type).bind
      intro first
      apply ((ih (index + 1)).behind (namesWith first)).bind
      intro rest
      exact .pure List.map_append

theorem call_draws (m : Model) (t : Target) (ret : String) (n : Nat) :
    Draws [] (call m t ret n) namesWith := by
  apply (cellsFrom_draws m 0 _).bind
  intro r
  exact .pure rfl

theorem construction_draws (m : Model) (t : Target) (placement : String) (n : Nat) :
    Draws [] (construction m t placement n) namesWith := by
  apply (cellsFrom_draws m 0 _).bind
  intro r
  exact .pure rfl

theorem voidBlock_draws (m : Model) (t : Target) (n : Nat) :
    Draws [] (voidBlock m t n) Block.names := by
  apply (call_draws m t "void" n).bind
  intro r
  exact .pure rfl

theorem placingBlock_draws (m : Model) (t : Target) (n : Nat) :
    Draws [] (placingBlock m t n) Block.names := by
  apply (construction_draws m t "(obj) " n).bind
  intro r
  exact .pure rfl

theorem heapBlock_draws (m : Model) (t : Target) (before : String) (n : Nat) :
    Draws [] (heapBlock m t before n) Block.names := by
  apply (construction_draws m t "" n).bind
  intro r
  exact .pure rfl

/-- The typedefs of the result come before those of the arguments. -/
theorem storingBlock_draws (m : Model) (t : Target) (n : Nat) :
    Draws [] (storingBlock m t n) Block.names := by
  apply (operand_draws m false t.returnType).bind
  intro result
  apply ((call_draws m t result.1.castName n).behind (namesWith result)).bind
  intro r
  exact .pure List.map_append

theorem droppingBlock_draws (m : Model) (t : Target) (n : Nat) :
    Draws [] (droppingBlock m t n) Block.names := by
  unfold droppingBlock
  extract_lets finished
  have hfinished : ∀ r, Draws (namesWith r) (finished r) Block.names := by
    intro r
    apply ((call_draws m t r.1 n).behind (namesWith r)).bind
    intro call
    exact .pure List.map_append
  split_ifs
  · exact hfinished ("", [])
  · apply (operand_draws m false t.returnType).bind
    intro result
    exact hfinished (result.1.castName, result.2)

/-- The blocks of a clause draw one after the other. -/
theorem body_draws (m : Model) (t : Target) (n : Nat) :
    Draws [] (body m t n) fun b => b.blocks.flatMap Block.names := by
  unfold body
  split_ifs
  · apply (placingBlock_draws m t n).bind
    intro placing
    apply ((heapBlock_draws m t _ n).behind placing.names).bind
    intro storing
    apply ((heapBlock_draws m t "" n).behind (placing.names ++ storing.names)).bind
    intro dropping
    exact .pure (by simp [Body.blocks])
  · apply (voidBlock_draws m t n).bind
    intro block
    exact .pure (by simp [Body.blocks])
  · apply (storingBlock_draws m t n).bind
    intro storing
    apply ((droppingBlock_draws m t n).behind storing.names).bind
    intro dropping
    exact .pure (by simp [Body.blocks])

theorem clauses_draws (m : Model) (t : Target) (required : Nat) :
    Draws [] (clauses m t required) fun cs => cs.flatMap Clause.names := by
  unfold clauses
  simp only
  split_ifs
  · apply (body_draws m t _).bind
    intro b
    exact .pure (by simp [Clause.names])
  · apply Draws.mapM
    intro count
    apply (body_draws m t count).bind
    intro b
    exact .pure rfl

theorem wrapperOf_draws (m : Model) (t : Target) (required : Nat) :
    Draws [] (wrapperOf m t required) Wrapper.names := by
  apply (freshName_draws (by decide)).bind
  intro symbol
  apply ((clauses_draws m t required).behind [symbol]).bind
  intro cs
  exact .pure rfl

/-! ## Sources in a row -/

/-- The source of a trampoline. -/
inductive Source where
  | call (w : Wrapper)
  | destruction (d : Destroyer)

/-- The names of a source that end in numbers. -/
def Source.names : Source → List String
  | .call w => w.names
  | .destruction d => [d.symbol]

/-- The source of a trampoline of either role, with the counter behind it. -/
def draft (role : Role) (d : DeclId) (serial : UInt64) : ModelM (Option (Source × UInt64)) :=
  match role with
  | .call => do return (← wrapper? d serial).map fun r => (.call r.1, r.2)
  | .destruction => do return (← destroyer? d serial).map fun r => (.destruction r.1, r.2)

/-- A source that is asked for: its model, what it does and for which declaration. -/
structure Order where
  model : Model
  role : Role
  decl : DeclId

/-- The sources of orders that share a counter, one after the other, and the counter behind them. An
order that cannot be met leaves the counter as it is. -/
def draftAll (serial : UInt64) : List Order → List Source × UInt64
  | [] => ([], serial)
  | o :: orders =>
    match ((draft o.role o.decl serial).run o.model).1 with
    | none => draftAll serial orders
    | some (source, next) =>
      let (sources, last) := draftAll next orders
      (source :: sources, last)

/-- Functions alone have call trampolines. -/
theorem run_wrapper?_of_none {func : DeclId} (hfunc : m.function? func = none) (serial : UInt64) :
    (wrapper? func serial).run m = (none, m) := by
  unfold wrapper?
  rw [StateT.run_bind, StateT.run_get, pure_bind]
  simp only [hfunc]
  rfl

theorem exists_function_of_wrapper? {func : DeclId} {serial : UInt64} {r : Wrapper × UInt64}
    (h : ((wrapper? func serial).run m).1 = some r) : ∃ info, m.function? func = some info := by
  cases hfunc : m.function? func with
  | none =>
      rw [run_wrapper?_of_none hfunc] at h
      cases h
  | some info => exact ⟨info, rfl⟩

theorem wrapper?_consecutive {func : DeclId} {serial next : UInt64} {w : Wrapper}
    (h : ((wrapper? func serial).run m).1 = some (w, next)) :
    Consecutive serial w.names ∧ next = serial + UInt64.ofNat w.names.length := by
  obtain ⟨info, hfunc⟩ := exists_function_of_wrapper? h
  rw [run_wrapper? hfunc] at h
  exact (wrapperOf_draws _ _ _).consecutive (Option.some.inj h)

/-- The destructor trampoline of a class has the next number in its symbol. -/
theorem run_destroyer? (d : DeclId) (serial : UInt64) :
    (destroyer? d serial).run m =
      (((classSpelling? d).run m).1.map fun className =>
          ({ symbol := "__dtor_" ++ toString serial.toNat, className }, serial + 1),
        ((classSpelling? d).run m).2) := by
  unfold destroyer?
  rw [StateT.run_bind]
  rcases (classSpelling? d).run m with ⟨_ | className, m'⟩ <;> rfl

theorem destroyer?_consecutive {d : DeclId} {serial next : UInt64} {destroyer : Destroyer}
    (h : ((destroyer? d serial).run m).1 = some (destroyer, next)) :
    Consecutive serial [destroyer.symbol] ∧ next = serial + 1 := by
  rw [run_destroyer?] at h
  obtain ⟨className, -, heq⟩ := Option.map_eq_some_iff.mp h
  cases heq
  exact ⟨⟨⟨"__dtor_", by decide, rfl⟩, trivial⟩, rfl⟩

/-- The model that the source of an order is written out with. -/
def Order.drafted (o : Order) : Model := ((draft o.role o.decl 0).run o.model).2

/-- The numbers of a source make no difference to the model. -/
theorem run_draft_model (o : Order) (serial : UInt64) :
    ((draft o.role o.decl serial).run o.model).2 = o.drafted := by
  obtain ⟨m, role, d⟩ := o
  cases role with
  | call =>
      change ((wrapper? d serial).run m).2 = ((wrapper? d 0).run m).2
      cases hfunc : m.function? d with
      | none => rw [run_wrapper?_of_none hfunc, run_wrapper?_of_none hfunc]
      | some info => rw [run_wrapper? hfunc, run_wrapper? hfunc]
  | destruction =>
      change ((destroyer? d serial).run m).2 = ((destroyer? d 0).run m).2
      rw [run_destroyer?, run_destroyer?]

theorem draft_consecutive {role : Role} {d : DeclId} {serial next : UInt64} {source : Source}
    (h : ((draft role d serial).run m).1 = some (source, next)) :
    Consecutive serial source.names ∧ next = serial + UInt64.ofNat source.names.length := by
  cases role with
  | call =>
      obtain ⟨⟨w, next'⟩, hw, heq⟩ := Option.map_eq_some_iff.mp h
      cases heq
      exact wrapper?_consecutive hw
  | destruction =>
      obtain ⟨⟨destroyer, next'⟩, hd, heq⟩ := Option.map_eq_some_iff.mp h
      cases heq
      exact destroyer?_consecutive hd

/-- Orders in a row draw consecutive numbers for their names, whichever models they are for, and no
number besides. -/
theorem draftAll_consecutive (serial : UInt64) (orders : List Order) :
    let names := (draftAll serial orders).1.flatMap Source.names
    Consecutive serial names ∧
      (draftAll serial orders).2 = serial + UInt64.ofNat names.length := by
  induction orders generalizing serial with
  | nil => exact ⟨trivial, (UInt64.add_zero serial).symm⟩
  | cons o orders ih =>
      unfold draftAll
      split
      next => exact ih serial
      next source next h =>
        obtain ⟨hdrawn, hnext⟩ := draft_consecutive h
        obtain ⟨hrest, hlast⟩ := ih next
        simp only [List.flatMap_cons, List.length_append, UInt64.ofNat_add, ← UInt64.add_assoc]
        rw [← hnext]
        exact ⟨hdrawn.append (hnext ▸ hrest), hlast⟩

/-- Each source is drafted for one of the orders. -/
theorem exists_order {serial : UInt64} {orders : List Order} {source : Source}
    (h : source ∈ (draftAll serial orders).1) :
    ∃ o ∈ orders, ∃ n next, ((draft o.role o.decl n).run o.model).1 = some (source, next) := by
  induction orders generalizing serial with
  | nil => exact absurd h List.not_mem_nil
  | cons o orders ih =>
      unfold draftAll at h
      split at h
      next =>
        obtain ⟨o', ho, hdrafted⟩ := ih h
        exact ⟨o', List.mem_cons_of_mem _ ho, hdrafted⟩
      next first next hfirst =>
        rcases List.mem_cons.mp h with rfl | hrest
        · exact ⟨o, List.mem_cons_self, serial, next, hfirst⟩
        · obtain ⟨o', ho, hdrafted⟩ := ih hrest
          exact ⟨o', List.mem_cons_of_mem _ ho, hdrafted⟩

end Trampoline

end CppReflect
