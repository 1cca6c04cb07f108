import CppReflect.Proofs.Trampoline.Lines
import CppReflect.Proofs.Trampoline.Scopes
import CppReflect.Proofs.Trampoline.Signatures

/-!
# Where the typedefs of trampolines are used

Each block of a trampoline drafts the typedefs that its own call needs. The names of typedefs get
into a source through the operands of calls only, unless a type of the model is spelled with such a
name, so that every typedef is used in the braces in which it is declared.
-/

namespace CppReflect

namespace Trampoline

/-! ## Operands and calls -/

variable {m : Model} {t : Target} {n : Nat} {names : List String}

theorem usesOnly_reading {o : Operand} (h : UsesOnly own names o.name) :
    UsesOnly own names o.reading ∧ Closes o.reading := by
  unfold Operand.reading
  cases o.indirection with
  | none | pointer =>
      refine ⟨?_, Closes.behind (by decide) (by decide) _⟩
      exact (h.behind_wordless (by decide)).before_wordless (by decide)
  | lvalueReference | rvalueReference =>
      refine ⟨?_, Closes.behind (by decide) (by decide) _⟩
      apply UsesOnly.before_wordless
      · exact (h.behind_wordless (by decide)).apart h (by decide) (by decide)
      · decide

/-- Reading a cell takes the name of its operand alone. -/
theorem usesOnly_cell {c : Cell} (h : UsesOnly own names c.operand.name) : UsesOnly own names c.text := by
  obtain ⟨hreading, hcloses⟩ := usesOnly_reading h
  have hfront : UsesOnly own names "args" := .of_initials (by decide)
  have hplace : UsesOnly own names ("args" ++ "[" ++ toString c.index) :=
    hfront.apart (.of_number c.index) (by decide) (by decide)
  rw [Cell.text_eq]
  exact hreading.append (hplace.before_wordless (by decide)) (.inl hcloses)

theorem wordless_indentation (level : Nat) : Wordless (indentation level) := by
  induction level with
  | zero => decide
  | succ level ih =>
      rw [indentation, List.replicate_succ, String.join_cons]
      exact Wordless.append (by decide) ih

theorem wordless_separator (level index : Nat) : Wordless (separator level index) := by
  unfold separator
  split_ifs
  · decide
  · decide
  · exact Wordless.append (by decide) (wordless_indentation _)

theorem opens_spreadFrom {index : Nat} (hindex : index ≠ 0) (level : Nat) (items : List String) :
    Opens (spreadFrom level index items) := by
  cases items with
  | nil => exact nofun
  | cons item items =>
      rw [spreadFrom_cons]
      apply (wordless_separator level index).opens.before
      unfold separator
      rw [if_neg hindex]
      split_ifs
      · decide
      · intro hempty
        rw [String.append_eq_empty_iff] at hempty
        exact absurd hempty.1 (by decide)

theorem usesOnly_spreadFrom {items : List String} (h : ∀ item ∈ items, UsesOnly own names item)
    (level index : Nat) : UsesOnly own names (spreadFrom level index items) := by
  induction items generalizing index with
  | nil => exact .of_wordless (a := "") (by decide)
  | cons item items ih =>
      obtain ⟨hitem, hitems⟩ := List.forall_mem_cons.mp h
      rw [spreadFrom_cons]
      apply UsesOnly.behind_wordless _ (wordless_separator level index)
      exact hitem.append (ih hitems _) (.inr (opens_spreadFrom (Nat.succ_ne_zero index) level items))

theorem usesOnly_spread {items : List String} (h : ∀ item ∈ items, UsesOnly own names item)
    (level : Nat) : UsesOnly own names (spread level items) :=
  usesOnly_spreadFrom h level 0

/-- A cast takes what its result and its parameters take. -/
theorem usesOnly_signature {s : Signature} (hret : UsesOnly own names s.ret)
    (hparams : ∀ p ∈ s.params, UsesOnly own names p) (level : Nat) :
    UsesOnly own names (s.render level) := by
  have hellipsis : Wordless (ellipsis s.variadic s.params.isEmpty) := by
    unfold ellipsis
    split_ifs <;> decide
  rw [Signature.render_eq, Signature.text]
  apply UsesOnly.before_wordless
  · apply UsesOnly.behind_wordless
    · apply UsesOnly.before_wordless
      · apply UsesOnly.before_wordless
        · exact hret.apart (usesOnly_spread hparams level) (by decide) (by decide)
        · exact hellipsis
      · decide
    · decide
  · decide

/-- Around its path a call mentions no typedefs but those of the given names. -/
structure Call.Uses (own : String → Prop) (names : List String) (c : Call) : Prop where
  front : ∀ level, UsesOnly own names (c.front level)
  back : ∀ level, UsesOnly own names (c.back level)

/-- A call uses what its cells use, and, in a cast, what the result and the parameters use. -/
theorem Call.uses_of_parts {c : Call}
    (hcast : ∀ s ∈ c.cast, UsesOnly own names s.ret ∧
      ∀ p ∈ s.params, UsesOnly own names p)
    (hargs : ∀ a ∈ c.args, UsesOnly own names a.operand.name) : c.Uses own names where
  front level := by
    unfold Call.front
    cases hsignature : c.cast with
    | none => exact .of_wordless (a := "") (by decide)
    | some s =>
        obtain ⟨hret, hparams⟩ := hcast s hsignature
        exact (usesOnly_signature hret hparams level).behind_wordless (by decide)
  back level := by
    have hitems : ∀ item ∈ c.args.map Cell.text, UsesOnly own names item := by
      intro item hitem
      obtain ⟨a, ha, rfl⟩ := List.mem_map.mp hitem
      exact usesOnly_cell (hargs a ha)
    unfold Call.back
    apply UsesOnly.before_wordless
    · apply UsesOnly.behind_wordless (usesOnly_spread hitems level)
      split_ifs <;> decide
    · decide

/-! ## Drafting blocks -/

/-- A block is scoped if its call is, and the text around the call keeps apart from it. -/
theorem Block.scoped_of_call {typedefs : List AuxTypedef} {before after : String} {call : Call}
    {tail : List (Nat × String)} (hnames : typedefs.map AuxTypedef.name = names)
    (hcall : call.Uses own names) (hbefore : UsesOnly own names before)
    (hcloses : Closes before) (hafter : Wordless after)
    (htail : ∀ level, Fits own (tail.map fun (depth, text) => .behindCall (level + depth) text)) :
    Block.Scoped own { typedefs, before, call, after, tail } := by
  subst hnames
  exact { front := fun level => hbefore.append (hcall.front level) (.inl hcloses)
          back := fun level => (hcall.back level).before_wordless hafter
          tail := htail }

theorem fits_leave (level : Nat) :
    Fits own ([leave].map fun (depth, text) => .behindCall (level + depth) text) :=
  .behindCall (.of_initials (by decide)) (by decide) (by decide)

theorem usesOnly_castName {o : Operand} (h : UsesOnly own names o.name) :
    UsesOnly own names o.castName := by
  unfold Operand.castName
  cases o.indirection with
  | none => exact h
  | pointer | lvalueReference | rvalueReference => exact h.before_wordless (by decide)

theorem usesOnly_storing {o : Operand} (h : UsesOnly own names o.name) :
    UsesOnly own names o.storing ∧ Closes o.storing := by
  have hnew : UsesOnly own names "new (ret) " := .of_initials (by decide)
  have hfront : UsesOnly own names ("new (ret) " ++ "(" ++ o.name) :=
    hnew.apart h (by decide) (by decide)
  unfold Operand.storing
  cases o.indirection with
  | none | pointer | lvalueReference | rvalueReference =>
      exact ⟨hfront.before_wordless (by decide), Closes.behind (by decide) (by decide) _⟩

section Drafting

variable (hclean : ∀ type, UsesOnly own [] (m.typeText type))

include hclean

/-- An operand is named by one of the typedefs that come with it, or spelled as a type. -/
theorem operand_usesOnly (isArgument : Bool) (type : TypeId) :
    Yields (operand m isArgument type) fun r => UsesOnly own (namesWith r) r.1.name := by
  have hnamed {stem : String} (hstem : stem ∈ typedefStems) (type : TypeId)
      (indirection : Indirection) :
      Yields (named stem type indirection) fun r => UsesOnly own (namesWith r) r.1.name := by
    intro serial
    have haux : IsAuxName (stem ++ toString serial.toNat) := ⟨stem, hstem, _, rfl⟩
    exact UsesOnly.of_name (.inr haux)
  unfold operand
  split_ifs
  · exact Yields.pure (hclean type)
  · exact hnamed (by decide) type .none
  · exact hnamed (by decide) type .none
  · simp only
    split_ifs
    · exact hnamed (by decide) _ _
    · exact Yields.pure (hclean _)

theorem cellsFrom_usesOnly (index : Nat) (types : List TypeId) :
    Yields (cellsFrom m index types) fun r =>
      ∀ c ∈ r.1, UsesOnly own (namesWith r) c.operand.name := by
  induction types generalizing index with
  | nil => exact Yields.pure nofun
  | cons type types ih =>
      refine (operand_usesOnly hclean true type).bind fun first hfirst => ?_
      refine (ih (index + 1)).bind fun rest hrest => ?_
      apply Yields.pure
      have happend : namesWith ((⟨index, first.1⟩ :: rest.1 : List Cell), first.2 ++ rest.2) =
          namesWith first ++ namesWith rest := List.map_append
      rw [happend]
      intro c hc
      rcases List.mem_cons.mp hc with rfl | hc
      · exact hfirst.mono (List.subset_append_left _ _)
      · exact (hrest c hc).mono (List.subset_append_right _ _)

/-- A call needs the typedefs of its result and those that are drafted with it. -/
theorem call_uses {ret : String} {before : List String} (hret : UsesOnly own before ret) (n : Nat) :
    Yields (call m t ret n) fun r => r.1.Uses own (before ++ namesWith r) := by
  refine (cellsFrom_usesOnly hclean 0 _).bind fun r hr => ?_
  apply Yields.pure
  apply Call.uses_of_parts
  · intro s hs
    obtain ⟨-, heq⟩ := Option.ite_none_right_eq_some.mp hs
    cases heq
    refine ⟨hret.mono (List.subset_append_left _ _), ?_⟩
    intro p hp
    obtain ⟨type, -, rfl⟩ := List.mem_map.mp hp
    exact (hclean type).mono (List.nil_subset _)
  · intro a ha
    exact (hr a ha).mono (List.subset_append_right _ _)

theorem construction_uses (placement : String) (n : Nat) :
    Yields (construction m t placement n) fun r => r.1.Uses own (namesWith r) := by
  refine (cellsFrom_usesOnly hclean 0 _).bind fun r hr => ?_
  exact Yields.pure (Call.uses_of_parts nofun hr)

theorem voidBlock_scoped (n : Nat) : Yields (voidBlock m t n) (Block.Scoped own) := by
  have hvoid : UsesOnly own [] "void" := .of_initials (by decide)
  refine (call_uses hclean hvoid n).bind fun r hr => ?_
  exact Yields.pure
    (Block.scoped_of_call rfl hr (.of_wordless (by decide)) (by decide) (by decide) fits_leave)

/-- The statement that stores a result takes the typedef of the result. -/
theorem storingBlock_scoped (n : Nat) : Yields (storingBlock m t n) (Block.Scoped own) := by
  refine (operand_usesOnly hclean false t.returnType).bind fun result hresult => ?_
  refine (call_uses hclean (usesOnly_castName hresult) n).bind fun r hr => ?_
  obtain ⟨hstoring, hcloses⟩ := usesOnly_storing hresult
  have hbefore := hstoring.mono (List.subset_append_left _ (namesWith r))
  exact Yields.pure
    (Block.scoped_of_call List.map_append hr hbefore hcloses (by decide) fits_leave)

theorem droppingBlock_scoped (n : Nat) : Yields (droppingBlock m t n) (Block.Scoped own) := by
  unfold droppingBlock
  extract_lets finished
  have hfinished : ∀ r, UsesOnly own (namesWith r) r.1 → Yields (finished r) (Block.Scoped own) := by
    intro result hresult
    refine (call_uses hclean hresult n).bind fun r hr => ?_
    have hbefore : UsesOnly own (namesWith result ++ namesWith r) "(void)(" :=
      .of_initials (by decide)
    exact Yields.pure
      (Block.scoped_of_call List.map_append hr hbefore (by decide) (by decide) fits_leave)
  split_ifs
  · exact hfinished ("", []) (.of_wordless (by decide))
  · refine (operand_usesOnly hclean false t.returnType).bind fun result hresult => ?_
    exact hfinished (result.1.castName, result.2) (usesOnly_castName hresult)

theorem heapBlock_scoped {before : String} (hbefore : UsesOnly own [] before) (hcloses : Closes before)
    (n : Nat) : Yields (heapBlock m t before n) (Block.Scoped own) := by
  refine (construction_uses hclean "" n).bind fun r hr => ?_
  have hmore := hbefore.mono (List.nil_subset (namesWith r))
  exact Yields.pure (Block.scoped_of_call rfl hr hmore hcloses (by decide) fits_leave)

/-- The lines behind a construction at a given place name the class. -/
theorem placingBlock_scoped (hscope : UsesOnly own [] t.scope) (n : Nat) :
    Yields (placingBlock m t n) (Block.Scoped own) := by
  refine (construction_uses hclean "(obj) " n).bind fun r hr => ?_
  have hstored : UsesOnly own [] ("(*(" ++ t.scope ++ "**)ret) = (" ++ t.scope ++ "*)obj;") := by
    have hresult : UsesOnly own [] ("(*(" ++ t.scope ++ "**)ret) = (") :=
      (hscope.behind_wordless (by decide)).followed (by decide) (by decide)
    have hborder := Closes.behind (b := "**)ret) = (") (by decide) (by decide) ("(*(" ++ t.scope)
    exact (hresult.append hscope (.inl hborder)).followed (by decide) (by decide)
  refine Yields.pure (Block.scoped_of_call rfl hr (.of_wordless (by decide)) (by decide)
    (by decide) fun level => ?_)
  have hparenthesis : ("(*(" ++ t.scope ++ "**)ret) = (" ++ t.scope ++ "*)obj;").toList.head? =
      some '(' := by
    simp [String.toList_append]
  have hline : Fits own [.behindCall (level + 1)
      ("(*(" ++ t.scope ++ "**)ret) = (" ++ t.scope ++ "*)obj;")] := by
    apply Fits.behindCall hstored
    · intro heq
      rw [heq] at hparenthesis
      cases hparenthesis
    · intro heq
      rw [heq] at hparenthesis
      cases hparenthesis
  exact (hline.inBraces (.of_initials (by decide))).append (fits_leave level)

theorem body_scoped (hscope : t.constructor = true → UsesOnly own [] t.scope) (n : Nat) :
    Yields (body m t n) (Body.Scoped own) := by
  unfold body
  split_ifs with hconstructor
  · have hclass := hscope hconstructor
    have hresult : UsesOnly own [] ("(*(" ++ t.scope ++ "**)ret) = ") :=
      (hclass.behind_wordless (by decide)).followed (by decide) (by decide)
    have hborder := Closes.behind (b := "**)ret) = ") (by decide) (by decide) ("(*(" ++ t.scope)
    have hnothing : UsesOnly own [] "" := .of_wordless (by decide)
    refine (placingBlock_scoped hclean hclass n).bind fun placing hplacing => ?_
    refine (heapBlock_scoped hclean hresult hborder n).bind fun storing hstoring => ?_
    refine (heapBlock_scoped hclean hnothing (by decide) n).bind fun dropping hdropping => ?_
    apply Yields.pure
    simp only [Body.Scoped, List.forall_mem_cons, List.not_mem_nil, false_imp_iff, implies_true,
      and_true]
    exact ⟨⟨.of_initials (by decide), hplacing⟩,
      ⟨.of_initials (by decide), hstoring⟩, .of_initials (by decide), hdropping⟩
  · exact (voidBlock_scoped hclean n).bind fun block hblock => Yields.pure hblock
  · refine (storingBlock_scoped hclean n).bind fun storing hstoring => ?_
    refine (droppingBlock_scoped hclean n).bind fun dropping hdropping => ?_
    apply Yields.pure
    simp only [Body.Scoped, List.forall_mem_cons, List.not_mem_nil, false_imp_iff, implies_true,
      and_true]
    exact ⟨⟨.of_initials (by decide), hstoring⟩, .of_initials (by decide),
      hdropping⟩

theorem wrapperOf_scoped (hscope : t.constructor = true → UsesOnly own [] t.scope) (required : Nat) :
    Yields (wrapperOf m t required) fun w => ∀ c ∈ w.clauses, c.body.Scoped own :=
  Yields.bind_any fun _ => (clauses_bodies (fun n _ => body_scoped hclean hscope n) required).bind
    fun _ hcs => Yields.pure hcs.2

end Drafting

/-! ## Sources -/

/-- The spelling of the class whose objects a source constructs or destroys. -/
def Order.klass (o : Order) : String :=
  match o.role with
  | .call =>
    match o.model.function? o.decl with
    | some info =>
      let t := ((target o.decl info).run o.model).1
      if t.constructor then t.scope else ""
    | none => ""
  | .destruction => ((classSpelling? o.decl).run o.model).1.getD ""

/-- The word is in the spelling of a type. -/
def Order.Spells (o : Order) (word : String) : Prop :=
  (∃ type, Mentions (o.drafted.typeText type) word) ∨ Mentions o.klass word

/-- All calls of a source name the function that is called, or the class that is constructed, in its
scope, and nothing else. -/
def Source.Calls (o : Order) : Source → Prop
  | .call w => ∃ info, o.model.function? o.decl = some info ∧
    ∀ c ∈ w.clauses, ∀ b ∈ c.body.blocks, b.NamedBy ((target o.decl info).run o.model).1
  | .destruction _ => True

theorem wrapper?_scoped {m : Model} {d : DeclId} {serial next : UInt64} {w : Wrapper}
    (h : ((wrapper? d serial).run m).1 = some (w, next)) :
    ScopedLines (Order.Spells ⟨m, .call, d⟩) [[]] (w.lines (Order.drafted ⟨m, .call, d⟩)) ∧
      (Source.call w).Calls ⟨m, .call, d⟩ := by
  obtain ⟨info, hfunc⟩ := exists_function_of_wrapper? h
  have hdrafted : ((target d info).run m).2 = Order.drafted ⟨m, .call, d⟩ := by
    rw [← run_draft_model _ serial]
    change _ = ((wrapper? d serial).run m).2
    rw [run_wrapper? hfunc]
  rw [run_wrapper? hfunc, hdrafted] at h
  have hw := congrArg Prod.fst (Option.some.inj h)
  have hnamed := wrapperOf_namedBy (Order.drafted ⟨m, .call, d⟩) ((target d info).run m).1
    info.minRequiredArgs serial
  have hklass : ((target d info).run m).1.constructor = true →
      Order.klass ⟨m, .call, d⟩ = ((target d info).run m).1.scope := by
    intro hconstructor
    simp only [Order.klass, hfunc, hconstructor, if_true]
  have hclean (type : TypeId) : UsesOnly (Order.Spells ⟨m, .call, d⟩) []
      ((Order.drafted ⟨m, .call, d⟩).typeText type) := fun _ _ hmentions =>
    .inr (.inl ⟨type, hmentions⟩)
  have hscoped := wrapperOf_scoped hclean
    (fun hconstructor _ _ hmentions => .inr (.inr (hklass hconstructor ▸ hmentions)))
    info.minRequiredArgs serial
  rw [hw] at hscoped hnamed
  exact ⟨Wrapper.scopedLines hscoped _, info, hfunc, hnamed⟩

theorem destroyer?_scoped {m : Model} {d : DeclId} {serial next : UInt64}
    {destroyer : Destroyer} (h : ((destroyer? d serial).run m).1 = some (destroyer, next)) :
    ScopedLines (Order.Spells ⟨m, .destruction, d⟩) [[]] destroyer.lines := by
  rw [run_destroyer?] at h
  obtain ⟨className, hclass, heq⟩ := Option.map_eq_some_iff.mp h
  cases heq
  have hklass : Order.klass ⟨m, .destruction, d⟩ = className := by
    simp only [Order.klass, hclass, Option.getD_some]
  exact Destroyer.scopedLines fun _ _ hmentions => .inr (.inr (hklass ▸ hmentions))

/-- A source that is drafted for an order is scoped: a typedef that a line mentions is declared
before it in the same braces, unless a type is spelled with its name. -/
theorem draft_scoped {o : Order} {n next : UInt64} {source : Source}
    (h : ((draft o.role o.decl n).run o.model).1 = some (source, next)) :
    ScopedLines o.Spells [[]] (source.lines o.drafted) ∧ source.Calls o := by
  obtain ⟨m, role, d⟩ := o
  cases role with
  | call =>
      obtain ⟨⟨w, next'⟩, hw, heq⟩ := Option.map_eq_some_iff.mp h
      cases heq
      exact wrapper?_scoped hw
  | destruction =>
      obtain ⟨⟨destroyer, next'⟩, hd, heq⟩ := Option.map_eq_some_iff.mp h
      cases heq
      exact ⟨destroyer?_scoped hd, trivial⟩

/-- Orders that share a counter draw their names fresh: no number is in two of the symbols and
typedefs of the whole run. And each source that is drafted is scoped: between the braces of its
function every typedef that a line uses is declared before it, in the same braces if its name ends in
a number, unless a type of the model is spelled with that very name. -/
theorem names_fresh_and_scoped (serial : UInt64) (orders : List Order)
    (hcount : ((draftAll serial orders).1.flatMap Source.names).length < UInt64.size) :
    let run := draftAll serial orders
    let names := run.1.flatMap Source.names
    (names.Pairwise NumbersDiffer ∧ (∀ name ∈ names, ∃ i, Carries name i) ∧
      run.2 = serial + UInt64.ofNat names.length) ∧
    ∀ source ∈ run.1, ∃ o ∈ orders, ∃ n next,
      (draft o.role o.decl n).run o.model = (some (source, next), o.drafted) ∧
      source.render o.drafted =
        source.header ++ renderLines (source.lines o.drafted) ++ source.footer ∧
      ScopedLines o.Spells [[]] (source.lines o.drafted) ∧ source.Calls o := by
  intro run names
  obtain ⟨hdrawn, hlast⟩ := draftAll_consecutive serial orders
  refine ⟨⟨hdrawn.pairwise hcount.le, fun name hname => ?_, hlast⟩, fun source hsource => ?_⟩
  · obtain ⟨i, -, hcarries⟩ := hdrawn.exists_number hname
    exact ⟨_, hcarries⟩
  · obtain ⟨o, ho, n, next, hdrafted⟩ := exists_order hsource
    exact ⟨o, ho, n, next, Prod.ext hdrafted (run_draft_model o n), source.render_eq _,
      draft_scoped hdrafted⟩

/-- A model with a class `K`, whose constructor takes a pointer to a function, and the function
`pick`, which gives one back. -/
def callbackModel : Model :=
  [Request.declareRecord Model.root "K" .struct true,
    .declareFunction (.constructor ⟨1⟩) [.params [⟨"visitor", ⟨5⟩, none⟩]],
    .declareFunction (.function Model.root "pick" ⟨5⟩) []].foldl
    (fun m request => (request.perform.run m).2) visitTypes

/-- Orders for the constructor and the destructor of `K`, and for `pick`. -/
def callbackOrders : List Order :=
  [⟨callbackModel, .call, ⟨2⟩⟩, ⟨callbackModel, .destruction, ⟨1⟩⟩, ⟨callbackModel, .call, ⟨3⟩⟩]

/-- The text of a type is told by its node. -/
theorem typeText_of_node {m : Model} {s t : TypeId} (h : m.node s = m.node t) :
    m.typeText s = m.typeText t := by
  simp only [Model.typeText, Model.printType, Model.typeFuel, Model.printFrom, h]

/-- Without their initials in the types of the table, no names of typedefs are spelled: all types that
are not in the table are spelled alike. -/
theorem Order.not_spells {o : Order}
    (htypes : ∀ i < o.drafted.types.size + 1, Lacks (o.drafted.typeText ⟨i⟩) typedefInitials)
    (hklass : Lacks o.klass typedefInitials) {word : String}
    (hword : IsTypedefName word) : ¬o.Spells word := by
  have hnone {text : String} (htext : Lacks text typedefInitials) : ¬Mentions text word := fun hmentions => by
    have huses : UsesOnly (fun _ => False) [] text := .of_initials htext
    simpa using huses word hword hmentions
  rintro (⟨⟨i⟩, hmentions⟩ | hmentions)
  · by_cases hi : i < o.drafted.types.size + 1
    · exact hnone (htypes i hi) hmentions
    · have hunknown (j : Nat) (hj : o.drafted.types.size ≤ j) :
          o.drafted.node ⟨j⟩ = ⟨.void, .none⟩ := by
        rw [Model.node, TypeTable.get?, Array.getElem?_eq_none hj]
        rfl
      have houtside : o.drafted.node ⟨i⟩ = o.drafted.node ⟨o.drafted.types.size⟩ :=
        (hunknown i (by omega)).trans (hunknown _ le_rfl).symm
      rw [typeText_of_node houtside] at hmentions
      exact hnone (htypes _ (Nat.lt_succ_self _)) hmentions
  · exact hnone hklass hmentions

/-- The sources of three orders, none of whose types is spelled with the name of a typedef. -/
theorem names_fresh_and_scoped_callbacks :
    let sources := (draftAll 7 callbackOrders).1
    sources.map Source.names = [["__cf_7", "FP8", "FP9", "FP10"], ["__dtor_11"],
      ["__cf_12", "FP13", "FP14"]] ∧
    (sources.flatMap Source.names).Pairwise NumbersDiffer ∧
    ∀ source ∈ sources, ∃ o ∈ callbackOrders,
      ScopedLines o.Spells [[]] (source.lines o.drafted) ∧
      ∀ word, IsTypedefName word → ¬o.Spells word := by
  intro sources
  have hnames : sources.map Source.names = [["__cf_7", "FP8", "FP9", "FP10"], ["__dtor_11"],
      ["__cf_12", "FP13", "FP14"]] := by
    decide +kernel
  have hlength : (sources.flatMap Source.names).length = 8 := by
    rw [List.flatMap_def, hnames]
    rfl
  have hcount : (sources.flatMap Source.names).length < UInt64.size := by
    rw [hlength]
    decide
  obtain ⟨⟨hfresh, -⟩, hsources⟩ := names_fresh_and_scoped 7 callbackOrders hcount
  refine ⟨hnames, hfresh, fun source hsource => ?_⟩
  obtain ⟨o, ho, n, next, -, -, hscoped, -⟩ := hsources source hsource
  have hclean : ∀ o ∈ callbackOrders,
      (∀ i < o.drafted.types.size + 1, Lacks (o.drafted.typeText ⟨i⟩) typedefInitials) ∧
        Lacks o.klass typedefInitials := by
    decide +kernel
  exact ⟨o, ho, hscoped, fun _ => Order.not_spells (hclean o ho).1 (hclean o ho).2⟩

end Trampoline

end CppReflect
