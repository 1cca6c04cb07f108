import CppReflect.Proofs.Model.InlineTypes
import CppReflect.Proofs.Trampoline.Clauses

/-!
# The types of arguments in trampolines

An argument is taken out of its cell through casts that are put together from text: the name of what
is left of the parameter's type once a pointer or reference is taken off, and signs behind it. With
the typedefs of the block in scope the casts denote the type of the parameter, if what is left has a
typedef or is spelled inline. A function and what is made of one by a pointer have neither, where a
reference or a pointer is taken off in front of them, nor has a pointer to an array.
-/

namespace CppReflect

open Spelling (Identifier Reserved)

/-- The type with other qualifiers at its top. -/
def TypeTree.requalified (q : Quals) : TypeTree → TypeTree
  | .node shape _ parts => .node shape q parts

namespace Trampoline

variable {m scope : Model} {t : TypeId}

/-! ## Names of typedefs -/

/-- The stems of the names that typedefs have. -/
def typedefStems : List String := ["FP", "MP", "AR"]

/-- The name is a stem with a number behind it. -/
def IsAuxName (name : String) : Prop := ∃ stem ∈ typedefStems, ∃ n : Nat, name = stem ++ toString n

theorem reserved_head? {w : String} (h : Reserved w) :
    w.toList.head? ∉ [some 'F', some 'M', some 'A'] := by
  have hwords : w ∈ ["const", "volatile", "restrict", "__restrict", "__restrict__"] ++
      Spelling.elaboratedWords ++ Spelling.builtinWords := by
    rcases h with hqual | helaborated | hbuiltin
    · refine List.mem_append_left _ (List.mem_append_left _ ?_)
      unfold Quals.ofWord? at hqual
      split_ifs at hqual <;> simp_all
    · exact List.mem_append_left _ (List.mem_append_right _ (List.contains_iff_mem.mp helaborated))
    · exact List.mem_append_right _ (List.contains_iff_mem.mp hbuiltin)
  have hall : ∀ v ∈ ["const", "volatile", "restrict", "__restrict", "__restrict__"] ++
      Spelling.elaboratedWords ++ Spelling.builtinWords,
      v.toList.head? ∉ [some 'F', some 'M', some 'A'] := by
    decide +kernel
  exact hall w hwords

/-- Such a name is an identifier that means nothing else in a type. -/
theorem IsAuxName.identifier {name : String} (h : IsAuxName name) :
    Identifier name ∧ ¬Reserved name := by
  obtain ⟨stem, hstem, n, rfl⟩ := h
  have hdigits : ∀ c ∈ (toString n).toList, Spelling.Token.continuesWord c = true := by
    intro c hc
    rw [Nat.toString_eq_ofList_toDigits, String.toList_ofList] at hc
    have hdigit := Nat.isDigit_of_mem_toDigits (by decide) (by decide) hc
    unfold Spelling.Token.continuesWord
    rw [Text.isAlphanumeric_of_isDigit hdigit]
    rfl
  have hfront : ∃ c cs, stem.toList = c :: cs ∧ Spelling.Token.startsWord c = true ∧
      (∀ d ∈ cs, Spelling.Token.continuesWord d = true) ∧
      some c ∈ [some 'F', some 'M', some 'A'] := by
    simp only [typedefStems, List.mem_cons, List.not_mem_nil, or_false] at hstem
    rcases hstem with rfl | rfl | rfl
    · exact ⟨'F', ['P'], rfl, by decide, List.all_eq_true.mp rfl, by decide⟩
    · exact ⟨'M', ['P'], rfl, by decide, List.all_eq_true.mp rfl, by decide⟩
    · exact ⟨'A', ['R'], rfl, by decide, List.all_eq_true.mp rfl, by decide⟩
  obtain ⟨c, cs, hstem, hc, hcs, hhead⟩ := hfront
  have hname : (stem ++ toString n).toList = c :: (cs ++ (toString n).toList) := by
    rw [String.toList_append, hstem, List.cons_append]
  refine ⟨⟨c, _, hname, hc, List.forall_mem_append.mpr ⟨hcs, hdigits⟩⟩, fun hreserved => ?_⟩
  have hnot := reserved_head? hreserved
  rw [hname] at hnot
  exact hnot hhead

/-- The scope knows what the model knows, and each typedef by its name alone. -/
structure Declared (m scope : Model) (typedefs : List AuxTypedef) : Prop where
  wellFormed : scope.WellFormed
  grows : m.GrowsTo scope
  named : ∀ d ∈ typedefs, ∃ c, scope.SoleName c d.name ∧ (scope.decl c).underlying? = some d.type

theorem Declared.sublist {typedefs typedefs' : List AuxTypedef} (h : Declared m scope typedefs')
    (hsub : typedefs ⊆ typedefs') : Declared m scope typedefs :=
  ⟨h.wellFormed, h.grows, fun d hd => h.named d (hsub hd)⟩

/-- A typedef with a fresh name can be declared. -/
theorem exists_declared (h : m.WellFormed) {d : AuxTypedef} (ht : m.HasType d.type)
    (hfresh : ∀ c, m.HasDecl c → (m.decl c).name ≠ d.name) : ∃ scope, Declared m scope [d] := by
  have hdeclared := Model.declareTypedef_soleName h ht hfresh
  refine ⟨_, hdeclared.wellFormed, hdeclared.grows, ?_⟩
  simp only [List.mem_singleton, forall_eq]
  exact ⟨_, hdeclared.answer⟩

/-- The name of a typedef denotes what it stands for. -/
theorem Declared.fronts {d : AuxTypedef} (h : Declared m scope [d]) (hwf : m.WellFormed)
    (hname : IsAuxName d.name) (ht : m.HasType d.type) :
    scope.Fronts Model.root d.name (m.canonTree d.type) := by
  obtain ⟨c, hsole, hunder⟩ := h.named d List.mem_cons_self
  obtain ⟨hidentifier, hfree⟩ := hname.identifier
  have hfronts := hsole.fronts h.wellFormed hidentifier hfree hunder
    h.wellFormed.translationUnit.1
  rwa [hwf.canonTree_grows h.wellFormed h.grows ht] at hfronts

/-! ## Operands -/

/-- What is taken off a type, and then spelled, is told by a typedef or inline. -/
def Speakable (m scope : Model) (t : TypeId) : Prop :=
  m.isFunctionPointer t = true ∨ m.isMemberPointer t = true ∨ m.isArray (peel m t).2 = true ∨
    m.Inline scope (peel m t).2

/-- The operand names what is left of the type. -/
inductive Operand.Names (scope : Model) : Operand → TypeTree → Prop
  | none {name : String} {P : TypeTree} (hP : P.isReference = false)
      (hname : scope.Fronts Model.root name P) : Names scope ⟨name, .none⟩ P
  | pointer {name : String} {T : TypeTree} (q : Quals) (hname : scope.Fronts Model.root name T)
      (hT : T.shape.isFunction = false) : Names scope ⟨name, .pointer⟩ (T.pointed q)
  | lvalueReference {name : String} {T : TypeTree} (q : Quals)
      (hname : scope.Fronts Model.root name T) (hT : T.isReference = false)
      (hends : name.toList.getLast? ≠ some '&') :
      Names scope ⟨name, .lvalueReference⟩ ((T.referenced .lvalueReference).requalified q)
  | rvalueReference {name : String} {T : TypeTree} (q : Quals)
      (hname : scope.Fronts Model.root name T) (hT : T.isReference = false)
      (hends : name.toList.getLast? ≠ some '&') :
      Names scope ⟨name, .rvalueReference⟩ ((T.referenced .rvalueReference).requalified q)

/-- What is left of a type is named with what was taken off. -/
theorem names_of_peel (h : m.WellFormed) (ht : m.HasType t) {name : String}
    (hname : scope.Fronts Model.root name (m.canonTree (peel m t).2))
    (hends : name.toList.getLast? ≠ some '&') (hfunction : m.isFunctionPointer t = false)
    (hrest : (m.canonTree (peel m t).2).isReference = false) :
    Operand.Names scope ⟨name, (peel m t).1⟩ (m.canonTree t) := by
  have htree := h.canonTree_eq ht
  unfold peel at hname hrest ⊢
  unfold Model.isFunctionPointer at hfunction
  cases hkind : m.kindOf t with
  | pointer p =>
      simp only [hkind] at hname htree hfunction ⊢
      rw [htree]
      refine .pointer _ hname ?_
      have hpart : p ∈ (m.kindOf t).parts := by simp [hkind, TypeKind.parts]
      rw [h.canonTree_eq (h.desugared_parts hpart).2]
      cases hpointee : m.kindOf p <;> first | rfl | simp [hpointee, TypeKind.isFunction] at hfunction
  | lvalueReference p =>
      simp only [hkind] at hname htree hrest ⊢
      have hnames := Operand.Names.lvalueReference (m.desugared t).quals hname hrest hends
      rw [TypeTree.referenced, TypeTree.referred_of_not_isReference hrest] at hnames
      rw [htree]
      exact hnames
  | rvalueReference p =>
      simp only [hkind] at hname htree hrest ⊢
      have hnames := Operand.Names.rvalueReference (m.desugared t).quals hname hrest hends
      rw [TypeTree.referenced, TypeTree.referred_of_not_isReference hrest] at hnames
      rw [htree]
      exact hnames
  | void | builtin | record | enum | typedef | constantArray | incompleteArray | function
  | memberPointer | complex | named =>
      simp only [hkind] at hname hrest ⊢
      exact .none hrest hname

/-! ## Casts -/

/-- The casts of an argument denote the type of the parameter: the type of pointers to it, if it is
no reference, and otherwise the reference itself and, behind it, the type of pointers to what it
refers to. Qualifiers at the top of the parameter's type do not matter. -/
structure Cell.Marshals (scope : Model) (c : Cell) (P : TypeTree) : Prop where
  value : P.isReference = false → ∃ cast q,
    c.text = "*(" ++ cast ++ ")" ++ ("args[" ++ toString c.index ++ "]") ∧
      scope.Denotes (Model.parseType cast Model.root) ((P.requalified q).pointed .none)
  reference : P.isReference = true → ∃ outer cast,
    c.text = "(" ++ outer ++ ")*(" ++ cast ++ ")" ++ ("args[" ++ toString c.index ++ "]") ∧
      scope.Denotes (Model.parseType outer Model.root) (P.requalified .none) ∧
      scope.Denotes (Model.parseType cast Model.root) (P.referred.pointed .none)

/-- An operand that names what is left of the type is read through casts that denote the type. -/
theorem Operand.Names.marshals {o : Operand} {P : TypeTree} (h : o.Names scope P) (index : Nat) :
    Cell.Marshals scope ⟨index, o⟩ P := by
  cases h with
  | @none name P hP hname =>
      refine ⟨fun _ => ?_, fun hreference => ?_⟩
      · obtain ⟨shape, quals, parts⟩ := P
        refine ⟨name ++ "*", quals, String.toList_injective ?_, hname.star.denotes⟩
        simp [Cell.text]
      · rw [hP] at hreference
        cases hreference
  | @pointer name T q hname hT =>
      refine ⟨fun _ => ?_, fun hreference => ?_⟩
      · refine ⟨name ++ "**", .none, String.toList_injective ?_, hname.stars.denotes⟩
        simp [Cell.text]
      · cases hreference
  | @lvalueReference name T q hname hT hends =>
      refine ⟨fun hvalue => ?_, fun _ => ?_⟩
      · cases hvalue
      · have hreferred : ((T.referenced .lvalueReference).requalified q).referred = T :=
          TypeTree.referred_of_not_isReference hT
        refine ⟨name ++ "&", name ++ "*", String.toList_injective ?_, (hname.ampersand hends).denotes,
          hreferred.symm ▸ hname.star.denotes⟩
        simp [Cell.text]
  | @rvalueReference name T q hname hT hends =>
      refine ⟨fun hvalue => ?_, fun _ => ?_⟩
      · cases hvalue
      · have hlvalue := TypeTree.isLvalueReference_of_not_isReference hT
        have hreferred : ((T.referenced .rvalueReference).requalified q).referred = T :=
          TypeTree.referred_of_not_isReference hT
        refine ⟨name ++ "&&", name ++ "*", String.toList_injective ?_,
          (hname.ampersands hends hlvalue).denotes, hreferred.symm ▸ hname.star.denotes⟩
        simp [Cell.text]

/-! ## Drafting operands -/

theorem peel_hasType (h : m.WellFormed) (ht : m.HasType t) : m.HasType (peel m t).2 := by
  have hpart : (peel m t).2 = t ∨ (peel m t).2 ∈ (m.kindOf t).parts := by
    unfold peel
    cases m.kindOf t <;> simp [TypeKind.parts]
  rcases hpart with heq | hmem
  · rwa [heq]
  · exact (h.desugared_parts hmem).2

/-- A typedef names what an operand is drafted for if every name of what the typedef stands for
does. -/
theorem named_names (h : m.WellFormed) (ht : m.HasType t) {stem : String} {indirection : Indirection}
    {P : TypeTree} (hstem : stem ∈ typedefStems)
    (hnames : ∀ {scope : Model} {name : String}, scope.Fronts Model.root name (m.canonTree t) →
      name.toList.getLast? ≠ some '&' → Operand.Names scope ⟨name, indirection⟩ P) :
    Yields (named stem t indirection) fun r =>
      ∀ scope, Declared m scope r.2 → r.1.Names scope P := by
  intro serial scope hdeclared
  have hname : IsAuxName (stem ++ toString serial.toNat) := ⟨stem, hstem, serial.toNat, rfl⟩
  exact hnames (hdeclared.fronts h hname ht) hname.identifier.1.getLast?_ne

/-- What an operand is drafted for is named by it, if it has a typedef or is spelled inline. -/
theorem operand_names (h : m.WellFormed) (ht : m.HasType t) (isArgument : Bool) :
    Yields (operand m isArgument t) fun r => ∀ scope, Declared m scope r.2 →
      Speakable m scope t → r.1.Names scope (m.canonTree t) := by
  have hreference := h.isReference_canonTree ht
  have hrest := h.isReference_canonTree (peel_hasType h ht)
  have htypedef {stem : String} (hstem : stem ∈ typedefStems)
      (hvalue : (m.kindOf t).referee?.isSome = false) : Yields (named stem t .none) fun r =>
        ∀ scope, Declared m scope r.2 → Speakable m scope t → r.1.Names scope (m.canonTree t) :=
    (named_names h ht hstem fun hname _ => .none (hreference.trans hvalue) hname).mono
      fun _ hr scope hdeclared _ => hr scope hdeclared
  unfold operand
  split_ifs with hrecord hfunction hmember
  · -- a class is no pointer or reference, and is spelled as a whole
    have hkind : ∃ d, m.kindOf t = .record d := by
      simp only [Bool.and_eq_true, Model.isRecord] at hrecord
      split at hrecord
      next d hkind => exact ⟨d, hkind⟩
      next => simp at hrecord
    obtain ⟨d, hkind⟩ := hkind
    refine Yields.pure fun scope _ hspeakable => ?_
    simp only [Speakable, Model.isFunctionPointer, Model.isMemberPointer, peel, Model.isArray, hkind,
      TypeKind.element?, Option.isSome_none, Bool.false_eq_true, false_or] at hspeakable
    exact .none (hspeakable.not_isReference h) (hspeakable.fronts h)
  · refine htypedef List.mem_cons_self ?_
    unfold Model.isFunctionPointer at hfunction
    split at hfunction
    next p hkind => rw [hkind]; rfl
    next => cases hfunction
  · refine htypedef (List.mem_cons_of_mem _ List.mem_cons_self) ?_
    unfold Model.isMemberPointer at hmember
    split at hmember
    next p c hkind => rw [hkind]; rfl
    next => cases hmember
  · simp only
    split_ifs with harray
    · refine (named_names h (peel_hasType h ht) (P := m.canonTree t) (by decide)
        fun hname hends => ?_).mono fun _ hr scope hdeclared _ => hr scope hdeclared
      refine names_of_peel h ht hname hends (by simpa using hfunction) (hrest.trans ?_)
      unfold Model.isArray at harray
      cases hkind : m.kindOf (peel m t).2 <;> first | rfl | simp [hkind, TypeKind.element?] at harray
    · refine Yields.pure fun scope _ hspeakable => ?_
      have hinline : m.Inline scope (peel m t).2 := by
        simpa [Speakable, hfunction, hmember, harray] using hspeakable
      exact names_of_peel h ht (hinline.fronts h) (hinline.getLast?_ne h) (by simpa using hfunction)
        (hinline.not_isReference h)

/-! ## Drafting cells -/

/-- Each argument whose type has a typedef or is spelled inline is marshalled with it, in whatever
scope the typedefs are declared. -/
def Marshalled (m : Model) (ts : List TypeId) (cells : List Cell) (typedefs : List AuxTypedef) :
    Prop :=
  ∀ scope, Declared m scope typedefs → List.Forall₂ (fun t c =>
    Speakable m scope t → c.Marshals scope (m.canonTree t)) ts cells

theorem cellsFrom_marshalled (h : m.WellFormed) (index : Nat) {ts : List TypeId}
    (hts : ∀ t ∈ ts, m.HasType t) :
    Yields (cellsFrom m index ts) fun r => Marshalled m ts r.1 r.2 := by
  induction ts generalizing index with
  | nil => exact Yields.pure fun _ _ => .nil
  | cons t ts ih =>
      obtain ⟨ht, hts⟩ := List.forall_mem_cons.mp hts
      refine (operand_names h ht true).bind fun first hfirst => ?_
      refine (ih (index + 1) hts).bind fun rest hrest => Yields.pure fun scope hdeclared => ?_
      have hmarshalled := hrest scope (hdeclared.sublist (List.subset_append_right _ _))
      refine .cons (fun hspeakable => ?_) hmarshalled
      have hnames := hfirst scope (hdeclared.sublist (List.subset_append_left _ _)) hspeakable
      exact hnames.marshals index

theorem wrapperOf_marshalled (h : m.WellFormed) {target : Target}
    (hparams : ∀ t ∈ target.params, m.HasType t) (required : Nat) :
    Yields (wrapperOf m target required) fun w => ∀ c ∈ w.clauses, ∀ b ∈ c.body.blocks,
      Marshalled m (target.params.take (c.count.getD target.params.length)) b.call.args
        b.typedefs := by
  have hbody (n : Nat) : Yields (body m target n) fun b => b.blocks ≠ [] ∧ ∀ block ∈ b.blocks,
      Marshalled m (target.params.take n) block.call.args block.typedefs := by
    refine body_cells ?_ fun cells typedefs front hcells scope hdeclared =>
      hcells scope (hdeclared.sublist (List.subset_append_right _ _))
    exact cellsFrom_marshalled h 0 fun t ht => hparams t (List.mem_of_mem_take ht)
  exact Yields.bind_any fun _ => (clauses_bodies (fun n _ => hbody n) required).bind
    fun cs hcs => Yields.pure fun c hc b hb => (hcs.2 c hc).2 b hb

/-! ## Trampolines -/

/-- The target of a call has the canonical forms of the types that the function is declared with. -/
structure Target.Describes (t : Target) (trees : TypeId → TypeTree) (m : Model)
    (info : FunctionInfo) : Prop where
  params : List.Forall₂ (fun p u => m.Written (trees p.type) u) info.params t.params
  returnType : m.Written (trees info.returnType) t.returnType
  variadic : t.variadic = info.variadic
  isMember : t.isMember = info.method.isSome
  constructor : t.constructor = info.isConstructor

theorem scopeSpelling_keeps (h : m.WellFormed) (func : DeclId) :
    m.Keeps (scopeSpelling func) fun _ _ => True := by
  refine Model.Keeps.get_bind ?_
  split
  next => exact .pure h trivial
  next parent hparent =>
    split
    next hrecord =>
      have hex : m.HasDecl parent := Model.hasDecl_of_ne_rootDecl fun heq => by
        simp [heq, Model.rootDecl, Decl.isRecord, Decl.record?] at hrecord
      refine (Model.internKind_keeps h (by simp [TypeKind.parts])
        (by rintro _ ⟨rfl⟩; exact hex)).bind fun t m' hwf _ _ => ?_
      exact Model.Keeps.get_bind (.pure hwf trivial)
    next => exact .pure h trivial

theorem target_describes (h : m.WellFormed) {func : DeclId} {info : FunctionInfo}
    (hfunc : m.function? func = some info) :
    m.Keeps (target func info) fun t m' => t.Describes m.canonTree m' info := by
  obtain ⟨e, he, hinfo⟩ := Option.bind_eq_some_iff.mp hfunc
  have htypes : ∀ t ∈ info.returnType :: info.params.map ParamInfo.type, m.HasType t := by
    intro t ht
    refine h.types func e he t ?_
    unfold Decl.function? at hinfo
    split at hinfo
    next hkind =>
      cases hinfo
      rw [hkind]
      exact List.mem_append_left _ ht
    next => cases hinfo
  have hcanonical {m₁ : Model} (hwf₁ : m₁.WellFormed) (hgrow₁ : m.GrowsTo m₁) {t : TypeId}
      (ht : m.HasType t) :
      m₁.Keeps (Model.canonical t) fun u m' => m'.Written (m.canonTree t) u := by
    rw [← h.canonTree_grows hwf₁ hgrow₁ ht]
    exact Model.canonical_written hwf₁ (hgrow₁.hasType ht)
  refine (Model.Keeps.mapM_forall₂ (P := fun t u m' => m'.Written (m.canonTree t) u)
    (fun hwf hwf' hgrow hu => hu.grows hwf hwf' hgrow) h fun t ht m' hwf hgrow =>
      hcanonical hwf hgrow (htypes t (List.mem_cons_of_mem _ ht))).bind
    fun params m₁ hwf₁ hgrow₁ hparams => Model.Keeps.get_bind ?_
  refine (scopeSpelling_keeps hwf₁ func).bind fun scope m₂ hwf₂ hgrow₂ _ => ?_
  refine (hcanonical hwf₂ (hgrow₁.trans hgrow₂) (htypes _ List.mem_cons_self)).bind
    fun returnType m₃ hwf₃ hgrow₃ hret => .pure hwf₃ ⟨?_, hret, rfl, rfl, rfl⟩
  exact (List.forall₂_map_left_iff.mp hparams).imp fun _ _ hu =>
    hu.grows hwf₁ hwf₃ (hgrow₂.trans hgrow₃)

/-- The type is told by a typedef or inline. -/
def Spoken (m scope : Model) (P : TypeTree) : Prop := ∃ t, m.Written P t ∧ Speakable m scope t

/-- The arguments of a call are marshalled with the types of the parameters that they are passed for,
as far as these are spoken, in whatever scope knows the types and has the typedefs of the block. -/
def Block.Marshals (m : Model) (types : List TypeTree) (b : Block) : Prop :=
  ∀ scope, Declared m scope b.typedefs → List.Forall₂ (fun P c =>
    Spoken m scope P → c.Marshals scope P) types b.call.args

theorem Block.marshals_of_marshalled (h : m.WellFormed) {b : Block} {ts : List TypeId}
    {types : List TypeTree} (htypes : List.Forall₂ m.Written types ts)
    (hb : Marshalled m ts b.call.args b.typedefs) : b.Marshals m types := by
  intro scope hdeclared
  have hcells := hb scope hdeclared
  generalize b.call.args = cells at hcells ⊢
  clear hb
  induction htypes generalizing cells with
  | nil => cases hcells; exact .nil
  | cons ht _ ih =>
      cases hcells with
      | cons hcell hcells =>
          refine .cons (fun hspoken => ?_) (ih _ hcells)
          obtain ⟨u, hu, hspeakable⟩ := hspoken
          obtain rfl := (hu.eq_iff ht h).mpr rfl
          exact ht.canonTree ▸ hcell hspeakable

/-- Every function of a reachable model has a trampoline, and each call in it passes the cells of its
clause in order and marshals each argument with the type of the parameter at its place, if that type
is spoken. -/
theorem arguments_marshalled (hm : m.Reachable) {func : DeclId} {info : FunctionInfo}
    (hfunc : m.function? func = some info) (serial : UInt64) :
    ∃ w next, ((wrapper? func serial).run m).1 = some (w, next) ∧
      ∀ c ∈ w.clauses, ∀ b ∈ c.body.blocks,
        b.reads = List.range (c.count.getD info.params.length) ∧
        b.Marshals ((wrapper? func serial).run m).2
          ((info.params.take (c.count.getD info.params.length)).map (m.canonTree ·.type)) := by
  obtain ⟨w, next, hrun, hunpacks⟩ := wrapper?_unpacks hfunc serial
  refine ⟨w, next, hrun, fun c hc b hb => ⟨(hunpacks.clauses c hc).reads b hb, ?_⟩⟩
  have hdescribes := target_describes hm.wellFormed hfunc
  have hwf := hdescribes.wellFormed
  have hparams := hdescribes.answer.params
  have hmarshalled := wrapperOf_marshalled hwf
    (Model.forall_mem_of_forall₂ hparams fun _ _ hu => hu.hasType) info.minRequiredArgs
  rw [run_wrapper? hfunc] at hrun ⊢
  obtain ⟨rfl, -⟩ := Prod.mk.inj (Option.some.inj hrun)
  have hblock := hmarshalled serial c hc b hb
  rw [← hparams.length_eq] at hblock
  refine Block.marshals_of_marshalled hwf ?_ hblock
  rw [List.forall₂_map_left_iff]
  exact List.forall₂_take _ hparams

/-- The model after the texts of some types are read. -/
def withTypes (texts : List String) : Model :=
  texts.foldl (fun m text => ((Request.parseType text Model.root).perform.run m).2) .empty

theorem withTypes_reachable (texts : List String) : (withTypes texts).Reachable := by
  have hread (texts : List String) {m : Model} (hm : m.Reachable) :
      (texts.foldl (fun m text => ((Request.parseType text Model.root).perform.run m).2)
        m).Reachable := by
    induction texts generalizing m with
    | nil => exact hm
    | cons text texts ih =>
        exact ih (.step hm (.parseType text Model.root) hm.wellFormed.translationUnit.1)
  exact hread texts .empty

/-- What is known of `void visit(int **, int &, int (*)(int))`. -/
def visitInfo : FunctionInfo where
  returnType := ⟨6⟩
  params := [⟨"rows", ⟨2⟩, none⟩, ⟨"count", ⟨3⟩, none⟩, ⟨"visitor", ⟨5⟩, none⟩]

/-- A model with the types that the function is declared with. -/
def visitTypes : Model := withTypes ["int **", "int &", "int (*)(int)", "void"]

/-- A model with that function. -/
def visitModel : Model :=
  ((Request.declareFunction (.function Model.root "visit" ⟨6⟩)
    [.params visitInfo.params]).perform.run visitTypes).2

theorem visitModel_reachable : visitModel.Reachable := by
  refine .step (withTypes_reachable _) (.declareFunction _ _)
    ⟨⟨by decide +kernel, by decide +kernel⟩, ?_⟩
  rintro _ (_ | ⟨_, ⟨⟩⟩)
  change ∀ p ∈ visitInfo.params, visitTypes.HasType p.type
  decide +kernel

/-- All arguments of `visit` are marshalled where the typedef of its block is declared. -/
theorem arguments_marshalled_visit :
    (visitModel.Reachable ∧ visitModel.function? ⟨1⟩ = some visitInfo) ∧
      ∃ w next, ((wrapper? ⟨1⟩ 1).run visitModel).1 = some (w, next) ∧
        ∀ c ∈ w.clauses, ∀ b ∈ c.body.blocks, ∃ scope,
          Declared ((wrapper? ⟨1⟩ 1).run visitModel).2 scope b.typedefs ∧
          List.Forall₂ (fun P a => a.Marshals scope P)
            ([⟨2⟩, ⟨3⟩, ⟨5⟩].map visitModel.canonTree) b.call.args := by
  have hreachable := visitModel_reachable
  have hvisit : visitModel.function? ⟨1⟩ = some visitInfo := by decide +kernel
  refine ⟨⟨hreachable, hvisit⟩, ?_⟩
  obtain ⟨w, next, hrun, hblocks⟩ := arguments_marshalled hreachable hvisit 1
  refine ⟨w, next, hrun, fun c hc b hb => ?_⟩
  have hdrafted : ∀ c ∈ (((wrapper? ⟨1⟩ 1).run visitModel).1.getD default).1.clauses,
      c.count = none ∧ ∀ b ∈ c.body.blocks, b.typedefs = [⟨"FP2", ⟨5⟩⟩] := by decide +kernel
  rw [hrun] at hdrafted
  obtain ⟨hcount, htypedefs⟩ := hdrafted c hc
  have hmarshals := (hblocks c hc b hb).2
  rw [hcount] at hmarshals
  rw [htypedefs b hb]
  have hparams : ((target ⟨1⟩ visitInfo).run visitModel).1.params = [⟨2⟩, ⟨3⟩, ⟨5⟩] := by
    decide +kernel
  have hdescribes := target_describes hreachable.wellFormed hvisit
  have hmodel : ((wrapper? ⟨1⟩ 1).run visitModel).2 = ((target ⟨1⟩ visitInfo).run visitModel).2 := by
    rw [run_wrapper? hvisit]
  rw [hmodel] at hmarshals ⊢
  have hwf := hdescribes.wellFormed
  have hwritten := hdescribes.answer.params
  rw [hparams] at hwritten
  have hfresh : ∀ i < ((target ⟨1⟩ visitInfo).run visitModel).2.decls.size,
      (((target ⟨1⟩ visitInfo).run visitModel).2.decl ⟨i⟩).name ≠ "FP2" := by decide +kernel
  have hnodes : ∀ p ∈ [((⟨0⟩ : TypeId), (⟨.builtin .int, .none⟩ : TypeNode)),
      (⟨1⟩, ⟨.pointer ⟨0⟩, .none⟩)],
      ((target ⟨1⟩ visitInfo).run visitModel).2.types.get? p.1 = some p.2 := by decide +kernel
  have hpeeled : peel ((target ⟨1⟩ visitInfo).run visitModel).2 ⟨2⟩ = (.pointer, ⟨1⟩) ∧
      peel ((target ⟨1⟩ visitInfo).run visitModel).2 ⟨3⟩ = (.lvalueReference, ⟨0⟩) ∧
      ((target ⟨1⟩ visitInfo).run visitModel).2.isFunctionPointer ⟨5⟩ = true := by decide +kernel
  generalize ((target ⟨1⟩ visitInfo).run visitModel).2 = drafted at *
  have hex : ∀ t ∈ [(⟨2⟩ : TypeId), ⟨3⟩, ⟨5⟩], drafted.HasType t :=
    Model.forall_mem_of_forall₂ hwritten fun _ _ hu => hu.hasType
  obtain ⟨scope, hscope⟩ := exists_declared (d := ⟨"FP2", ⟨5⟩⟩) hwf (hex _ (by simp))
    fun d hd => hfresh d.index hd
  refine ⟨scope, hscope, ?_⟩
  have htells := Model.Tells.builtin hwf scope (hnodes _ List.mem_cons_self) (by decide) (by decide)
  have hint : drafted.Inline scope ⟨0⟩ := ⟨_, htells, nofun⟩
  have hrows : drafted.Inline scope ⟨1⟩ :=
    ⟨_, .pointer htells (hnodes _ (List.mem_cons_of_mem _ List.mem_cons_self)) (by decide),
      List.forall_mem_singleton.mpr ⟨rfl, rfl⟩⟩
  have hspeakable : ∀ t ∈ [(⟨2⟩ : TypeId), ⟨3⟩, ⟨5⟩], Speakable drafted scope t := by
    simp only [List.mem_cons, List.not_mem_nil, or_false, forall_eq_or_imp, forall_eq, Speakable,
      hpeeled, hint, hrows, or_true, true_or, and_self]
  have hspoken : ∀ P ∈ visitInfo.params.map (visitModel.canonTree ·.type),
      Spoken drafted scope P := by
    simp only [visitInfo, List.map_cons, List.map_nil, List.forall₂_cons, List.mem_cons,
      List.not_mem_nil, or_false, forall_eq_or_imp, forall_eq] at hwritten hspeakable ⊢
    obtain ⟨hrows, hcount, hvisitor, -⟩ := hwritten
    exact ⟨⟨_, hrows, hspeakable.1⟩, ⟨_, hcount, hspeakable.2.1⟩, _, hvisitor, hspeakable.2.2⟩
  have hcells := hmarshals scope (htypedefs b hb ▸ hscope)
  exact ((List.forall₂_and_left _ _).mpr ⟨hspoken, hcells⟩).imp fun _ _ hcell => hcell.2 hcell.1

end Trampoline

end CppReflect
