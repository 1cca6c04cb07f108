import CppReflect.Proofs.Ast.Ingest

/-!
# Reachable models

The models that a client can bring about: it starts with the translation unit, declares things, asks
for types, and has spellings and dumps read, in any order. The scopes and types that it names are
those of the model at hand.
-/

namespace CppReflect

/-- What a client says of a drafted function before it is declared. -/
inductive DraftEdit where
  | params (params : List ParamInfo)
  | access (access : Access)
  | mangledName (name : String)
  /-- One of the words that `FunctionDraft.withWord` knows. -/
  | word (word : String)

/-- A function that a client drafts. -/
inductive Drafting where
  | function (parent : DeclId) (name : String) (returnType : TypeId)
  | constructor (record : DeclId)
  | destructor (record : DeclId)
  | functionTemplate (parent : DeclId) (name : String) (params : List String) (returnType : TypeId)
  | functionSpecialization (template : DeclId) (args : List TemplateArg) (returnType : TypeId)

/-- An operation on a model. -/
inductive Request where
  | declareNamespace (parent : DeclId) (name : String)
  | useNamespace (scope nominated : DeclId)
  | declareRecord (parent : DeclId) (name : String) (tag : TagKind) (complete : Bool)
  | addBase (record base : DeclId) (access : Access) (isVirtual : Bool)
  | declareField (record : DeclId) (name : String) (type : TypeId) (access : Access)
  | declareVariable (parent : DeclId) (name : String) (type : TypeId)
  | declareTypedef (parent : DeclId) (name : String) (underlying : TypeId)
  | declareEnum (parent : DeclId) (name : String) (isScoped : Bool)
    (constants : List (String × Int64))
  | declareClassTemplate (parent : DeclId) (name : String) (params : List String)
  | declareSpecialization (template : DeclId) (args : List TemplateArg)
  | declareFunction (drafting : Drafting) (edits : List DraftEdit)
  | finishRecord (record : DeclId)
  /-- Any type constructor: a type is told by what it is made of. -/
  | intern (node : TypeNode)
  | lvalueReference (referee : TypeId)
  | rvalueReference (referee : TypeId)
  | withQuals (type : TypeId) (quals : Quals)
  | withoutQuals (type : TypeId) (quals : Quals)
  | desugar (type : TypeId)
  | canonical (type : TypeId)
  | underlying (type : TypeId)
  | typeOfDecl (d : DeclId)
  /-- Any other question about types, which looks through those on its way. -/
  | ask (way : Model → List TypeId)
  | parseType (text : String) (context : DeclId)
  | ingest (source : Ast.Source) (dump : String)

open Model

namespace DraftEdit

/-- Applies what is said of the function. -/
def apply (f : FunctionDraft) : DraftEdit → ModelM FunctionDraft
  | .params ps => f.withParams ps
  | .access a => return { f with access := a }
  | .mangledName name => return { f with info := { f.info with mangledName := some name } }
  | .word w => return f.withWord w

/-- The types that are named exist. -/
def Valid (m : Model) : DraftEdit → Prop
  | .params ps => ∀ p ∈ ps, m.HasType p.type
  | .access _ | .mangledName _ | .word _ => True

/-- Applies everything that is said of the function, in order. -/
def applyAll (f : FunctionDraft) : List DraftEdit → ModelM FunctionDraft
  | [] => pure f
  | edit :: rest => do
    let f ← edit.apply f
    applyAll f rest

end DraftEdit

namespace Drafting

/-- Drafts the function. -/
def start : Drafting → ModelM FunctionDraft
  | .function parent name returnType =>
    return FunctionDraft.function (← get) parent name returnType
  | .constructor record => draftConstructor record
  | .destructor record => draftDestructor record
  | .functionTemplate parent name params returnType =>
    return (← draftFunctionTemplate parent name params returnType).2
  | .functionSpecialization template args returnType =>
    return draftFunctionSpecialization (← get) template args returnType

/-- The scopes and types that are named exist. -/
def Valid (m : Model) : Drafting → Prop
  | .function parent _ returnType => m.HasDecl parent ∧ m.HasType returnType
  | .constructor record | .destructor record => m.HasDecl record
  | .functionTemplate parent _ _ returnType => m.HasDecl parent ∧ m.HasType returnType
  | .functionSpecialization _ args returnType =>
    (∀ a ∈ args, m.HasType a.type) ∧ m.HasType returnType

end Drafting

namespace Request

/-- What the operation does to a model. -/
def perform : Request → ModelM Unit
  | .declareNamespace parent name => discard (Model.declareNamespace parent name)
  | .useNamespace scope nominated => Model.useNamespace scope nominated
  | .declareRecord parent name tag complete => discard (Model.declareRecord parent name tag complete)
  | .addBase record base access isVirtual => Model.addBase record base access isVirtual
  | .declareField record name type access => discard (Model.declareField record name type access)
  | .declareVariable parent name type => discard (Model.declareVariable parent name type)
  | .declareTypedef parent name type => discard (Model.declareTypedef parent name type)
  | .declareEnum parent name isScoped constants =>
    discard (Model.declareEnum parent name isScoped constants)
  | .declareClassTemplate parent name params =>
    discard (Model.declareClassTemplate parent name params)
  | .declareSpecialization template args => discard (Model.declareSpecialization template args)
  | .declareFunction drafting edits => do
    let f ← drafting.start
    let f ← DraftEdit.applyAll f edits
    discard f.declare
  | .finishRecord record => Model.finishRecord record
  | .intern node => discard (Model.intern node)
  | .lvalueReference referee => discard (Model.lvalueReference referee)
  | .rvalueReference referee => discard (Model.rvalueReference referee)
  | .withQuals type quals => discard (Model.withQuals type quals)
  | .withoutQuals type quals => discard (Model.withoutQuals type quals)
  | .desugar type => discard (Model.desugar type)
  | .canonical type => discard (Model.canonical type)
  | .underlying type => discard (Model.underlying type)
  | .typeOfDecl d => discard (Model.typeOfDecl? d)
  | .ask way => askAlong way fun _ => ()
  | .parseType text context => discard (Model.parseType text context)
  | .ingest source dump => discard (Ast.ingest source dump).run

/-- The scopes and types that the operation is given are those of the model. -/
def Valid (m : Model) : Request → Prop
  | .declareNamespace parent _ | .declareRecord parent .. | .declareEnum parent ..
  | .declareClassTemplate parent .. => m.HasDecl parent
  | .useNamespace scope nominated => m.HasDecl scope ∧ m.HasDecl nominated
  | .addBase record base .. => m.HasDecl record ∧ m.HasDecl base
  | .declareField scope _ type _ | .declareVariable scope _ type | .declareTypedef scope _ type =>
    m.HasDecl scope ∧ m.HasType type
  | .declareSpecialization template args => m.HasDecl template ∧ ∀ a ∈ args, m.HasType a.type
  | .declareFunction drafting edits => drafting.Valid m ∧ ∀ edit ∈ edits, edit.Valid m
  | .finishRecord record => m.HasDecl record
  | .intern node => (∀ p ∈ node.kind.parts, m.HasType p) ∧ ∀ d ∈ node.kind.decl?, m.HasDecl d
  | .lvalueReference type | .rvalueReference type | .withQuals type _ | .withoutQuals type _
  | .desugar type | .canonical type | .underlying type => m.HasType type
  | .typeOfDecl d | .parseType _ d => m.HasDecl d
  | .ask _ | .ingest .. => True

end Request

/-- The model is brought about by operations on the translation unit alone. -/
inductive Model.Reachable : Model → Prop where
  | empty : Reachable Model.empty
  | step {m : Model} (hm : Reachable m) (request : Request) (hvalid : request.Valid m) :
    Reachable (request.perform.run m).2

variable {m : Model}

theorem types_of_args {args : List TemplateArg} (h : ∀ a ∈ args, m.HasType a.type) :
    ∀ t ∈ args.flatMap TemplateArg.types, m.HasType t := by
  intro t ht
  obtain ⟨a, ha, hta⟩ := List.mem_flatMap.mp ht
  rw [TemplateArg.types, List.mem_singleton] at hta
  exact hta ▸ h a ha

theorem Drafting.start_keeps (h : m.WellFormed) {drafting : Drafting} (hvalid : drafting.Valid m) :
    m.Keeps drafting.start fun f m' => f.Sound m' := by
  cases drafting with
  | function parent name returnType =>
      exact Keeps.get_bind <| Keeps.pure h (FunctionDraft.function_sound hvalid.1 name hvalid.2)
  | constructor record => exact draftConstructor_keeps h hvalid
  | destructor record => exact draftDestructor_keeps h hvalid
  | functionTemplate parent name params returnType =>
      exact (draftFunctionTemplate_keeps h hvalid.1 name params hvalid.2).bind
        fun _ _ hwf _ hr => Keeps.pure hwf hr.2
  | functionSpecialization template args returnType =>
      exact Keeps.get_bind <| Keeps.pure h
        (h.draftFunctionSpecialization_sound template (types_of_args hvalid.1) hvalid.2)

theorem DraftEdit.apply_keeps (h : m.WellFormed) {f : FunctionDraft} (hf : f.Sound m)
    {edit : DraftEdit} (hvalid : edit.Valid m) :
    m.Keeps (edit.apply f) fun f' m' => f'.Sound m' := by
  cases edit with
  | params params => exact FunctionDraft.withParams_keeps h hf hvalid
  | access access => exact Keeps.pure h ⟨hf.parent, hf.types⟩
  | mangledName name => exact Keeps.pure h ⟨hf.parent, hf.types⟩
  | word word => exact Keeps.pure h (hf.withWord word)

theorem DraftEdit.Valid.grow {m' : Model} {edit : DraftEdit} (h : edit.Valid m)
    (hgrow : m.GrowsTo m') : edit.Valid m' := by
  cases edit with
  | params params => exact fun p hp => hgrow.hasType (h p hp)
  | access _ | mangledName _ | word _ => trivial

theorem DraftEdit.applyAll_keeps (h : m.WellFormed) {f : FunctionDraft} (hf : f.Sound m)
    {edits : List DraftEdit} (hvalid : ∀ edit ∈ edits, edit.Valid m) :
    m.Keeps (DraftEdit.applyAll f edits) fun f' m' => f'.Sound m' := by
  induction edits generalizing m f with
  | nil => exact Keeps.pure h hf
  | cons edit rest ih =>
      refine (DraftEdit.apply_keeps h hf (hvalid edit List.mem_cons_self)).bind
        fun f' m' hwf hgrow hf' => ih hwf hf' fun e he => ?_
      exact (hvalid e (List.mem_cons_of_mem edit he)).grow hgrow

namespace Model

theorem Keeps.discard {α : Type} {x : ModelM α} {post : α → Model → Prop} (hx : m.Keeps x post) :
    m.Keeps (Functor.discard x) fun _ _ => True :=
  ⟨hx.wellFormed, hx.grows, trivial⟩

/-- Every operation keeps every well-formed model so. -/
theorem perform_keeps (h : m.WellFormed) {request : Request}
    (hvalid : request.Valid m) : m.Keeps request.perform fun _ _ => True := by
  cases request with
  | declareNamespace parent name => exact (declareNamespace_keeps h hvalid name).discard
  | useNamespace scope nominated => exact useNamespace_keeps h scope nominated
  | declareRecord parent name tag complete =>
      exact (declareRecord_keeps h hvalid name tag complete).discard
  | addBase record base access isVirtual => exact addBase_keeps h record hvalid.2 access isVirtual
  | declareField record name type access =>
      exact (declareField_keeps h hvalid.1 name hvalid.2 access).discard
  | declareVariable parent name type =>
      exact (declareVariable_keeps h hvalid.1 name hvalid.2).discard
  | declareTypedef parent name underlying =>
      exact (declareTypedef_keeps h hvalid.1 name hvalid.2).discard
  | declareEnum parent name isScoped constants =>
      exact (declareEnum_keeps h hvalid name isScoped constants).discard
  | declareClassTemplate parent name params =>
      exact (declareClassTemplate_keeps h hvalid name params).discard
  | declareSpecialization template args =>
      exact (declareSpecialization_keeps h template (types_of_args hvalid.2)).discard
  | declareFunction drafting edits =>
      refine (Drafting.start_keeps h hvalid.1).bind fun f m₁ hwf₁ hgrow₁ hf => ?_
      refine (DraftEdit.applyAll_keeps hwf₁ hf fun e he => (hvalid.2 e he).grow hgrow₁).bind
        fun f' m₂ hwf₂ _ hf' => (FunctionDraft.declare_keeps hwf₂ hf').discard
  | finishRecord record => exact finishRecord_keeps h hvalid
  | intern node => exact (intern_keeps h hvalid.1 hvalid.2).discard
  | lvalueReference referee => exact (lvalueReference_keeps h hvalid).discard
  | rvalueReference referee => exact (rvalueReference_keeps h hvalid).discard
  | withQuals type quals => exact (withQuals_keeps h type quals).discard
  | withoutQuals type quals => exact (withoutQuals_keeps h type quals).discard
  | desugar type => exact (desugar_keeps h type).discard
  | canonical type => exact (canonical_keeps h hvalid).discard
  | underlying type => exact (underlying_keeps h hvalid).discard
  | typeOfDecl d => exact (typeOfDecl?_keeps h hvalid).discard
  | ask way => exact (askAlong_keeps h way fun _ => ()).weaken fun _ _ _ _ _ => trivial
  | parseType text context => exact (parseType_keeps h text context).discard
  | ingest source dump => exact (Ast.ingest_keeps h source dump).discard

/-- Every reachable model is well-formed. -/
theorem Reachable.wellFormed (h : m.Reachable) : m.WellFormed := by
  induction h with
  | empty => exact wellFormed_empty
  | step _ request hvalid ih => exact (perform_keeps ih hvalid).wellFormed

end Model

end CppReflect
