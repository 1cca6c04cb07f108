import CppReflect.Proofs.Ast.Run
import Mathlib.Control.Monad.Basic

/-!
# What a pass over a dump reads

Most keys are made of names, and of the number of unnamed declarations in front. Two sorts depend on
what names mean when they are read: that of a function has its parameter types in it as they are
printed, and that of a specialization its arguments. So do the base classes of a class. This is what
a pass reads. A visit can be checked on its way: the dump is given up where a reading fails a test.
-/

namespace CppReflect.Ast

deriving instance DecidableEq for TypeTable, Model, Progress

/-- What is read of a node. -/
structure Reading where
  /-- The key of a function or of a specialization. -/
  key : Option String := none
  /-- The base classes of a class that is defined. -/
  bases : List BaseSpecifier := []
deriving DecidableEq, Repr

/-! ## The handlers in parts -/

theorem ite_bind {α β : Type} {c : Prop} [Decidable c] (x y : IngestM α) (f : α → IngestM β) :
    (if c then x else y) >>= f = if c then x >>= f else y >>= f := by
  split <;> rfl

/-- The key under which a class is declared. -/
def recordKey (node : Json) (parent : DeclId) (detached : Option Detached) : IngestM String :=
  match detached with
  | some d => pure d.key
  | none =>
    if (text node "name").isEmpty then unnamedKey parent "rec"
    else pure (keyIn parent ("rec:" ++ text node "name"))

/-- Declares a class, and notes which node did. -/
def recordHead (node : Json) (parent : DeclId) (access : Access) (detached : Option Detached) :
    IngestM DeclId := do
  let key ← recordKey node parent detached
  let (d, _) ← upsert key parent (text node "name") access detached.isSome
    (pure (.record {
      tag := tagOf node, specialization := detached.bind Detached.specialization }))
  modifyThe Progress fun p =>
    { p with nodes := ((node.get? "id").bind Json.str?).elim p.nodes fun id => (id, d) :: p.nodes }
  return d

/-- Completes a class if the node defines it. -/
def recordBody (visit : Visitor) (node : Json) (parent d : DeclId) : IngestM PUnit :=
  if flag node "completeDefinition" then do
    let bases ← baseSpecifiers node parent
    let data := (node.get? "definitionData").getD .null
    Model.modifyRecord d fun info =>
      { info with
        complete := true
        bases
        aggregate := flag data "isAggregate"
        pod := flag data "isPOD"
        polymorphic := flag data "isPolymorphic"
        isAbstract := flag data "isAbstract"
        lambda := flag data "isLambda" }
    visit node d (tagOf node).defaultAccess
    declareImplicitMembers d data
  else passOver node

theorem recordDecl_eq (visit : Visitor) (node : Json) (parent : DeclId) (access : Access)
    (detached : Option Detached) :
    recordDecl visit node parent access detached = (do
      let d ← recordHead node parent access detached
      recordBody visit node parent d
      return d) := by
  unfold recordDecl recordHead recordBody recordKey
  cases (node.get? "id").bind Json.str? with
  | some id => cases detached <;> simp only [bind_assoc, pure_bind, ite_bind, Option.elim_some]
  | none =>
    -- Nothing is noted, so the state stays what it was.
    cases detached <;> (simp only [bind_assoc, pure_bind, ite_bind, Option.elim_none]; rfl)

/-- Where a specialization of a class template is declared, and under which key. -/
def specializationHead (node : Json) (template : DeclId) : IngestM (DeclId × Detached) := do
  let parent := ((← model).decl template).parent.getD Model.root
  let args ← templateArgs node parent
  return (parent, ⟨specializationKey (← model) template args, some ⟨template, args⟩⟩)

theorem specializationDecl_eq (visit : Visitor) (node : Json) (template : DeclId)
    (access : Access) :
    specializationDecl visit node template access = (do
      let (parent, detached) ← specializationHead node template
      let d ← recordDecl visit node parent access (some detached)
      listSpecialization template d) := by
  unfold specializationDecl specializationHead
  simp only [bind_assoc, pure_bind]

/-- What a function is declared with. -/
structure FunctionHead where
  owner : DeclId
  proto : Option FunctionProto
  params : List ParamInfo
  method : Option MethodInfo
  key : String

/-- Reads what a function is declared with. -/
def functionHead (source : Source) (node : Json) (scope : DeclId) : IngestM FunctionHead := do
  let owner ← ownerOf node scope
  let type ← typeOf (qualType? node) owner
  let proto := protoOf? (← model) type
  let params ← functionParams source node owner
  let m ← model
  let method := if (m.record? owner).isSome then some (methodOf node proto) else none
  return {
    owner, proto, params, method
    key := functionKey m owner (text node "name") params (method.any MethodInfo.isConst) }

/-- Declares a function under a key, or merges a redeclaration into it. -/
def functionBody (node : Json) (access : Access) (detachedKey : Option String) (h : FunctionHead) :
    IngestM DeclId := do
  let special ← specialOf node h.owner h.params
  let returnType ← returnTypeOf h.proto special
  let (d, created) ← upsert (detachedKey.getD h.key) h.owner (text node "name") access
    detachedKey.isSome (pure (.function {
      returnType, variadic := h.proto.any FunctionProto.variadic, method := h.method, special }))
  (if created && flag node "isImplicit" then
    onModel (Model.modifyDecl d fun e => { e with implicit := true }) else pure ⟨⟩ : IngestM PUnit)
  let pattern := memberPattern? (← model) h.owner (text node "name") h.params.length
  Model.modifyFunction d <| mergeFunction created {
    params := h.params
    defined := ((children node).any fun c => kind c == "CompoundStmt") ||
      has node "explicitlyDefaulted" || flag node "isImplicit"
    deleted := flag node "explicitlyDeleted"
    mangledName := (node.get? "mangledName").bind Json.str?
    memberPattern := pattern }
  passOver node
  return d

theorem functionDecl_eq (source : Source) (node : Json) (scope : DeclId) (access : Access)
    (detachedKey : Option String) :
    functionDecl source node scope access detachedKey =
      functionHead source node scope >>= functionBody node access detachedKey := by
  unfold functionDecl functionHead functionBody
  simp only [bind_assoc, pure_bind, ite_bind]
  rfl

/-! ## Readings -/

/-- Reads a class that is declared in a scope. -/
def recordReading (node : Json) (parent : DeclId) (access : Access) (detached : Option Detached) :
    IngestM Reading := do
  let _ ← recordHead node parent access detached
  return {
    key := detached.map Detached.key
    bases := ← if flag node "completeDefinition" then baseSpecifiers node parent else pure [] }

/-- Reads a specialization of a class template. -/
def specializationReading (node : Json) (template : DeclId) (access : Access) :
    IngestM Reading := do
  let (parent, detached) ← specializationHead node template
  recordReading node parent access (some detached)

/-- Reads a function. -/
def functionReading (source : Source) (node : Json) (scope : DeclId) : IngestM Reading := do
  return { key := some (← functionHead source node scope).key }

/-- Reads a specialization of a function template. -/
def instanceReading (node : Json) (parent template : DeclId) : IngestM Reading := do
  let args ← templateArgs node parent
  return { key := some (specializationKey (← model) template args) }

/-- The declaration is a class template. -/
def isClassTemplate (e : Decl) : Bool := e.kind = .classTemplate (e.template?.getD {})

/-- The class template that a name means among the members of a scope. -/
def memberTemplate? (m : Model) (scope : DeclId) (name : String) : Option DeclId :=
  (m.membersNamed scope name).find? fun d => isClassTemplate (m.decl d)

/-- Reads a node that is declared in a scope. The nodes inside a template are read on their own. -/
def memberReading (source : Source) (scope : DeclId) (access : Access) (node : Json) :
    IngestM Reading := do
  if kind node = "CXXRecordDecl" ∨ kind node = "RecordDecl" then
    if flag node "isImplicit" then return {} else recordReading node scope access none
  else if kind node = "ClassTemplateSpecializationDecl" then
    (memberTemplate? (← model) scope (text node "name")).elim (pure {}) fun template =>
      specializationReading node template access
  else if isFunctionKind (kind node) then functionReading source node scope
  else return {}

/-! ## Checked visits -/

/-- What is asked of the reading of a node in a scope. -/
abbrev ReadingTest := DeclId → Json → Reading → Bool

/-- Gives the dump up with `e` if what would be read fails the test, and does nothing else. -/
def expect (test : ReadingTest) (e : IngestError) (scope : DeclId) (node : Json)
    (reading : IngestM Reading) : IngestM PUnit := do
  let p ← getThe Progress
  match (reading.run.run p).1 with
  | .ok r => if test scope node r then pure () else throw e
  | .error _ => pure ()

section Checked

variable (test : ReadingTest) (e : IngestError)

/-- A node inside a class template as it is declared, with its reading checked. -/
def classTemplateMemberChecked (visit : Visitor) (source : Source) (parent : DeclId)
    (access : Access) (template : DeclId) (child : Json) : IngestM PUnit := do
  observe child
  if has child "loc" then
    if kind child = "CXXRecordDecl" ∧ flag child "isImplicit" = false then
      let pattern := some ⟨keyIn template "pattern", none⟩
      expect test e template child (recordReading child parent access pattern)
      let pattern ← recordDecl visit child parent access pattern
      Model.modifyTemplate template fun info => { info with pattern := some pattern }
    else if kind child = "ClassTemplateSpecializationDecl" ∧
        inMainFile source (← getThe Progress).file = true then
      expect test e template child (specializationReading child template access)
      specializationDecl visit child template access
    else
      passOver child

/-- A class template as it is declared, with the readings inside it checked. -/
def classTemplateDeclChecked (visit : Visitor) (source : Source) (node : Json) (parent : DeclId)
    (access : Access) : IngestM PUnit := do
  let params ← templateParams node parent
  let (template, _) ← upsert (keyIn parent ("tmpl:" ++ text node "name")) parent
    (text node "name") access false (pure (.classTemplate { params }))
  (children node).forM (classTemplateMemberChecked test e visit source parent access template)

/-- A node inside a function template as it is declared, with its reading checked. -/
def functionTemplateMemberChecked (source : Source) (parent : DeclId) (access : Access)
    (template : DeclId) (pattern : Option DeclId) (child : Json) : IngestM (Option DeclId) := do
  if has child "loc" && isFunctionKind (kind child) && pattern.isSome then
    expect test e template child (instanceReading child parent template)
  functionTemplateMember source parent access template pattern child

/-- A function template as it is declared, with the readings inside it checked. -/
def functionTemplateDeclChecked (source : Source) (node : Json) (parent : DeclId)
    (access : Access) : IngestM PUnit := do
  let patternType :=
    (((children node).find? fun c => isFunctionKind (kind c)).bind qualType?).getD ""
  let params ← templateParams node parent
  let (template, _) ← upsert (keyIn parent ("ftmpl:" ++ text node "name" ++ ":" ++ patternType))
    parent (text node "name") access false (pure (.functionTemplate { params }))
  let pattern ← (children node).foldlM
    (functionTemplateMemberChecked test e source parent access template) none
  Model.modifyTemplate template fun info =>
    { info with pattern := info.pattern.orElse fun _ => pattern }

/-- A node as it is declared in a scope, with its readings checked. -/
def declareChecked (visit : Visitor) (source : Source) (scope : DeclId) (s : MemberState)
    (node : Json) : IngestM MemberState := do
  if kind node = "ClassTemplateDecl" then
    classTemplateDeclChecked test e visit source node scope s.access
    return s
  else if kind node = "FunctionTemplateDecl" then
    functionTemplateDeclChecked test e source node scope s.access
    return s
  else
    expect test e scope node (memberReading source scope s.access node)
    declare visit source scope s node

/-- A member as it is visited, with its readings checked. -/
def visitMemberChecked (visit : Visitor) (source : Source) (scope : DeclId) (s : MemberState)
    (node : Json) : IngestM MemberState := do
  observe node
  if has node "loc" && inMainFile source (← getThe Progress).file then
    declareChecked test e visit source scope s node
  else
    passOver node
    return s

/-- The members of a node as they are visited, with their readings checked. -/
def visitMembersChecked (source : Source) : Nat → Visitor
  | 0, _, _, _ => pure ()
  | fuel + 1, node, scope, access => do
    let _ ← (children node).foldlM
      (visitMemberChecked test e (visitMembersChecked source fuel) source scope) ⟨access, none⟩

/-- A whole dump as it is visited, with its readings checked. -/
def visitDumpChecked (source : Source) (node : Json) : IngestM Unit := do
  observe node
  visitMembersChecked test e source (node.depth + 1) node Model.root .none

end Checked

/-- Everything that a pass over the dump reads passes the test: the checked visit is never given up
for its checks, whatever with, and comes to the same as the visit. -/
def Reads (test : ReadingTest) (source : Source) (dump : Json) (m : Model) : Prop :=
  ∀ e, (visitDumpChecked test e source dump).run.run (start m) =
    (visitDump source dump).run.run (start m)

instance (test : ReadingTest) (source : Source) (dump : Json) (m : Model) :
    Decidable (Reads test source dump m) :=
  have hdecide (e : IngestError) : Decidable ((visitDumpChecked test e source dump).run.run
      (start m) = (visitDump source dump).run.run (start m)) :=
    inferInstanceAs (Decidable ((_ : Except IngestError Unit × Progress) = _))
  have hall : (∀ e ∈ [IngestError.malformed, .excessive],
      (visitDumpChecked test e source dump).run.run (start m) =
        (visitDump source dump).run.run (start m)) ↔ Reads test source dump m :=
    ⟨fun h e => h e (by cases e <;> decide), fun h e _ => h e⟩
  -- there are two errors, and a check that fails gives the dump up with either of them
  decidable_of_iff _ hall

end CppReflect.Ast
