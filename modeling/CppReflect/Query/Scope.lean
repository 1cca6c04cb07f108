import CppReflect.Model.Lookup

/-!
# Questions about scopes and classes

Declarations are named by handles here. A handle that names none is answered with the answer that
says least.
-/

namespace CppReflect

/-- A number that may name a declaration or a type. Zero names nothing. -/
abbrev Handle := Nat

/-- The handle of a declaration, or the null handle. -/
def handleOf (d : Option DeclId) : Handle := d.elim 0 DeclId.handle

/-- The handle of a type, or the null handle. -/
def typeHandleOf (t : Option TypeId) : Handle := t.elim 0 TypeId.handle

namespace Query

/-- The handle names a declaration that passes the test. -/
def declIs (m : Model) (h : Handle) (p : Decl → Bool) : Bool :=
  (m.declOfHandle? h).any fun d => p (m.decl d)

/-- The handle names a class that passes the test. -/
def recordIs (m : Model) (h : Handle) (p : RecordInfo → Bool) : Bool :=
  declIs m h fun d => d.record?.any p

/-- What is asked of the class that a handle names. -/
def recordAt? (m : Model) (h : Handle) : Option (DeclId × RecordInfo) := do
  let d ← m.declOfHandle? h
  let info ← m.record? d
  return (d, info)

/-- The class that a handle names, looking through typedefs. -/
def recordBehind? (m : Model) (h : Handle) : Option DeclId :=
  (m.declOfHandle? h).bind m.recordOfDecl?

/-- The way of `recordBehind?`. -/
def wayBehind (m : Model) (h : Handle) : List TypeId := (m.declOfHandle? h).elim [] m.wayFromDecl

/-! ## Kinds -/

def isAggregate (m : Model) (scope : Handle) : Bool := recordIs m scope RecordInfo.aggregate

def isNamespace (m : Model) (scope : Handle) : Bool := declIs m scope Decl.isNamespace

def isClass (m : Model) (scope : Handle) : Bool := declIs m scope Decl.isRecord

def isFunction (m : Model) (scope : Handle) : Bool := declIs m scope fun d => d.function?.isSome

/-- Classes and enumerations are complete once they are defined, and all else is. -/
def isComplete (m : Model) (scope : Handle) : Bool :=
  declIs m scope fun d =>
    match d.kind with
    | .record info => info.complete
    | .enum info => info.complete
    | _ => true

def isTemplate (m : Model) (scope : Handle) : Bool := declIs m scope fun d => d.template?.isSome

/-- A class that a template was made into. -/
def isTemplateSpecialization (m : Model) (scope : Handle) : Bool :=
  recordIs m scope fun info => info.specialization.isSome

def isTypedef (m : Model) (scope : Handle) : Bool := declIs m scope fun d => d.underlying?.isSome

def isAbstract (m : Model) (klass : Handle) : Bool := recordIs m klass RecordInfo.isAbstract

def isEnum (m : Model) (scope : Handle) : Bool := declIs m scope fun d => d.enum?.isSome

def isEnumConstant (m : Model) (scope : Handle) : Bool :=
  declIs m scope fun d =>
    match d.kind with
    | .enumConstant .. => true
    | _ => false

/-- A variable of a namespace or a static data member, and no field. -/
def isVariable (m : Model) (scope : Handle) : Bool :=
  declIs m scope fun d => d.var?.any fun v => !v.isField

def isPolymorphic (m : Model) (klass : Handle) : Bool := recordIs m klass RecordInfo.polymorphic

/-! ## Names -/

/-- What a handle that names nothing is called. -/
def unnamed : String := "<unnamed>"

/-- The name of a declaration, as `name` tells it. The translation unit has none. -/
def nameBy (m : Model) (scope : Handle) (name : DeclId → String) : String :=
  match m.declOfHandle? scope with
  | some d => if m.isTranslationUnit d then "" else name d
  | none => unnamed

/-- A class or an enumeration. -/
def isTag (m : Model) (d : DeclId) : Bool :=
  match (m.decl d).kind with
  | .record _ | .enum _ => true
  | _ => false

def name (m : Model) (scope : Handle) : String := nameBy m scope fun d => (m.decl d).name

/-- The name, for a specialization of a class template with its arguments. -/
def completeName (m : Model) (scope : Handle) : String :=
  nameBy m scope fun d => if isTag m d then m.completeName d else (m.decl d).name

def qualifiedName (m : Model) (scope : Handle) : String := nameBy m scope m.qualifiedName

/-- The name with the scopes around it, for a class or an enumeration with the arguments of all
specializations among them. -/
def qualifiedCompleteName (m : Model) (scope : Handle) : String :=
  nameBy m scope fun d => if isTag m d then m.qualifiedCompleteName d else m.qualifiedName d

/-! ## Scopes -/

/-- The namespaces that the using-directives of a scope nominate. -/
def usingNamespaces (m : Model) (scope : Handle) : List DeclId :=
  (m.declOfHandle? scope).elim [] fun d => (m.decl d).usingDirectives

/-- The class that a typedef names; any other handle stands for itself. -/
def underlyingScope (m : Model) (scope : Handle) : Handle :=
  let klass := do
    let d ← m.declOfHandle? scope
    let _ ← (m.decl d).underlying?
    m.recordOfDecl? d
  klass.elim scope DeclId.handle

/-- The scope that a handle stands for when a name is looked up in it: the translation unit for the
null handle, and the class for a typedef. -/
def scopeFor? (m : Model) (parent : Handle) : Option DeclId :=
  if parent = 0 then some Model.root
  else do
    let d ← m.declOfHandle? parent
    match (m.decl d).underlying? with
    | some _ => m.recordOfDecl? d
    | none => return d

/-- The one declaration that a name means in a scope. -/
def named? (m : Model) (name : String) (parent : Handle) : Option DeclId := do
  (m.lookupNamed name (← scopeFor? m parent)).found?

/-- A declaration that names can be looked up in. -/
def opensScope (m : Model) (d : DeclId) : Bool :=
  match (m.decl d).kind with
  | .namespaceDecl _ | .record _ | .classTemplate _ | .typedef _ => true
  | _ => false

/-- The scope that a name means in a scope. The empty name means the global one. -/
def scopeNamed? (m : Model) (name : String) (parent : Handle) : Option DeclId :=
  if name.isEmpty then some Model.root
  else (named? m name parent).filter (opensScope m)

/-- The way of `scopeNamed?`. -/
def wayToScope (m : Model) (name : String) (parent : Handle) : List TypeId :=
  if name.isEmpty then [] else wayBehind m parent

/-- The scopes that segments mean, each looked up in the one before it. -/
def scopeBySegments? (m : Model) (parent : Handle) : List String → Option Handle
  | [] => some parent
  | segment :: rest => do
    let d ← scopeNamed? m segment parent
    scopeBySegments? m d.handle rest

/-- The way of `scopeBySegments?`. -/
def wayBySegments (m : Model) (parent : Handle) : List String → List TypeId
  | [] => []
  | segment :: rest =>
    wayToScope m segment parent ++
      (scopeNamed? m segment parent).elim [] fun d => wayBySegments m d.handle rest

/-- The text without the `::` in front of it, however often it stands there. -/
def withoutGlobalMarks : List Char → List Char
  | ':' :: ':' :: rest => withoutGlobalMarks rest
  | cs => cs

/-- The segments of a name such as `A::B<int>::C` from the global scope on. -/
def globalSegments (name : String) : List String :=
  (Name.segments (withoutGlobalMarks name.toList)).map String.ofList

/-- The scope of a name such as `A::B<int>::C`, one segment after the other from the global scope
on. -/
def scopeByCompleteName (m : Model) (name : String) : Handle :=
  (scopeBySegments? m 0 (globalSegments name)).getD 0

/-- The scope that a declaration lies in. -/
def parentScope? (m : Model) (scope : Handle) : Option DeclId :=
  (m.declOfHandle? scope).bind fun d => (m.decl d).parent

/-- The members of a class, an enumeration, a namespace or the translation unit that pass the test,
without the classes that the compiler lists inside themselves. -/
def memberNames (m : Model) (scope : Handle) (keep : Decl → Bool) : List String :=
  match (m.declOfHandle? scope).map m.decl with
  | none => []
  | some e =>
    match e.kind with
    | .record _ | .enum _ | .namespaceDecl _ | .translationUnit =>
      ((e.members.map m.decl).filter fun d => !Model.isInjectedName d && keep d).map Decl.name
    | _ => []

/-- The names that are declared directly in a scope. -/
def allNames (m : Model) (scope : Handle) : List String := memberNames m scope fun _ => true

/-- The names of the enumerations that are declared directly in a scope. -/
def enumNames (m : Model) (scope : Handle) : List String :=
  memberNames m scope fun d => d.enum?.isSome

/-! ## Base classes -/

/-- The number of base classes of a complete class. -/
def baseCount (m : Model) (klass : Handle) : Nat :=
  match recordAt? m klass with
  | some (_, info) => if info.complete then info.bases.length else 0
  | none => 0

/-- The base specifier at a place. -/
def baseAt? (m : Model) (klass : Handle) (place : Nat) : Option BaseSpecifier :=
  (recordAt? m klass).bind fun r => r.2.bases[place]?

/-- The base class at a place. -/
def baseClass? (m : Model) (klass : Handle) (place : Nat) : Option DeclId :=
  (baseAt? m klass place).bind fun b => m.recordOfType? b.type

/-- The way of `baseClass?`. -/
def wayToBaseClass (m : Model) (klass : Handle) (place : Nat) : List TypeId :=
  (baseAt? m klass place).elim [] fun b => m.wayToRecord b.type

/-- A class is derived from the other one, or the handles are the same. -/
def isSubclass (m : Model) (derived base : Handle) : Bool :=
  if derived = base ∧ derived ≠ 0 then true
  else
    match recordAt? m derived, recordAt? m base with
    | some (d, _), some (b, _) => m.isDerivedFrom d b
    | _, _ => false

end Query

end CppReflect
