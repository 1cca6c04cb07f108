import CppReflect.Model.Resolve
import CppReflect.Query.Scope

/-!
# Questions about types

Types are named by handles here. A handle that names none is answered with `false`, with nothing, or
with the null handle. An answer that is a type is put into the table if it is not there yet.
-/

namespace CppReflect.Query

/-- The handle names a type that passes the test. -/
def typeIs (m : Model) (h : Handle) (p : TypeId → Bool) : Bool := (m.typeOfHandle? h).any p

/-- A way from the type that the handle names. -/
def wayFrom (m : Model) (h : Handle) (way : TypeId → List TypeId) : List TypeId :=
  (m.typeOfHandle? h).elim [] way

/-- The type that a type is made into. -/
def mapType (h : Handle) (f : TypeId → ModelM TypeId) : ModelM Handle := do
  match (← get).typeOfHandle? h with
  | some t => return (← f t).handle
  | none => return 0

/-- The type that a query on a type answers. -/
def findType (m : Model) (h : Handle) (f : TypeId → Option TypeId) : Handle :=
  typeHandleOf ((m.typeOfHandle? h).bind f)

/-! ## Kinds -/

/-- The class behind a type was written as a lambda. -/
def isLambdaClass (m : Model) (ty : Handle) : Bool :=
  typeIs m ty fun t => ((m.recordOfType? t).bind m.record?).any RecordInfo.lambda

/-- The beginnings of the spellings of the standard smart pointers. -/
def smartPointers : List String := ["std::unique_ptr", "std::shared_ptr", "std::weak_ptr"]

/-- A class looks like a smart pointer by its members. -/
def actsAsPointer (m : Model) (record : DeclId) : Bool :=
  m.hasMemberNamed record "use_count" ||
    (m.hasMemberNamed record "operator*" && m.hasMemberNamed record "operator->")

/-- A class that is spelled like a standard smart pointer once its qualifiers are taken off, or that
looks like one by its members. Bits of a qualifier mask that have no meaning are not taken off. -/
def isSmartPointer (ty : Handle) : ModelM Bool := do
  match (← get).typeOfHandle? ty with
  | none => return false
  | some t =>
    let t ← Model.desugar t
    match (← get).recordNamed? t with
    | none => return false
    | some record =>
      let bare ← Model.unqualified t
      let m ← get
      return smartPointers.any (Text.startsWith · (m.typeText bare)) || actsAsPointer m record

/-- How expressions of a type denote. -/
inductive ValueKind where
  | none
  | lvalue
  | rvalue
deriving DecidableEq, Inhabited, Repr

/-- The kind of reference that a type is. -/
def valueKind (m : Model) (ty : Handle) : ValueKind :=
  match (m.typeOfHandle? ty).map m.kindOf with
  | some (.rvalueReference _) => .rvalue
  | some (.lvalueReference _) => .lvalue
  | _ => .none

/-- The type has every one of the qualifiers, those of its typedefs included. -/
def hasQuals (m : Model) (ty : Handle) (q : Quals) : Bool :=
  typeIs m ty fun t => (m.desugared t).quals.contains q

/-! ## Made from types -/

/-- What a pointer points to. -/
def pointeeType (m : Model) (ty : Handle) : Handle :=
  findType m ty fun t => if m.isPointer t then m.pointee? t else none

/-- What a reference refers to; any other type is its own. -/
def nonReferenceType (m : Model) (ty : Handle) : Handle :=
  findType m ty fun t => some (m.nonReference t)

/-- The type of references to a type. -/
def referenceType (ty : Handle) (rvalue : Bool) : ModelM Handle :=
  mapType ty fun t => if rvalue then Model.rvalueReference t else Model.lvalueReference t

/-- The type with qualifiers added. Adding none leaves any handle alone. -/
def addQuals (ty : Handle) (q : Quals) : ModelM Handle :=
  if q = .none then return ty else mapType ty fun t => Model.withQuals t q

/-- The type with qualifiers taken away, but for those inside a typedef. Taking none away leaves any
handle alone. -/
def removeQuals (ty : Handle) (q : Quals) : ModelM Handle :=
  if q = .none then return ty else mapType ty fun t => Model.withoutQuals t q

/-- The type of complex numbers over a type. -/
def complexType (ty : Handle) : ModelM Handle :=
  mapType ty fun t => Model.internKind (.complex t)

/-! ## Looked up -/

/-- The spelling of a type. -/
def typeText (m : Model) (ty : Handle) : String := (m.typeOfHandle? ty).elim "" m.typeText

/-- The type of a name: a builtin type, or a class, an enumeration or a typedef. -/
def typeNamed (name : String) : ModelM Handle := do
  match Spelling.readBuiltin? name with
  | some .void => return (← Model.void).handle
  | some (.builtin b) => return (← Model.builtin b).handle
  | some (.complex b) => return (← Model.internKind (.complex (← Model.builtin b))).handle
  | some (.name _) | none =>
    let m ← get
    match (m.lookupNamed name Model.root).found?.filter m.isTypeDecl with
    | some d => return typeHandleOf (← Model.typeOfDecl? d)
    | none => return 0

/-- The type that a declaration introduces or has. -/
def typeOfScope (klass : Handle) : ModelM Handle := do
  match (← get).declOfHandle? klass with
  | some d => return typeHandleOf (← Model.typeOfDecl? d)
  | none => return 0

/-- The class behind a type, looking through one pointer, reference or array. -/
def scopeOfType? (m : Model) (ty : Handle) : Option DeclId :=
  (m.typeOfHandle? ty).bind m.recordOfType?

/-- The type that the values of an enumeration are stored in. -/
def integerTypeOfScope (m : Model) (scope : Handle) : Handle :=
  typeHandleOf (((m.declOfHandle? scope).bind fun d => (m.decl d).enum?).map EnumInfo.integerType)

/-- The type that the values of an enumeration type are stored in. -/
def integerTypeOfType (m : Model) (ty : Handle) : Handle :=
  findType m ty fun t =>
    match m.kindOf t with
    | .enum d => (m.decl d).enum?.map EnumInfo.integerType
    | _ => none

/-- The extents of an array, down to the depth `fuel`. -/
def extentsFrom (m : Model) : Nat → TypeId → List (Option UInt64)
  | 0, _ => []
  | fuel + 1, t =>
    match m.kindOf t with
    | .constantArray e n => some n :: extentsFrom m fuel e
    | .incompleteArray e => none :: extentsFrom m fuel e
    | _ => []

/-- The extents of an array, the outermost first. One that is unknown, or too great for a signed
number, counts as -1. -/
def dimensions (m : Model) (ty : Handle) : List Int :=
  match m.typeOfHandle? ty with
  | none => []
  | some t =>
    (extentsFrom m m.typeFuel t).map fun extent =>
      extent.elim (-1) fun n => if n.toNat < 0x8000000000000000 then n.toNat else -1

/-- Both types name classes, and the first one is derived from the second one. -/
def isTypeDerivedFrom (m : Model) (derived base : Handle) : Bool :=
  match (m.typeOfHandle? derived).bind m.recordNamed?, (m.typeOfHandle? base).bind m.recordNamed? with
  | some d, some b => m.isDerivedFrom d b
  | _, _ => false

/-- The way of `isTypeDerivedFrom`: the base is looked through only if the derived type names a
class. -/
def wayOfDerivation (m : Model) (derived base : Handle) : List TypeId :=
  match m.typeOfHandle? derived, m.typeOfHandle? base with
  | some d, some b => d :: if m.isRecord d then [b] else []
  | _, _ => []

end CppReflect.Query
