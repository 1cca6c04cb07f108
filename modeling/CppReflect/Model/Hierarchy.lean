import CppReflect.Model.Sugar

/-!
# Scopes and classes

The scopes around a declaration, the members of a scope, and the graph of base classes. Walks along
either are bounded by the number of declarations, which one that ends cannot exceed without meeting
a declaration twice.
-/

namespace CppReflect.Model

/-- The number of steps that no ending walk over declarations exceeds. -/
def declFuel (m : Model) : Nat := m.decls.size + 1

/-- The scopes around a declaration for at most `fuel` steps, the nearest first. -/
def ancestorsFrom (m : Model) : Nat → DeclId → List DeclId
  | 0, _ => []
  | fuel + 1, d =>
    match (m.decl d).parent with
    | some p => p :: m.ancestorsFrom fuel p
    | none => []

/-- The scopes around a declaration, the nearest first and the translation unit last. -/
def ancestors (m : Model) (d : DeclId) : List DeclId := m.ancestorsFrom m.declFuel d

/-- The nearest scope around a declaration that is not an unscoped enumeration. -/
def semanticParent? (m : Model) (d : DeclId) : Option DeclId :=
  (m.ancestors d).find? fun p =>
    match (m.decl p).kind with
    | .enum info => info.isScoped
    | _ => true

/-! ## Members -/

/-- The functions listed in a class. -/
def methods (m : Model) (record : DeclId) : List DeclId :=
  (m.decl record).members.filter fun d => (m.function? d).isSome

/-- The destructor that a class lists first. -/
def destructor? (m : Model) (record : DeclId) : Option DeclId :=
  (m.methods record).find? fun d => (m.function? d).any FunctionInfo.isDestructor

/-- The first listed constructor of a class that can be called without arguments. -/
def defaultConstructor? (m : Model) (record : DeclId) : Option DeclId :=
  (m.methods record).find? fun d => (m.function? d).any fun f =>
    f.isConstructor && f.minRequiredArgs == 0 && !f.deleted

/-- The variables listed in a class that pass the test. -/
def variablesWhere (m : Model) (record : DeclId) (p : VarInfo → Bool) : List DeclId :=
  (m.decl record).members.filter fun d => (m.decl d).var?.any p

/-- The fields of a class in the order of their declaration. -/
def fields (m : Model) (record : DeclId) : List DeclId :=
  m.variablesWhere record VarInfo.isField

/-- The static data members of a class in the order of their declaration. -/
def staticDataMembers (m : Model) (record : DeclId) : List DeclId :=
  m.variablesWhere record fun v => !v.isField

/-- Clang lists every class inside itself; this is that declaration. -/
def isInjectedName (d : Decl) : Bool := d.implicit && d.isRecord

/-- The members of a scope with a name, down to the depth `fuel` of transparent members. -/
def membersNamedFrom (m : Model) (name : String) : Nat → DeclId → List DeclId
  | 0, _ => []
  | fuel + 1, scope =>
    (m.decl scope).members.flatMap fun d =>
      let entry := m.decl d
      (if entry.name = name ∧ isInjectedName entry = false then [d] else []) ++
        (if entry.isTransparent then m.membersNamedFrom name fuel d else [])

/-- The members of a scope with a name, those of its transparent members included. -/
def membersNamed (m : Model) (scope : DeclId) (name : String) : List DeclId :=
  m.membersNamedFrom name m.declFuel scope

/-! ## Base classes -/

/-- The classes that the base specifiers of a class name. A specifier that names no class is left
out. -/
def baseRecords (m : Model) (record : DeclId) : List DeclId :=
  ((m.record? record).elim [] RecordInfo.bases).filterMap fun b => m.recordNamed? b.type

/-- The classes that the base specifiers name, each with the place of its specifier. -/
def indexedBases (m : Model) (record : DeclId) : List (Nat × DeclId) :=
  ((m.record? record).elim [] RecordInfo.bases).zipIdx.filterMap fun b =>
    (m.recordNamed? b.1.type).map fun d => (b.2, d)

/-- A way from a class to a base class, looked for to the depth `fuel`. -/
def basePathFrom (m : Model) (base : DeclId) : Nat → DeclId → Option (List (DeclId × Nat))
  | 0, _ => none
  | fuel + 1, derived =>
    (m.indexedBases derived).findSome? fun (index, direct) =>
      if direct = base then some [(derived, index)]
      else (m.basePathFrom base fuel direct).map ((derived, index) :: ·)

/-- The first way, depth first and from left to right, from a class to a base class: each step is a
class and the place of a base specifier in it. -/
def basePath? (m : Model) (derived base : DeclId) : Option (List (DeclId × Nat)) :=
  m.basePathFrom base m.declFuel derived

/-- The class has the other one among its proper bases. -/
def isDerivedFrom (m : Model) (derived base : DeclId) : Bool :=
  derived != base && (m.basePath? derived base).isSome

/-- The class or a base of it, to the depth `fuel`, has a member with the name. -/
def hasMemberNamedFrom (m : Model) (name : String) : Nat → DeclId → Bool
  | 0, _ => false
  | fuel + 1, record =>
    !(m.membersNamed record name).isEmpty ||
      (m.baseRecords record).any fun b => m.hasMemberNamedFrom name fuel b

/-- The class or a base of it has a member with the name. -/
def hasMemberNamed (m : Model) (record : DeclId) (name : String) : Bool :=
  m.hasMemberNamedFrom name m.declFuel record

/-- The operand count of a declared operator: that of its parameters and the implicit object, or
else what operators of its kind can have. -/
def operatorArity? (m : Model) (d : DeclId) : Option Arity :=
  match m.function? d with
  | none => none
  | some f =>
    match f.special with
    | .operator op =>
      match f.params.length + (if f.isInstanceMethod then 1 else 0) with
      | 1 => some .unary
      | 2 => some .binary
      | _ => op.arity?
    | _ => none

end CppReflect.Model
