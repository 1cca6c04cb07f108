import CppReflect.Model.Basic

/-!
# Typedefs and what they stand for

A typedef stands for another type, which may be a typedef again. The queries here tell what a type
is when typedefs are looked through, and change nothing; `canonical` also builds the type in which no
typedef is left. A walk that meets a type twice never ends, so one that ends makes at most as many
steps as there are types, and that number bounds every walk.

The type that a typedef stands for need not be in the table: the qualifiers met on the way belong to
it. To look through a typedef is to put that type there. A query that is asked in earnest therefore
comes with its way, which is made of the types that are looked through to answer it, and `askAlong`
puts the two together. The order of a way tells in which order types get their places.
-/

namespace CppReflect

namespace TypeKind

/-- The types that a type is made of. -/
def parts : TypeKind → List TypeId
  | .pointer t | .lvalueReference t | .rvalueReference t | .constantArray t _
  | .incompleteArray t | .complex t => [t]
  | .memberPointer pointee klass => [pointee, klass]
  | .function proto => proto.ret :: proto.params
  | .void | .builtin _ | .record _ | .enum _ | .typedef _ | .named _ => []

/-- The declaration that a type refers to. -/
def decl? : TypeKind → Option DeclId
  | .record d | .enum d | .typedef d => some d
  | _ => none

/-- Rebuilds a type from the answers of `f` on its parts, taken from left to right. -/
def traverse {M : Type → Type} [Monad M] (f : TypeId → M TypeId) : TypeKind → M TypeKind
  | .pointer t => return .pointer (← f t)
  | .lvalueReference t => return .lvalueReference (← f t)
  | .rvalueReference t => return .rvalueReference (← f t)
  | .constantArray t n => return .constantArray (← f t) n
  | .incompleteArray t => return .incompleteArray (← f t)
  | .complex t => return .complex (← f t)
  | .memberPointer pointee klass => return .memberPointer (← f pointee) (← f klass)
  | .function proto => do
    let ret ← f proto.ret
    let params ← proto.params.mapM f
    return .function { proto with ret, params }
  | k => return k

/-- What a pointer, reference or member pointer refers to. -/
def pointee? : TypeKind → Option TypeId
  | .pointer t | .lvalueReference t | .rvalueReference t | .memberPointer t _ => some t
  | _ => none

/-- What an array is made of. -/
def element? : TypeKind → Option TypeId
  | .constantArray t _ | .incompleteArray t => some t
  | _ => none

/-- What a reference refers to. -/
def referee? : TypeKind → Option TypeId
  | .lvalueReference t | .rvalueReference t => some t
  | _ => none

/-- The kind is that of a function type. -/
def isFunction : TypeKind → Bool
  | .function _ => true
  | _ => false

end TypeKind

namespace Model

/-- The number of steps that no ending walk over types exceeds. -/
def typeFuel (m : Model) : Nat := m.types.size + 1

/-- The type that a typedef stands for, if the type is one. -/
def sugarStep? (m : Model) (t : TypeId) : Option TypeId :=
  match (m.node t).kind with
  | .typedef d => (m.decl d).underlying?
  | _ => none

/-- Follows typedefs for at most `fuel` steps and joins the qualifiers on the way to `quals`. -/
def desugarFrom (m : Model) : Nat → Quals → TypeId → TypeNode
  | 0, quals, t => ⟨(m.node t).kind, quals ∪ (m.node t).quals⟩
  | fuel + 1, quals, t =>
    match m.sugarStep? t with
    | some u => m.desugarFrom fuel (quals ∪ (m.node t).quals) u
    | none => ⟨(m.node t).kind, quals ∪ (m.node t).quals⟩

/-- The type without the typedefs at its top, with the qualifiers met on the way. -/
def desugared (m : Model) (t : TypeId) : TypeNode := m.desugarFrom m.typeFuel .none t

/-- What a type is when typedefs are looked through. -/
def kindOf (m : Model) (t : TypeId) : TypeKind := (m.desugared t).kind

/-- The place of the type without the typedefs at its top. -/
def desugar (t : TypeId) : ModelM TypeId := do
  intern ((← get).desugared t)

/-- Looks through the typedefs of some types, one type after the other. -/
def lookThrough (ts : List TypeId) : ModelM Unit := ts.forM fun t => discard (desugar t)

/-- Answers a question, looking through the types on its way. -/
def askAlong {α : Type} (way : Model → List TypeId) (question : Model → α) : ModelM α := do
  let m ← get
  lookThrough (way m)
  return question m

/-- The way decides what is put into the table, and nothing else: the answer is that of the query. -/
theorem askAlong_answer {α : Type} (way : Model → List TypeId) (question : Model → α) (m : Model) :
    ((askAlong way question).run m).1 = question m := rfl

/-- Replaces the type and its parts, down to the depth `fuel`, by what typedefs stand for. The type
gets its place before its parts do, and once more when they are replaced. -/
def canonicalFrom : Nat → TypeId → ModelM TypeId
  | 0, t => pure t
  | fuel + 1, t => do
    let n := (← get).desugared t
    lookThrough [t]
    let kind ← n.kind.traverse (canonicalFrom fuel)
    intern ⟨kind, n.quals⟩

/-- The type with every typedef in it replaced by what it stands for. -/
def canonical (t : TypeId) : ModelM TypeId := do
  canonicalFrom (← get).typeFuel t

/-! ## Queries -/

/-- The type that a reference refers to; any other type is its own. -/
def nonReference (m : Model) (t : TypeId) : TypeId := (m.kindOf t).referee?.getD t

/-- What a pointer, reference or member pointer refers to. -/
def pointee? (m : Model) (t : TypeId) : Option TypeId := (m.kindOf t).pointee?

/-- What an array is made of. -/
def element? (m : Model) (t : TypeId) : Option TypeId := (m.kindOf t).element?

def isVoid (m : Model) (t : TypeId) : Bool := m.kindOf t = .void

/-- A builtin type, or a name that speaks of complex numbers. -/
def isBuiltin (m : Model) (t : TypeId) : Bool :=
  match m.kindOf t with
  | .builtin _ | .complex _ => true
  | .named spelling => Text.contains "complex" spelling
  | _ => false

def isEnum (m : Model) (t : TypeId) : Bool :=
  match m.kindOf t with
  | .enum _ => true
  | _ => false

def isRecord (m : Model) (t : TypeId) : Bool :=
  match m.kindOf t with
  | .record _ => true
  | _ => false

def isPointer (m : Model) (t : TypeId) : Bool :=
  match m.kindOf t with
  | .pointer _ => true
  | _ => false

def isReference (m : Model) (t : TypeId) : Bool := (m.kindOf t).referee?.isSome

def isLvalueReference (m : Model) (t : TypeId) : Bool :=
  match m.kindOf t with
  | .lvalueReference _ => true
  | _ => false

def isRvalueReference (m : Model) (t : TypeId) : Bool :=
  match m.kindOf t with
  | .rvalueReference _ => true
  | _ => false

def isArray (m : Model) (t : TypeId) : Bool := (m.kindOf t).element?.isSome

def isMemberPointer (m : Model) (t : TypeId) : Bool :=
  match m.kindOf t with
  | .memberPointer .. => true
  | _ => false

def isFunctionPointer (m : Model) (t : TypeId) : Bool :=
  match m.kindOf t with
  | .pointer p => (m.kindOf p).isFunction
  | _ => false

/-- A type of plain data, down to the array depth `fuel`. -/
def isPodFrom (m : Model) : Nat → TypeId → Bool
  | 0, _ => false
  | fuel + 1, t =>
    match m.kindOf t with
    | .builtin _ | .enum _ | .pointer _ | .memberPointer .. | .complex _ => true
    | .record d => (m.record? d).any RecordInfo.pod
    | .constantArray e _ | .incompleteArray e => m.isPodFrom fuel e
    | _ => false

/-- A type of plain data: a scalar, a class known to be plain, or an array of such. -/
def isPod (m : Model) (t : TypeId) : Bool := m.isPodFrom m.typeFuel t

/-- The class that a type names once typedefs are looked through. -/
def recordNamed? (m : Model) (t : TypeId) : Option DeclId :=
  match m.kindOf t with
  | .record d => some d
  | _ => none

/-- The class behind a type, looking through one pointer, reference or array. -/
def recordOfType? (m : Model) (t : TypeId) : Option DeclId :=
  match m.kindOf t with
  | .pointer p | .lvalueReference p | .rvalueReference p | .constantArray p _
  | .incompleteArray p => m.recordNamed? p
  | .record d => some d
  | _ => none

/-- The class that a declaration names, looking through typedefs. -/
def recordOfDecl? (m : Model) (d : DeclId) : Option DeclId :=
  match (m.decl d).kind with
  | .record _ => some d
  | .typedef underlying => m.recordOfType? underlying
  | _ => none

/-- Follows pointers, references and member pointers for at most `fuel` steps. -/
def pointeeEndFrom (m : Model) : Nat → TypeId → TypeId
  | 0, t => t
  | fuel + 1, t =>
    match m.pointee? t with
    | some p => m.pointeeEndFrom fuel p
    | none => t

/-- What a type refers to in the end: without qualifiers, without one array around it, and without
all pointers and references. -/
def underlying (t : TypeId) : ModelM TypeId := do
  let t ← canonical t
  let t ← unqualified t
  let m ← get
  let t := m.pointeeEndFrom m.typeFuel (((m.node t).kind.element?).getD t)
  let t ← canonical t
  unqualified t

/-! ## Ways -/

/-- A type and the elements inside it, down to the depth `fuel`. -/
def wayToElementFrom (m : Model) : Nat → TypeId → List TypeId
  | 0, _ => []
  | fuel + 1, t => t :: (m.element? t).elim [] (m.wayToElementFrom fuel)

/-- The way to what an array is made of in the end. -/
def wayToElement (m : Model) (t : TypeId) : List TypeId := m.wayToElementFrom m.typeFuel t

/-- The way of asking `isPod` of types, one after the other, until the answer is no. -/
def wayOfPods (m : Model) : List TypeId → List TypeId
  | [] => []
  | t :: rest => m.wayToElement t ++ if m.isPod t then m.wayOfPods rest else []

/-- The way of `isFunctionPointer`. -/
def wayToFunction (m : Model) (t : TypeId) : List TypeId :=
  match m.kindOf t with
  | .pointer p => [t, p]
  | _ => [t]

/-- The way of `recordOfType?`. -/
def wayToRecord (m : Model) (t : TypeId) : List TypeId :=
  match m.kindOf t with
  | .pointer p | .lvalueReference p | .rvalueReference p | .constantArray p _
  | .incompleteArray p => [t, p]
  | _ => [t]

/-- The way of `recordOfDecl?`. -/
def wayFromDecl (m : Model) (d : DeclId) : List TypeId :=
  match (m.decl d).kind with
  | .typedef underlying => m.wayToRecord underlying
  | _ => []

/-! ## Building types -/

/-- The type of lvalue references to what the type, if it is a reference, refers to. -/
def lvalueReference (referee : TypeId) : ModelM TypeId := do
  internKind (.lvalueReference (← askAlong (fun _ => [referee]) (·.nonReference referee)))

/-- The type of rvalue references to what the type, if it is a reference, refers to. A type written
as an lvalue reference stays one. -/
def rvalueReference (referee : TypeId) : ModelM TypeId := do
  match ((← get).node referee).kind with
  | .lvalueReference _ => pure referee
  | _ => internKind (.rvalueReference (← askAlong (fun _ => [referee]) (·.nonReference referee)))

/-- The type that a declaration introduces or has. A function has the type of its parameters, with
`const` if it is a method declared so. -/
def typeOfDecl? (d : DeclId) : ModelM (Option TypeId) := do
  match ((← get).decl d).kind with
  | .record _ => some <$> internKind (.record d)
  | .enum _ => some <$> internKind (.enum d)
  | .typedef _ => some <$> internKind (.typedef d)
  | .variableDecl info => return some info.type
  | .enumConstant _ ty => return some ty
  | .function info =>
    some <$> internKind (.function {
      ret := info.returnType
      params := info.params.map ParamInfo.type
      variadic := info.variadic
      quals := if info.method.any MethodInfo.isConst then .const else .none
      ref := .none })
  | _ => return none

end Model

end CppReflect
