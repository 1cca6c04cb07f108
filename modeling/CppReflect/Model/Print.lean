import CppReflect.Model.Hierarchy

/-!
# Names and types in print

Declarators are printed inside out: a pointer, reference, array or function is written around the
name it declares, and the type it is made from is printed around that. Printing a class takes the
printed arguments of its template, so names are printed by functions that take the printer of types
as an argument.
-/

namespace CppReflect.Model

/-! ## Names -/

/-- The printed template arguments with a comma and a blank between two. -/
def argsTextWith (print : TypeId → String) (args : List TemplateArg) : String :=
  Text.joined ", " <| args.map fun a =>
    match a.value with
    | some value => value
    | none => print a.type

/-- The arguments that a specialization of a class or function template was made with; `none` for a
declaration that is neither. -/
def templateArgs? (m : Model) (d : DeclId) : Option (List TemplateArg) :=
  match (m.decl d).kind with
  | .record info => info.specialization.map Specialization.args
  | .function info => if info.templateArgs.isEmpty then none else some info.templateArgs
  | _ => none

/-- The name with the arguments of a specialization. -/
def completeNameWith (print : TypeId → String) (m : Model) (d : DeclId) : String :=
  match m.templateArgs? d with
  | some args => (m.decl d).name ++ "<" ++ argsTextWith print args ++ ">"
  | none => (m.decl d).name

/-- The declaration is the translation unit. -/
def isTranslationUnit (m : Model) (d : DeclId) : Bool := (m.decl d).kind = .translationUnit

/-- The named scopes around a declaration, the nearest first. The translation unit ends them. -/
def namedScopes (m : Model) (d : DeclId) : List DeclId :=
  (m.ancestors d).takeWhile fun p => !m.isTranslationUnit p

/-- What a scope contributes to the names inside it: nothing for an unscoped enumeration. -/
def scopeSegment? (m : Model) (name : DeclId → String) (scope : DeclId) : Option String :=
  match (m.decl scope).kind with
  | .enum info => if info.isScoped then some (name scope) else none
  | .namespaceDecl _ =>
    if (m.decl scope).name.isEmpty then some "(anonymous namespace)" else some (name scope)
  | _ => some (name scope)

/-- The names of the scopes around a declaration from the outermost to the nearest, each followed
by `::`. -/
def qualifierText (m : Model) (name : DeclId → String) (d : DeclId) : String :=
  String.join <| ((m.namedScopes d).filterMap (m.scopeSegment? name)).reverse.map (· ++ "::")

/-- The name with the scopes around it, each named by `name`. Only the translation unit has none. -/
def qualifiedBy (m : Model) (name : DeclId → String) (d : DeclId) : String :=
  if m.isTranslationUnit d then "" else m.qualifierText name d ++ name d

/-- The name with the names of the scopes around it, all without template arguments. -/
def qualifiedName (m : Model) (d : DeclId) : String :=
  m.qualifiedBy (fun s => (m.decl s).name) d

/-- The name with the names of the scopes around it, all with template arguments. -/
def qualifiedCompleteNameWith (print : TypeId → String) (m : Model) (d : DeclId) : String :=
  m.qualifiedBy (m.completeNameWith print) d

/-! ## Types -/

/-- A declarator operator in front of a function or array has to stand in parentheses. -/
def needsParens : TypeKind → Bool
  | .function _ | .constantArray .. | .incompleteArray _ => true
  | _ => false

/-- The text of the qualifiers. -/
def qualsText (q : Quals) : String := Text.joined " " q.words

/-- A declarator operator written in front of a declarator, with the qualifiers of the operator. -/
def operatorText (sigil : String) (q : Quals) (inner : String) : String :=
  if q.isEmpty then sigil ++ inner
  else sigil ++ qualsText q ++ (if inner.isEmpty then "" else " ") ++ inner

/-- The base of a type written in front of a declarator. -/
def baseText (base : String) (q : Quals) (inner : String) : String :=
  let out := if q.isEmpty then base else qualsText q ++ " " ++ base
  if inner.isEmpty then out
  else if Text.startsWith "[" inner then out ++ inner
  else out ++ " " ++ inner

/-- What follows the parameters of a function type. -/
def functionTail (q : Quals) (ref : RefQualifier) : String :=
  (if q.isEmpty then "" else " " ++ qualsText q) ++
    (match ref with
    | .none => ""
    | .lvalue => " &"
    | .rvalue => " &&")

/-- The parameter texts, with `...` behind them for a variadic function. -/
def paramsText (params : List String) (variadic : Bool) : String :=
  Text.joined ", " (params ++ if variadic then ["..."] else [])

/-- The type printed around a declarator, down to the depth `fuel` of its parts. The types among the
template arguments of a class that it names are printed by `argText`. -/
def printFrom (m : Model) (argText : TypeId → String) : Nat → TypeId → String → String
  | 0, _, _ => ""
  | fuel + 1, t, inner =>
    let n := m.node t
    let print := fun u => m.printFrom argText fuel u ""
    let around (sigil : String) (pointee : TypeId) : String :=
      let d := operatorText sigil n.quals inner
      m.printFrom argText fuel pointee
        (if needsParens (m.node pointee).kind then "(" ++ d ++ ")" else d)
    match n.kind with
    | .pointer p => around "*" p
    | .lvalueReference p => around "&" p
    | .rvalueReference p => around "&&" p
    | .memberPointer pointee klass => around (print klass ++ "::*") pointee
    | .constantArray e n => m.printFrom argText fuel e (inner ++ "[" ++ toString n.toNat ++ "]")
    | .incompleteArray e => m.printFrom argText fuel e (inner ++ "[]")
    | .function p =>
      m.printFrom argText fuel p.ret
        (inner ++ "(" ++ paramsText (p.params.map print) p.variadic ++ ")" ++
          functionTail p.quals p.ref)
    | .void => baseText "void" n.quals inner
    | .builtin b => baseText b.spelling n.quals inner
    | .record d => baseText (m.qualifiedCompleteNameWith argText d) n.quals inner
    | .enum d | .typedef d => baseText (m.qualifiedName d) n.quals inner
    | .complex e => baseText ("_Complex " ++ print e) n.quals inner
    | .named spelling => baseText spelling n.quals inner

/-- A type that stands among template arguments, down to the depth `fuel` of classes that are named
inside the arguments of one another. -/
def argTextFrom (m : Model) : Nat → TypeId → String
  | 0, _ => ""
  | fuel + 1, t => m.printFrom (m.argTextFrom fuel) m.typeFuel t ""

/-- The type as that of a declarator. No spelling that ends names more classes inside one another
than are declared. -/
def printType (m : Model) (t : TypeId) (declarator : String) : String :=
  m.printFrom (m.argTextFrom m.declFuel) m.typeFuel t declarator

/-- The spelling of a type. -/
def typeText (m : Model) (t : TypeId) : String := m.printType t ""

/-- The printed template arguments. -/
def argsText (m : Model) (args : List TemplateArg) : String := argsTextWith m.typeText args

/-- The name with the arguments of a specialization. -/
def completeName (m : Model) (d : DeclId) : String := m.completeNameWith m.typeText d

/-- The name with the names of the scopes around it, all with template arguments. -/
def qualifiedCompleteName (m : Model) (d : DeclId) : String :=
  m.qualifiedCompleteNameWith m.typeText d

/-- The declaration of a function with the names and default arguments of its parameters, as in
`int N::f(int a, double b = 2.) const`. -/
def functionSignature? (m : Model) (d : DeclId) : Option String :=
  (m.function? d).map fun f =>
    let params := f.params.map fun p =>
      m.printType p.type p.name ++ (p.default?.elim "" (" = " ++ ·))
    let declarator := m.qualifiedCompleteName d ++ "(" ++ paramsText params f.variadic ++ ")"
    let text :=
      if f.isConstructor || f.isDestructor then declarator
      else m.printType f.returnType declarator
    text ++ (if f.method.any MethodInfo.isConst then " const" else "")

end CppReflect.Model
