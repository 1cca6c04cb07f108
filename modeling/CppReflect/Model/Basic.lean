import CppReflect.Decl

/-!
# Models

A model holds declarations and types, each at its place, and keys under which declarations are found
again. Declarations are only ever appended. The computations of `ModelM` extend a model as they go:
a type that is asked for is put into the table if it is not there yet.
-/

namespace CppReflect

/-- Declarations and types, and the keys under which declarations are found again. -/
structure Model where
  decls : Array Decl
  types : TypeTable
  /-- The latest binding of a key stands first. -/
  keys : List (String × DeclId)
deriving Inhabited, Repr

/-- A computation that reads a model and may change it. -/
abbrev ModelM := StateM Model

namespace Model

/-- The translation unit, which every model starts with. -/
def root : DeclId := ⟨0⟩

/-- The declaration of the translation unit before anything is declared in it. -/
def rootDecl : Decl := { name := "", kind := .translationUnit, parent := none }

/-- A model of the translation unit alone. -/
def empty : Model := ⟨#[rootDecl], .empty, []⟩

/-- The declaration at a place. -/
def decl? (m : Model) (d : DeclId) : Option Decl := m.decls[d.index]?

/-- The declaration at a place; nothing is declared at a place that does not exist. -/
def decl (m : Model) (d : DeclId) : Decl := (m.decl? d).getD rootDecl

/-- The type at a place; one that does not exist is `void`. -/
def node (m : Model) (t : TypeId) : TypeNode := (m.types.get? t).getD ⟨.void, .none⟩

/-- What is known of the function at a place. -/
def function? (m : Model) (d : DeclId) : Option FunctionInfo := (m.decl? d).bind Decl.function?

/-- What is known of the class at a place. -/
def record? (m : Model) (d : DeclId) : Option RecordInfo := (m.decl? d).bind Decl.record?

/-- What is known of the template at a place. -/
def template? (m : Model) (d : DeclId) : Option TemplateInfo := (m.decl? d).bind Decl.template?

/-- The declaration that a handle stands for. -/
def declOfHandle? (m : Model) (handle : Nat) : Option DeclId :=
  (placeOfHandle? m.decls.size handle).map DeclId.mk

/-- The type that a handle stands for. -/
def typeOfHandle? (m : Model) (handle : Nat) : Option TypeId :=
  (placeOfHandle? m.types.size handle).map TypeId.mk

/-- The declaration bound to a key. -/
def keyed? (m : Model) (key : String) : Option DeclId := m.keys.lookup key

/-! ## Declaring -/

/-- Changes the declaration at a place. -/
def modifyDecl (d : DeclId) (f : Decl → Decl) : ModelM Unit :=
  modify fun m => { m with decls := m.decls.modify d.index f }

/-- Changes what is known of a function; any other declaration stays as it is. -/
def modifyFunction (d : DeclId) (f : FunctionInfo → FunctionInfo) : ModelM Unit :=
  modifyDecl d fun e =>
    match e.kind with
    | .function info => { e with kind := .function (f info) }
    | _ => e

/-- Changes what is known of a class; any other declaration stays as it is. -/
def modifyRecord (d : DeclId) (f : RecordInfo → RecordInfo) : ModelM Unit :=
  modifyDecl d fun e =>
    match e.kind with
    | .record info => { e with kind := .record (f info) }
    | _ => e

/-- Changes what is known of a template; any other declaration stays as it is. -/
def modifyTemplate (d : DeclId) (f : TemplateInfo → TemplateInfo) : ModelM Unit :=
  modifyDecl d fun e =>
    match e.kind with
    | .classTemplate info => { e with kind := .classTemplate (f info) }
    | .functionTemplate info => { e with kind := .functionTemplate (f info) }
    | _ => e

/-- Appends a declaration that `parent` owns without listing it, such as the pattern of a
template. -/
def addDetached (parent : DeclId) (name : String) (access : Access) (kind : DeclKind) :
    ModelM DeclId :=
  modifyGet fun m =>
    (⟨m.decls.size⟩, { m with decls := m.decls.push { name, kind, parent := some parent, access } })

/-- Appends a declaration and lists it in `parent`. -/
def addDecl (parent : DeclId) (name : String) (access : Access) (kind : DeclKind) :
    ModelM DeclId := do
  let d ← addDetached parent name access kind
  modifyDecl parent fun e => { e with members := e.members ++ [d] }
  return d

/-- Binds a key to a declaration. -/
def bindKey (key : String) (d : DeclId) : ModelM Unit :=
  modify fun m => { m with keys := (key, d) :: m.keys }

/-! ## Types -/

/-- The place of a type. -/
def intern (n : TypeNode) : ModelM TypeId :=
  modifyGet fun m =>
    let (t, types) := m.types.intern n
    (t, { m with types })

/-- The place of a type without qualifiers. -/
def internKind (k : TypeKind) : ModelM TypeId := intern ⟨k, .none⟩

/-- The type `void`. -/
def void : ModelM TypeId := internKind .void

/-- A builtin type. -/
def builtin (b : Builtin) : ModelM TypeId := internKind (.builtin b)

/-- The type of pointers to a type. -/
def pointer (pointee : TypeId) : ModelM TypeId := internKind (.pointer pointee)

/-- A type with qualifiers added. -/
def withQuals (t : TypeId) (q : Quals) : ModelM TypeId := do
  let n := (← get).node t
  intern ⟨n.kind, n.quals ∪ q⟩

/-- A type with qualifiers taken away. -/
def withoutQuals (t : TypeId) (q : Quals) : ModelM TypeId := do
  let n := (← get).node t
  intern ⟨n.kind, n.quals.without q⟩

/-- A type without qualifiers. -/
def unqualified (t : TypeId) : ModelM TypeId := withoutQuals t .all

end Model

end CppReflect
