import CppReflect.Spelling.Basic

/-!
# The type table

Types are kept once each in a table and are named by their place in it. A node names its parts by
their places, so that two places are the same exactly if the types at them are spelled alike, part
by part. A declaration is named by its place in the list of declarations.
-/

namespace CppReflect

/-- The place of a declaration. -/
structure DeclId where
  index : Nat
deriving DecidableEq, Inhabited, Repr

/-- The place of a type. -/
structure TypeId where
  index : Nat
deriving DecidableEq, Inhabited, Repr

/-- Reads a handle: handles are places counted from one, in 32 bits, and `size` places exist. -/
def placeOfHandle? (size handle : Nat) : Option Nat :=
  if 1 ≤ handle ∧ handle ≤ UInt32.size ∧ handle ≤ size then some (handle - 1) else none

/-- The handle of a declaration. -/
def DeclId.handle (d : DeclId) : Nat := d.index + 1

/-- The handle of a type. -/
def TypeId.handle (t : TypeId) : Nat := t.index + 1

/-- The parts of a function type. -/
structure FunctionProto where
  ret : TypeId
  params : List TypeId
  variadic : Bool
  /-- The qualifiers of the implicit object parameter. -/
  quals : Quals
  ref : RefQualifier
deriving DecidableEq, Inhabited, Repr

/-- What a type is, apart from its qualifiers. -/
inductive TypeKind where
  | void
  | builtin (b : Builtin)
  | pointer (pointee : TypeId)
  | lvalueReference (referee : TypeId)
  | rvalueReference (referee : TypeId)
  | record (d : DeclId)
  | enum (d : DeclId)
  | typedef (d : DeclId)
  | constantArray (element : TypeId) (extent : UInt64)
  | incompleteArray (element : TypeId)
  | function (proto : FunctionProto)
  | memberPointer (pointee klass : TypeId)
  | complex (element : TypeId)
  /-- A type of which only the spelling is known. -/
  | named (spelling : String)
deriving DecidableEq, Inhabited, Repr

/-- A type with its qualifiers. -/
structure TypeNode where
  kind : TypeKind
  quals : Quals
deriving DecidableEq, Inhabited, Repr

/-- The types that exist, each at its place. -/
structure TypeTable where
  nodes : Array TypeNode
deriving Inhabited, Repr

namespace TypeTable

/-- No type. -/
def empty : TypeTable := ⟨#[]⟩

/-- The number of types. -/
def size (t : TypeTable) : Nat := t.nodes.size

/-- The type at a place. -/
def get? (t : TypeTable) (id : TypeId) : Option TypeNode := t.nodes[id.index]?

/-- The place of a type that the table holds. -/
def find? (t : TypeTable) (n : TypeNode) : Option TypeId := (t.nodes.idxOf? n).map TypeId.mk

/-- The place of a type, which is put at the end of the table if it has none yet. -/
def intern (t : TypeTable) (n : TypeNode) : TypeId × TypeTable :=
  match t.find? n with
  | some id => (id, t)
  | none => (⟨t.size⟩, ⟨t.nodes.push n⟩)

end TypeTable

end CppReflect
