import CppReflect.Json.Basic
import CppReflect.Spelling.Basic

/-!
# Type spellings as JSON

A spelling is exported as its base, the qualifiers of the base, and the declarator operators in
their order.
-/

namespace CppReflect

/-- Qualifiers as JSON: the bits of const, volatile and restrict. -/
def Quals.toJson (q : Quals) : Json := .ofNat q.bits.toNat

/-- A qualified name as JSON. -/
def QualifiedName.toJson (n : QualifiedName) : Json :=
  .obj [("global", .bool n.global), ("segments", .ofList .str n.segments), ("text", .str n.text)]

/-- The base of a spelling as JSON. -/
def Spelling.Base.toJson : Spelling.Base → Json
  | .void => .str "void"
  | .builtin b => .obj [("builtin", .str b.spelling)]
  | .complex b => .obj [("complex", .str b.spelling)]
  | .name n => .obj [("name", n.toJson)]

mutual

/-- A spelling as JSON. -/
def Spelling.toJson : Spelling → Json
  | .mk base quals ops =>
    .obj [("base", base.toJson), ("quals", quals.toJson), ("ops", .arr (DeclaratorOp.listJson ops))]

/-- A declarator operator as JSON. -/
def DeclaratorOp.toJson : DeclaratorOp → Json
  | .pointer quals => .obj [("pointer", quals.toJson)]
  | .lvalueReference => .str "lref"
  | .rvalueReference => .str "rref"
  | .memberPointer klass quals => .obj [("member", klass.toJson), ("quals", quals.toJson)]
  | .array extent => .obj [("array", .ofOption (fun n => .ofNat n.toNat) extent)]
  | .function params variadic quals ref =>
    .obj [("params", .arr (Spelling.listJson params)), ("variadic", .bool variadic),
      ("quals", quals.toJson), ("ref", .str ref.text)]

/-- Spellings as JSON. -/
def Spelling.listJson : List Spelling → List Json
  | [] => []
  | s :: rest => s.toJson :: Spelling.listJson rest

/-- Declarator operators as JSON. -/
def DeclaratorOp.listJson : List DeclaratorOp → List Json
  | [] => []
  | op :: rest => op.toJson :: DeclaratorOp.listJson rest

end

end CppReflect
