import CppReflect.Builtin
import CppReflect.Qualifiers
import CppReflect.Text.Basic

/-!
# Type spellings

What a C++ type spelling such as `const N::A<int> *(&)[3]` says before its names are looked up: a
base, the qualifiers of the base, and the declarator operators from the base outwards.
-/

namespace CppReflect

/-- The reference qualifier of a member function. -/
inductive RefQualifier where
  | none
  | lvalue
  | rvalue
deriving DecidableEq, Inhabited, Repr

/-- The text of a reference qualifier. -/
def RefQualifier.text : RefQualifier → String
  | .none => ""
  | .lvalue => "&"
  | .rvalue => "&&"

/-- A possibly qualified name. Template arguments stay in the text of their segment. -/
structure QualifiedName where
  /-- The name starts with `::`. -/
  global : Bool
  /-- The parts between the `::`. -/
  segments : List String
deriving DecidableEq, Inhabited, Repr

/-- The name as it is written. -/
def QualifiedName.text (n : QualifiedName) : String :=
  (if n.global then "::" else "") ++ Text.joined "::" n.segments

namespace Spelling

/-- What the declarator operators of a spelling are applied to. -/
inductive Base where
  | void
  | builtin (b : Builtin)
  | complex (element : Builtin)
  | name (n : QualifiedName)
deriving DecidableEq, Inhabited, Repr

end Spelling

mutual

/-- A declarator operator, which makes a type out of the one inside it. -/
inductive DeclaratorOp where
  | pointer (quals : Quals)
  | lvalueReference
  | rvalueReference
  | memberPointer (klass : QualifiedName) (quals : Quals)
  | array (extent : Option UInt64)
  | function (params : List Spelling) (variadic : Bool) (quals : Quals) (ref : RefQualifier)

/-- A type as it is spelled: a base with qualifiers and the operators applied to it, innermost
first. -/
inductive Spelling where
  | mk (base : Spelling.Base) (quals : Quals) (ops : List DeclaratorOp)

end

namespace Spelling

/-- What the operators are applied to. -/
def base : Spelling → Base
  | mk b _ _ => b

/-- The qualifiers of the base. -/
def quals : Spelling → Quals
  | mk _ q _ => q

/-- The declarator operators, innermost first. -/
def ops : Spelling → List DeclaratorOp
  | mk _ _ ops => ops

end Spelling

end CppReflect
