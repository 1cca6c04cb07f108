import CppReflect.Model.Sugar

/-!
# Types in outline

The outline of a type tells it part by part, from the outside to the inside, with declarations told
by their handles. Two types have the same outline only if they are the same type, which the C++
spelling of a type does not promise.
-/

namespace CppReflect.Model

/-- A word with what it applies to in parentheses. -/
def applied (word : String) (parts : List String) : String :=
  word ++ "(" ++ String.intercalate ";" parts ++ ")"

/-- A word with the handle of a declaration. -/
def numbered (word : String) (d : DeclId) : String := word ++ "#" ++ toString d.handle

/-- The outline of what a type is, given the outlines of its parts. -/
def kindOutline (inner : TypeId → String) : TypeKind → String
  | .void => "void"
  | .builtin b => b.spelling
  | .pointer p => applied "ptr" [inner p]
  | .lvalueReference p => applied "lref" [inner p]
  | .rvalueReference p => applied "rref" [inner p]
  | .record d => numbered "record" d
  | .enum d => numbered "enum" d
  | .typedef d => numbered "typedef" d
  | .constantArray e n => applied ("array[" ++ toString n.toNat ++ "]") [inner e]
  | .incompleteArray e => applied "array[]" [inner e]
  | .function p =>
    applied "fn" [inner p.ret, String.intercalate "," (p.params.map inner),
      if p.variadic then "..." else "", toString p.quals.bits.toNat, p.ref.text]
  | .memberPointer p c => applied "member" [inner p, inner c]
  | .complex e => applied "complex" [inner e]
  | .named text => "named(" ++ text ++ ")"

/-- The outline of a type, down to at most `fuel` parts inside each other. -/
def outlineFrom (m : Model) : Nat → TypeId → String
  | 0, _ => ""
  | fuel + 1, t =>
    let n := m.node t
    let core := kindOutline (m.outlineFrom fuel) n.kind
    if n.quals.isEmpty then core else "q" ++ toString n.quals.bits.toNat ++ " " ++ core

/-- The outline of a type. -/
def outline (m : Model) (t : TypeId) : String := m.outlineFrom m.typeFuel t

end CppReflect.Model
