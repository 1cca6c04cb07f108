import CppReflect.Decl
import CppReflect.Json.Basic

/-!
# Nodes of an AST dump

What is read off a node of Clang's JSON dump: its kind, name and flags, the spelling of its type,
the nodes inside it, and the value of a constant expression.
-/

namespace CppReflect.Ast

/-- Why a dump is given up. -/
inductive IngestError where
  /-- The text is not JSON. -/
  | malformed
  /-- A place in the source is a number that does not fit in 64 bits. -/
  | excessive
deriving DecidableEq, Inhabited, Repr

/-- The text under a key, empty if there is none. -/
def text (node : Json) (key : String) : String := ((node.get? key).bind Json.str?).getD ""

/-- The flag under a key. -/
def flag (node : Json) (key : String) : Bool := ((node.get? key).bind Json.bool?).getD false

/-- The value has the key. -/
def has (node : Json) (key : String) : Bool := (node.get? key).isSome

/-- What the node declares or expresses. -/
def kind (node : Json) : String := text node "kind"

/-- The spelling of a type that stands under a key. -/
def typeUnder? (node : Json) (key : String) : Option String :=
  ((node.get? key).bind (Json.get? "qualType")).bind Json.str?

/-- The spelling of the type of the node. -/
def qualType? (node : Json) : Option String := typeUnder? node "type"

/-- The nodes inside the node. -/
def children (node : Json) : List Json := ((node.get? "inner").bind Json.items?).getD []

/-- The offset and length in bytes of the token at a location; in a macro, where it is expanded. -/
def offset? (loc : Json) : Option (Nat × Nat) := do
  let loc := (loc.get? "expansionLoc").getD loc
  let offset ← (← loc.get? "offset").nat?
  return (offset, ((loc.get? "tokLen").bind Json.nat?).getD 0)

/-- The digits of a text with an optional sign. -/
def readInteger? (s : String) : Option Int :=
  let (negative, cs) :=
    match s.toList with
    | '-' :: rest => (true, rest)
    | '+' :: rest => (false, rest)
    | rest => (false, rest)
  if cs.isEmpty || cs.any (fun c => !c.isDigit) then none
  else some (if negative then -(Number.natOfDigits cs : Int) else Number.natOfDigits cs)

/-- The 64-bit number that a value is or spells. One that only fits without a sign is taken modulo
`2 ^ 64`. -/
def integer? (v : Json) : Option Int64 :=
  let fitting (n : Int) : Option Int64 :=
    if -0x8000000000000000 ≤ n ∧ n < UInt64.size then some (Int64.ofInt n) else none
  match v with
  | .int n => fitting n
  | .str s => (readInteger? s).bind fitting
  | _ => none

/-- The first value of a constant expression in the node, down to the depth `fuel`. -/
def constantValueFrom : Nat → Json → Option Int64
  | 0, _ => none
  | fuel + 1, node =>
    let own :=
      if ["ConstantExpr", "IntegerLiteral", "CharacterLiteral"].contains (kind node) then
        (node.get? "value").bind integer?
      else none
    own.orElse fun _ => (children node).findSome? (constantValueFrom fuel)

/-- The first value of a constant expression in the node. -/
def constantValue? (node : Json) : Option Int64 := constantValueFrom (node.depth + 1) node

/-- The node declares a function. -/
def isFunctionKind (kind : String) : Bool :=
  ["FunctionDecl", "CXXMethodDecl", "CXXConstructorDecl", "CXXDestructorDecl",
    "CXXConversionDecl"].contains kind

/-- The text of a value as a template argument. -/
def valueText : Json → String
  | .str s => s
  | v => v.render

/-- Drops characters that take exactly the given number of bytes. -/
def dropBytes? (n : Nat) : List Char → Option (List Char)
  | [] => if n = 0 then some [] else none
  | c :: cs =>
    if n = 0 then some (c :: cs)
    else if c.utf8Size ≤ n then dropBytes? (n - c.utf8Size) cs
    else none

/-- Takes characters that take exactly the given number of bytes. -/
def takeBytes? (n : Nat) : List Char → Option (List Char)
  | [] => if n = 0 then some [] else none
  | c :: cs =>
    if n = 0 then some []
    else if c.utf8Size ≤ n then (takeBytes? (n - c.utf8Size) cs).map (c :: ·)
    else none

/-- The text between two places in a source, counted in bytes, if both are between characters. -/
def sourceBetween? (source : String) (first last : Nat) : Option String :=
  if last < first then none
  else do
    let rest ← dropBytes? first source.toList
    let cs ← takeBytes? (last - first) rest
    return String.ofList cs

/-- Where the default argument of a parameter stands in the source: where its first token begins,
where its last token begins, and how long that one is. -/
def defaultRange? (param : Json) : Option (Nat × Nat × Nat) := do
  let _ ← param.get? "init"
  let expr ← (children param).head?
  let range ← expr.get? "range"
  let (first, _) ← offset? (← range.get? "begin")
  let (last, length) ← offset? (← range.get? "end")
  return (first, last, length)

/-- The text of the default argument of a parameter, as the source has it. -/
def defaultArgument (source : String) (param : Json) : Except IngestError (Option String) :=
  match defaultRange? param with
  | none => return none
  | some (first, last, length) =>
    if last + length < UInt64.size then
      return (sourceBetween? source first (last + length)).map Text.trimmed
    else throw .excessive

end CppReflect.Ast
