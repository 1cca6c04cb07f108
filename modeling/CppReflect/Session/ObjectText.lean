import CppReflect.Number.Text
import CppReflect.Session.Object
import CppReflect.Text.Quoted
import CppReflect.Text.Utf8

/-!
# Objects as text

An object is shown by its value if it is a number, a character, a pointer or a text, and by its
address if it is anything else. Numbers lie in memory with the lowest byte first.
-/

namespace CppReflect

/-- An object: its address, the bytes there, which zeros follow, and the characters that it points
to if it is a pointer to some. -/
structure Object where
  address : Address
  bytes : List UInt8 := []
  characters : List UInt8 := []
deriving DecidableEq, Inhabited, Repr

namespace Object

/-- An object that holds a number of 64 bits. -/
def ofWord (address : Address) (n : UInt64) : Object where
  address
  bytes := (List.range 8).map fun i => UInt8.ofNat (n.toNat / Nat.pow 256 i)

/-- The number in the first `size` bytes. -/
def word (o : Object) (size : Nat) : Nat :=
  (o.bytes.take size).foldr (fun b n => b.toNat + 256 * n) 0

/-- The signed number in the first `size` bytes. -/
def signedWord (o : Object) (size : Nat) : Int :=
  Int.bmod (o.word size) (Nat.pow 256 size)

/-- The text of an address. -/
def addressText (a : Nat) : String := "0x" ++ String.ofList (Nat.toDigits 16 a)

/-- The object shown by its own address. -/
def byAddress (o : Object) : String := "@" ++ addressText o.address

/-- The value of a builtin type that lies at the object. -/
def builtinText (o : Object) (b : Builtin) : String :=
  match b with
  | .bool => if o.word 1 = 0 then "false" else "true"
  | .char | .schar => "'" ++ String.singleton (Char.ofNat (o.word 1)) ++ "'"
  | .float => Number.binary32.plain (Number.binary32.decode (o.word 4)) ++ "f"
  | .double => Number.binary64.plain (Number.binary64.decode (o.word 8))
  | .longDouble => o.byAddress
  | .nullPtr => "nullptr"
  | _ => if b.isSigned then toString (o.signedWord b.size) else toString (o.word b.size)

/-- The characters that the object points to. -/
def characterText (o : Object) : String :=
  if o.word 8 = 0 then "nullptr"
  else Text.quoted (Text.Utf8.decodeLossy (Text.Utf8.untilZero o.characters))

/-- How objects of a type are shown. -/
inductive Rendering where
  | builtin (b : Builtin)
  | characters
  | pointer
  | byAddress
deriving DecidableEq, Inhabited, Repr

/-- How objects of a type are shown, where an enumeration is followed to its integer type at most
`fuel` times. -/
def renderingFrom : Nat → TypeId → ModelM Rendering
  | 0, _ => return .byAddress
  | fuel + 1, t => do
    let t ← Model.canonical t
    let m ← get
    match (m.node t).kind with
    | .builtin b => return .builtin b
    | .enum d =>
      match (m.decl d).enum? with
      | some info => renderingFrom fuel info.integerType
      | none => return .byAddress
    | .pointer pointee =>
      let pointee ← Model.canonical pointee
      match ((← get).node pointee).kind with
      | .builtin .char => return .characters
      | _ => return .pointer
    | _ => return .byAddress

/-- How objects of the type that a text spells are shown. -/
def renderingOf (type : String) : ModelM Rendering := do
  let t ← Model.parseType type Model.root
  renderingFrom (← get).declFuel t

/-- The text of an object. -/
def render (o : Object) : Rendering → String
  | .builtin b => o.builtinText b
  | .characters => o.characterText
  | .pointer => addressText (o.word 8)
  | .byAddress => o.byAddress

end Object

/-- The text of an object of a type that is spelled. -/
def Session.objectText (type : String) (object : Option Object) : SessionM String := do
  match object with
  | none => return "nullptr"
  | some o => return o.render ((← Session.withModel (Object.renderingOf type)).getD .byAddress)

end CppReflect
