import CppReflect.Json.Basic
import CppReflect.Trampoline.Callable

/-!
# Callables and calls as JSON

A callable is exported with what is known of its function, and a noted call with what was passed in
it. Addresses mean nothing outside a session, so that objects are told by how far they lie from the
first one that was passed.
-/

namespace CppReflect.Trampoline

/-- The name of the kind of a callable. -/
def Callable.kindName : Callable → String
  | .invalid => "Unknown"
  | .generic .. => "GenericCall"
  | .destructor .. => "DestructorCall"

/-- A callable as JSON. -/
def Callable.toJson (c : Callable) : Json :=
  .obj [
    ("kind", .str c.kindName),
    ("valid", .bool c.isValid),
    ("invalid", .bool !c.isValid),
    ("address", .bool (c.code != .none)),
    ("origin", if c.origin = 0 then .null else .ofNat c.origin),
    ("shape", .ofList .ofNat [c.shape.required, c.shape.num]),
    ("flags", .ofList .bool [c.shape.isConstructor, c.shape.isMethod, c.shape.returnsVoid])]

/-- How far an object lies from a base, as JSON. -/
def offsetJson (base object : Option Address) : Json :=
  match base, object with
  | some base, some object => .int (Int.ofNat object - Int.ofNat base)
  | _, _ => .null

/-- A noted call as JSON. A count of destructions is read as a signed word. -/
def NotedCall.toJson (base : Option Address) (c : NotedCall) : Json :=
  let offset := offsetJson base c.object?
  match c with
  | .call _ count hasList hasResult =>
    .obj [("target", .str "call"), ("offset", offset), ("nargs", .ofNat count),
      ("args", .bool hasList), ("ret", .bool hasResult)]
  | .destruction _ count withFree =>
    .obj [("target", .str "dtor"), ("offset", offset),
      ("nary", .int (Int64.ofNat count).toInt), ("with_free", .bool withFree)]

/-- Noted calls as JSON. -/
def NotedCall.listJson (calls : List NotedCall) : Json :=
  .ofList (NotedCall.toJson (calls.findSome? NotedCall.object?)) calls

end CppReflect.Trampoline
