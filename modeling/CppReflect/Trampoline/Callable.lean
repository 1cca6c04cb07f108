import CppReflect.Interpreter.Basic

/-!
# Calling through trampolines

A callable holds the code of a trampoline with what is known of the function behind it. Before a
call the pointers that are passed can be checked against that. A trampoline that is called notes
the call.
-/

namespace CppReflect

/-- An address of memory that objects can lie at. -/
abbrev Address := Nat

namespace Trampoline

/-- What a callable knows of its function. -/
structure Shape where
  required : Nat := 0
  num : Nat := 0
  isConstructor : Bool := false
  isMethod : Bool := false
  returnsVoid : Bool := false
deriving DecidableEq, Inhabited, Repr

/-- What is passed in a call: where the result goes, a list of argument cells, and the object.
`none` and a missing list are null pointers. -/
structure Passed where
  result : Option Address := none
  hasList : Bool := false
  /-- The number of cells that the list is said to have. -/
  count : Nat := 0
  self : Option Address := none
deriving DecidableEq, Inhabited, Repr

/-- A call that a trampoline has noted. -/
inductive NotedCall where
  | call (self : Option Address) (count : Nat) (hasList hasResult : Bool)
  | destruction (object : Option Address) (count : Nat) (withFree : Bool)
deriving DecidableEq, Inhabited, Repr

/-- The object that a noted call is made on. -/
def NotedCall.object? : NotedCall → Option Address
  | .call self _ _ _ => self
  | .destruction object _ _ => object

/-- A function that can be called, or nothing that can. The origin is the handle of the function. -/
inductive Callable where
  | invalid
  | generic (code : MachineCode) (origin : Nat) (shape : Shape)
  | destructor (code : MachineCode) (origin : Nat)
deriving DecidableEq, Inhabited, Repr

/-- What is passed fits a shape. -/
def Shape.accepts (s : Shape) (p : Passed) : Bool :=
  let placed := !s.isConstructor || p.result.isSome || p.self.isSome
  let enough := s.required ≤ p.count
  let listed := p.count == 0 || p.hasList
  let bound := !s.isMethod || s.isConstructor || p.self.isSome
  let stored := s.returnsVoid || s.isConstructor || p.result.isSome
  placed && enough && listed && bound && stored

namespace Callable

/-- Something can be called. -/
def isValid : Callable → Bool
  | .invalid => false
  | .generic .. | .destructor .. => true

/-- The handle of the function behind the callable; the null handle if nothing can be called. -/
def origin : Callable → Nat
  | .invalid => 0
  | .generic _ origin _ | .destructor _ origin => origin

/-- The code, if something can be called. -/
def code : Callable → MachineCode
  | .invalid => .none
  | .generic code .. | .destructor code _ => code

/-- What is known of the function. A destructor is a method without arguments and result. -/
def shape : Callable → Shape
  | .invalid => {}
  | .generic _ _ shape => shape
  | .destructor .. => { isMethod := true, returnsVoid := true }

/-- What is passed fits the function. Destructors are not called with arguments at all. -/
def accepts (c : Callable) (p : Passed) : Bool :=
  match c with
  | .destructor .. => false
  | _ => c.shape.accepts p

/-- The greatest count that a trampoline can be told. -/
def maxCount : Nat := 0x7fffffff

/-- Destroys `count` objects one behind the other, or one object if the count is zero. Only a
destructor does. -/
def destroy (c : Callable) (object : Option Address) (count : Nat) (withFree : Bool) :
    Option NotedCall :=
  match c with
  | .destructor .destructor _ => some (.destruction object count withFree)
  | .destructor .call _ => some (.call object (count % UInt32.size) withFree false)
  | _ => none

/-- Calls the function. A destructor that is passed a result and no list destroys the object there
and frees it. -/
def invoke (c : Callable) (p : Passed) : Option NotedCall :=
  match c with
  | .invalid => none
  | .destructor .. =>
    if p.result.isSome && !p.hasList then c.destroy p.result 0 true else none
  | .generic code _ _ =>
    let count := min p.count maxCount
    match code with
    | .none => none
    | .call => some (.call p.self count p.hasList p.result.isSome)
    | .destructor => some (.destruction p.self count p.hasList)

end Callable

end Trampoline

end CppReflect
