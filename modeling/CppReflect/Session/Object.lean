import CppReflect.Query.Layout
import CppReflect.Session.Basic

/-!
# Objects

Objects are constructed and destroyed by trampolines, in storage of the session or of the caller.
Storage is handed out at rising addresses and never twice.
-/

namespace CppReflect.Session

/-- What addresses of storage are divisible by. -/
def alignment : Nat := 16

/-- The greatest size of storage that is handed out. -/
def maxStorage : Nat := 0x10000000000

/-- The size of a class, and zero if it is not known. -/
def sizeOf (scope : Handle) : SessionM Nat := do
  let size ← withBench (Service.orDefault (Query.sizeOfScope scope) 0)
  return (size.getD 0).toNat

/-- Storage for `count` objects of a class, and at least for one. There is none for a class of
unknown size. -/
def allocate (scope : Handle) (count : Nat) : SessionM (Option Address) := do
  let size := (← sizeOf scope) * max count 1
  if size = 0 ∨ maxStorage < size then return none
  else
    modifyGet fun s =>
      let next := s.nextAddress + (size + alignment - 1) / alignment * alignment
      (some s.nextAddress, { s with nextAddress := next })

/-- Gives storage of a class back. The size of the class is asked for, and that is all that happens:
storage is never handed out twice. -/
def deallocate (scope : Handle) (address : Option Address) : SessionM Unit := do
  if address.isSome then
    let _ ← sizeOf scope

/-- A callable for the function that a handle names. -/
def callable (func : Handle) : SessionM Trampoline.Callable := do
  match (← get).model?.bind (·.declOfHandle? func) with
  | some d => return (← withEngine (Trampoline.callable d)).getD .invalid
  | none => return .invalid

/-- Calls a constructor without arguments on the objects at some addresses. -/
def constructAt (constructor : Trampoline.Callable) : List Address → SessionM Unit
  | [] => return ()
  | address :: rest => do
    note (constructor.invoke { self := some address })
    constructAt constructor rest

/-- Constructs `count` objects of a class and at least one, by its default constructor, in the arena
or else in new storage. The objects stand one behind the other, so several need a known size. -/
def construct (scope : Handle) (arena : Option Address) (count : Nat) :
    SessionM (Option Address) := do
  match (← get).model?.bind (Query.defaultConstructor? · scope) with
  | none => return none
  | some constructor =>
    let constructor ← callable constructor.handle
    if !constructor.isValid then return none
    let stride ← sizeOf scope
    let base ←
      match arena with
      | some address => pure (some address)
      | none => allocate scope count
    match base with
    | none => return none
    | some base =>
      if stride = 0 ∧ 1 < count then return none
      constructAt constructor ((List.range (max count 1)).map fun i => base + i * stride)
      return some base

/-- Destroys `count` objects of a class, and at least one, and gives their storage back if asked to.
Tells whether the destructor was called. -/
def destruct (object : Option Address) (scope : Handle) (withFree : Bool) (count : Nat) :
    SessionM Bool := do
  match object with
  | none => return false
  | some address =>
    let record ← withModel (Model.askAlong (Query.wayBehind · scope) (Query.recordBehind? · scope))
    match record.join with
    | none => return false
    | some record =>
      match ← withEngine (Trampoline.obtain .destruction record).run with
      | some (.ok code) =>
        let many := if 1 < count then count else 0
        note ((Trampoline.Callable.destructor code 0).destroy (some address) many false)
        if withFree then deallocate scope object
        return true
      | _ => return false

end CppReflect.Session
