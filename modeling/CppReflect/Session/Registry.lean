/-!
# The interpreters of a session

Interpreters are numbered in the order of their registration and keep their numbers. At most one is
active: the latest one, unless another one is made active. When an interpreter goes, the latest one
that is left becomes active.
-/

namespace CppReflect

/-- Registered things, each with its number, and the number of the active one. -/
structure Registry (α : Type) where
  /-- In the order of registration. -/
  entries : List (Nat × α) := []
  active : Option Nat := none
  /-- The number that the next one gets. -/
  next : Nat := 1
deriving Inhabited, Repr

namespace Registry

variable {α : Type}

/-- The number of registered things. -/
def size (r : Registry α) : Nat := r.entries.length

/-- What is registered under a number. -/
def get? (r : Registry α) (number : Nat) : Option α := r.entries.lookup number

/-- What is active, with its number. -/
def active? (r : Registry α) : Option (Nat × α) :=
  r.active.bind fun number => (r.get? number).map (number, ·)

/-- Registers something, which becomes active. -/
def register (r : Registry α) (a : α) : Registry α where
  entries := r.entries ++ [(r.next, a)]
  active := some r.next
  next := r.next + 1

/-- Puts something in place of what is registered under a number. -/
def replace (r : Registry α) (number : Nat) (a : α) : Registry α :=
  { r with entries := r.entries.map fun e => if e.1 = number then (number, a) else e }

/-- Makes what has a number active, if it is registered. -/
def activate? (r : Registry α) (number : Nat) : Option (Registry α) :=
  (r.get? number).map fun _ => { r with active := some number }

/-- Takes out what has a number, or what is active if no number is given, and tells its number. The
latest one that is left becomes active. -/
def delete? (r : Registry α) (number : Option Nat) : Option (Nat × Registry α) := do
  let number ← number.or r.active
  let _ ← r.get? number
  let entries := r.entries.filter fun e => e.1 != number
  return (number, { r with entries, active := (entries.getLast?).map Prod.fst })

end Registry

end CppReflect
