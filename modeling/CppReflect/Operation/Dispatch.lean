import CppReflect.Operation.Table

/-!
# Dispatch tables

A program that uses the operations of a library keeps a slot for each of them, which is filled if
the library has an entry point of that name. The library itself is opened once, on first use.
-/

namespace CppReflect

/-- For each operation whether its slot is filled. -/
structure DispatchTable where
  slots : List (String × Bool)
deriving DecidableEq, Inhabited, Repr

namespace DispatchTable

/-- The slots of a table that are filled by what has entry points. -/
def populate (resolves : String → Bool) : DispatchTable :=
  ⟨Operation.names.map fun name => (name, resolves name)⟩

/-- A table without a filled slot. -/
def empty : DispatchTable := populate fun _ => false

/-- The slot of a name is filled. -/
def isResolved (t : DispatchTable) (name : String) : Bool := (t.slots.lookup name).getD false

/-- The number of filled slots. -/
def resolvedCount (t : DispatchTable) : Nat := t.slots.countP Prod.snd

/-- The names of the operations whose slots are not filled. -/
def missing (t : DispatchTable) : List String :=
  (t.slots.filter fun s => !s.2).map Prod.fst

/-- The operations that are needed to have an interpreter are there. -/
def hasCritical (t : DispatchTable) : Bool := Operation.critical.all t.isResolved

/-- What the table says of itself. -/
def description (t : DispatchTable) : String :=
  "DispatchTable \x7b resolved: " ++ toString t.resolvedCount ++ ", missing: " ++
    toString t.missing.length ++ " \x7d"

end DispatchTable

/-- The library of the operations, which is opened when the first entry point is asked for. -/
structure Loader where
  /-- What came of opening it, once it was tried: the path of the open library. -/
  attempt : Option (Option String) := none
deriving DecidableEq, Inhabited, Repr

namespace Loader

/-- The path of the library, once it is open. -/
def libraryPath? (l : Loader) : Option String := l.attempt.join

/-- Opens the library, unless that was tried before. -/
def ensure (l : Loader) (m : Machine) (config : Config) (wanted : Option String) : Loader :=
  match l.attempt with
  | some _ => l
  | none =>
    let path := config.libraryToOpen wanted
    ⟨some (if m.opens path then some path else none)⟩

/-- Whether the library has an entry point of a name, and the loader that has tried to open it. -/
def resolves (l : Loader) (m : Machine) (config : Config) (wanted : Option String)
    (name : String) : Bool × Loader :=
  let l := l.ensure m config wanted
  (l.libraryPath?.isSome && (Operation.named? name).isSome, l)

end Loader

end CppReflect
