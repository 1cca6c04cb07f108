import CppReflect.Model.Print

/-!
# Trampolines

A trampoline is a C++ function of a fixed signature that unpacks an array of argument cells, calls
one particular function with them and stores the result. Destroying objects has a trampoline of its
own. A trampoline is kept here as its clauses, blocks and calls; `Wrapper.render` writes it out.

A call trampoline has one clause for each number of arguments that the function accepts. A clause
runs blocks under conditions on the pointers that were passed, and each block declares the typedefs
that its call expression needs.
-/

namespace CppReflect

namespace Trampoline

/-- What is taken off a type before it is spelled. -/
inductive Indirection where
  | none
  | pointer
  | lvalueReference
  | rvalueReference
deriving DecidableEq, Inhabited, Repr

/-- A type as it is spelled in a trampoline: a name for what is left of the type once one pointer
or reference is taken off. -/
structure Operand where
  name : String
  indirection : Indirection
deriving DecidableEq, Inhabited, Repr

/-- An argument of a call: the cell it is read from, and the type it is read as. -/
structure Cell where
  index : Nat
  operand : Operand
deriving DecidableEq, Inhabited, Repr

/-- The expression that reads an argument. -/
def Cell.text (c : Cell) : String :=
  let name := c.operand.name
  let place := "args[" ++ toString c.index ++ "]"
  match c.operand.indirection with
  | .none => "*(" ++ name ++ "*)" ++ place
  | .pointer => "*(" ++ name ++ "**)" ++ place
  | .lvalueReference => "(" ++ name ++ "&)*(" ++ name ++ "*)" ++ place
  | .rvalueReference => "(" ++ name ++ "&&)*(" ++ name ++ "*)" ++ place

/-- A typedef that gives a name to a type whose declarator cannot be written inline. -/
structure AuxTypedef where
  name : String
  type : TypeId
deriving DecidableEq, Inhabited, Repr

/-- The exact type of a function, which picks one out of several overloads. -/
structure Signature where
  ret : String
  params : List String
  variadic : Bool
deriving DecidableEq, Inhabited, Repr

/-- A call expression. The path in front of the arguments is a function behind its object or scope,
or a new-expression. -/
structure Call where
  cast : Option Signature
  path : String
  args : List Cell
deriving DecidableEq, Inhabited, Repr

/-- Typedefs, a statement around a call, and the lines behind it, each with the depth to which it
is indented in the block. -/
structure Block where
  typedefs : List AuxTypedef
  before : String
  call : Call
  after : String
  tail : List (Nat × String)
deriving DecidableEq, Inhabited, Repr

/-- What a clause runs: one block, or blocks in braces, each behind a condition. -/
inductive Body where
  | plain (block : Block)
  | guarded (blocks : List (String × Block))
deriving DecidableEq, Inhabited, Repr

/-- The blocks of a body. -/
def Body.blocks : Body → List Block
  | .plain b => [b]
  | .guarded bs => bs.map Prod.snd

/-- A clause runs for one number of arguments, or for any if it stands alone. -/
structure Clause where
  count : Option Nat
  body : Body
deriving DecidableEq, Inhabited, Repr

/-- The clause runs when `n` arguments are passed. -/
def Clause.runsFor (c : Clause) (n : Nat) : Bool :=
  match c.count with
  | none => true
  | some k => k == n

/-- A call trampoline. -/
structure Wrapper where
  symbol : String
  clauses : List Clause
deriving DecidableEq, Inhabited, Repr

/-- A destructor trampoline. -/
structure Destroyer where
  symbol : String
  className : String
deriving DecidableEq, Inhabited, Repr

/-! ## Text -/

/-- The blanks in front of a line. -/
def indentation (level : Nat) : String := String.join (List.replicate level "   ")

/-- An indented line. -/
def line (level : Nat) (text : String) : String := indentation level ++ text ++ "\n"

/-- What stands in front of an item of a list: two items share a line. -/
def separator (level index : Nat) : String :=
  if index = 0 then ""
  else if index % 2 = 1 then ", "
  else ",\n" ++ indentation (level + 1)

/-- The items of a list, two on a line. -/
def spread (level : Nat) (items : List String) : String :=
  String.join (items.zipIdx.map fun (item, i) => separator level i ++ item)

/-- The cast to an exact function type. -/
def Signature.render (level : Nat) (s : Signature) : String :=
  "(" ++ s.ret ++ " (&)(" ++ spread level s.params ++
    (if s.variadic then if s.params.isEmpty then "..." else ", ..." else "") ++ "))"

/-- The call expression. -/
def Call.render (level : Nat) (c : Call) : String :=
  let path :=
    match c.cast with
    | some signature => "(" ++ signature.render level ++ c.path ++ ")"
    | none => c.path
  path ++ "(" ++ spread level (c.args.map Cell.text) ++ ")"

/-- The declaration of a typedef. -/
def AuxTypedef.render (m : Model) (level : Nat) (d : AuxTypedef) : String :=
  line level ("typedef " ++ m.printType d.type d.name ++ ";")

/-- The lines of a block. -/
def Block.render (m : Model) (level : Nat) (b : Block) : String :=
  String.join (b.typedefs.map (AuxTypedef.render m level)) ++
    line level (b.before ++ b.call.render level ++ b.after) ++
    String.join (b.tail.map fun (depth, text) => line (level + depth) text)

/-- The lines of a body. -/
def Body.render (m : Model) (level : Nat) : Body → String
  | .plain b => b.render m level
  | .guarded blocks =>
    String.join <| blocks.map fun (condition, b) =>
      line level (condition ++ " \x7b") ++ b.render m (level + 1) ++ line level "\x7d"

/-- The lines of a clause. -/
def Clause.render (m : Model) (c : Clause) : String :=
  match c.count with
  | none => c.body.render m 1
  | some n =>
    line 1 ("if (nargs == " ++ toString n ++ ") \x7b") ++ c.body.render m 2 ++ line 1 "\x7d"

/-- The attributes and the linkage of every trampoline. -/
def linkage : String := "__attribute__((used)) extern \"C\" void "

/-- The source of a call trampoline. -/
def Wrapper.render (m : Model) (w : Wrapper) : String :=
  "#include <new>\n" ++
  "#pragma clang diagnostic push\n" ++
  "#pragma clang diagnostic ignored \"-Wformat-security\"\n" ++
  linkage ++ w.symbol ++ "(void* obj, int nargs, void** args, void* ret)\n\x7b\n" ++
  String.join (w.clauses.map (Clause.render m)) ++
  "\x7d\n#pragma clang diagnostic pop\n"

/-- The source of a destructor trampoline. -/
def Destroyer.render (d : Destroyer) : String :=
  linkage ++ d.symbol ++ "(void* obj, unsigned long nary, int withFree)\n\x7b\n" ++
  String.join (List.map (fun (level, text) => line level text) [
    (1, "if (withFree) \x7b"),
    (2, "if (!nary) \x7b"),
    (3, "delete (" ++ d.className ++ "*) obj;"),
    (2, "\x7d"),
    (2, "else \x7b"),
    (3, "delete[] (" ++ d.className ++ "*) obj;"),
    (2, "\x7d"),
    (1, "\x7d"),
    (1, "else \x7b"),
    (2, "typedef " ++ d.className ++ " Nm;"),
    (2, "if (!nary) \x7b"),
    (3, "((Nm*)obj)->~Nm();"),
    (2, "\x7d"),
    (2, "else \x7b"),
    (3, "do \x7b"),
    (4, "(((Nm*)obj)+(--nary))->~Nm();"),
    (3, "\x7d while (nary);"),
    (2, "\x7d"),
    (1, "\x7d")]) ++
  "\x7d\n"

end Trampoline

end CppReflect
