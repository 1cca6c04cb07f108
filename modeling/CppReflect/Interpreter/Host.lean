import CppReflect.Library.Manager

/-!
# The host of a session

What a session finds around it: the files and libraries of the machine, a directory to work in, and
programs that can be run. A program is given by the answers that it is going to give.
-/

namespace CppReflect

/-- What a program leaves behind. -/
structure ProgramOutput where
  status : Nat := 0
  stdout : String := ""
  stderr : String := ""
deriving DecidableEq, Inhabited, Repr

namespace ProgramOutput

/-- The program has ended well. -/
def succeeded (o : ProgramOutput) : Bool := o.status == 0

end ProgramOutput

/-- A run of the compiler: its arguments, and the source that the first of them to end like the name
of a source file names. -/
structure Invocation where
  args : List String
  source : Option String
deriving DecidableEq, Inhabited, Repr

/-- A compiler, which is also a demangler, by its answers. Questions about itself have fixed answers;
every other run takes the next reply. -/
structure ScriptedCompiler where
  name : String
  version : String := ""
  resourceDir : Option String := none
  /-- What is said on a run that lists the include directories. -/
  verbose : String := ""
  demangled : Option String := none
  replies : List ProgramOutput := []
  /-- The runs that took a reply, the first one first. -/
  invocations : List Invocation := []
deriving DecidableEq, Inhabited, Repr

namespace ScriptedCompiler

/-- The reply to a run that no reply is left for. -/
def noReply : ProgramOutput := { status := 1, stderr := "error: no reply" }

/-- The answer with a text, which fails if there is none. -/
def printing : Option String → ProgramOutput
  | some text => { stdout := text }
  | none => { status := 1 }

/-- Runs the compiler on arguments that name a source. -/
def run (s : ScriptedCompiler) (args : List String) (source : Option String) :
    ProgramOutput × ScriptedCompiler :=
  let first := args.headD ""
  if first = "--version" then ({ stdout := s.version }, s)
  else if first = "-print-resource-dir" then (printing s.resourceDir, s)
  else if first = "-xc++" then ({ stderr := s.verbose }, s)
  else if Text.startsWith "_Z" first then (printing s.demangled, s)
  else
    (s.replies.headD noReply,
      { s with replies := s.replies.tail, invocations := s.invocations ++ [{ args, source }] })

end ScriptedCompiler

/-- What a session finds around it. -/
structure Host where
  machine : Machine := {}
  workDirectory : String := ""
  /-- The sources written so far, the latest first. -/
  sources : List (String × String) := []
  compiler : Option ScriptedCompiler := none
deriving Inhabited

namespace Host

/-- Writes a file into the working directory and tells its path. -/
def write (name text : String) : StateM Host String :=
  modifyGet fun h =>
    let path := Path.join h.workDirectory name
    (path, { h with sources := (path, text) :: h.sources })

/-- The number of bytes that an argument must stay below. -/
def argumentLimit : Nat := 131072

/-- A program can be started with the argument, which has no zero character in it and is not too
long. -/
def isPassable (arg : String) : Bool :=
  arg.utf8ByteSize < argumentLimit && arg.toList.all (·.toNat != 0)

/-- Runs a program; `none` if it cannot be started. -/
def run (program : String) (args : List String) : StateM Host (Option ProgramOutput) :=
  modifyGet fun h =>
    match h.compiler with
    | some compiler =>
      if compiler.name = program ∧ args.all isPassable then
        let source := (args.find? (Text.endsWith ".cpp")).bind fun a => h.sources.lookup a
        let (output, compiler) := compiler.run args source
        (some output, { h with compiler := some compiler })
      else (none, h)
    | none => (none, h)

/-- Takes the runs that were noted so far. -/
def takeInvocations : StateM Host (List Invocation) :=
  modifyGet fun h =>
    match h.compiler with
    | some compiler =>
      (compiler.invocations, { h with compiler := some { compiler with invocations := [] } })
    | none => ([], h)

end Host

end CppReflect
