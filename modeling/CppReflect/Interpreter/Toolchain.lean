import CppReflect.Config
import CppReflect.Interpreter.Error
import CppReflect.Interpreter.Host
import CppReflect.Text.Sha1
import CppReflect.Text.Utf8

/-!
# The compiler driver

How a compiler driver is asked: to check a source, to dump its syntax tree, to compile it into a
library, and for the directories it knows of. A library is named after what goes into it, so that
the same inputs are compiled once.
-/

namespace CppReflect

/-- A computation that asks programs of the host and may fail. -/
abbrev HostM := ExceptT CompilerError (StateM Host)

/-- A compiler driver and what every run of it is told. -/
structure Toolchain where
  driver : String
  demangler : String
  /-- The driver can dump syntax trees. -/
  isClang : Bool
  standard : String
  flags : List String
  includePaths : List String := []
deriving DecidableEq, Inhabited, Repr

namespace Toolchain

/-- The directories in the report of a driver: they stand on lines of their own between two
marks. -/
def includeSearchList (report : String) : List String :=
  let marked := (Text.lines report).dropWhile fun l =>
    !Text.startsWith "#include <...> search starts here:" l
  let listed := (marked.drop 1).takeWhile fun l => !Text.startsWith "End of search list." l
  let cleaned := listed.map fun l =>
    String.ofList (dropEnding " (framework directory)".toList (Text.trim l.toList))
  cleaned.filter fun l => !l.isEmpty
where
  /-- The text without the ending, however often it stands there. -/
  dropEnding (ending cs : List Char) : List Char :=
    (dropStart ending.reverse cs.length cs.reverse).reverse
  /-- The text without the start, for at most `fuel` times that it stands there. -/
  dropStart (start : List Char) : Nat → List Char → List Char
    | 0, cs => cs
    | fuel + 1, cs =>
      match Text.afterStart? start cs with
      | some rest => dropStart start fuel rest
      | none => cs

/-- A driver whose version mentions the compiler that can dump syntax trees. -/
def reportsClang (driver : String) : StateM Host Bool := do
  match ← Host.run driver ["--version"] with
  | some output => return Text.contains "clang" (Config.lowerAscii (output.stdout ++ output.stderr))
  | none => return false

/-- A driver with the arguments of an interpreter. One that sets the language standard replaces the
configured one. -/
def start (config : ToolchainConfig) (args : List String) : StateM Host Toolchain := do
  let isClang ← reportsClang config.driver
  let isStandard := Text.startsWith "-std="
  return {
    driver := config.driver
    demangler := config.demangler
    isClang
    standard := ((args.filter isStandard).getLast?).getD config.standard
    flags := config.flags ++ args.filter fun a => !isStandard a }

/-- Adds an include directory, unless it is there. -/
def addIncludePath (t : Toolchain) (dir : String) : Toolchain :=
  if t.includePaths.contains dir then t else { t with includePaths := t.includePaths ++ [dir] }

/-- The arguments of every compilation. -/
def commonArgs (t : Toolchain) : List String :=
  t.standard :: t.flags ++ t.includePaths.map ("-I" ++ ·)

/-- Runs the driver; what it says when it fails are the diagnostics. -/
def run (t : Toolchain) (args : List String) : HostM ProgramOutput := do
  match ← Host.run t.driver args with
  | none => throw (.spawn t.driver)
  | some output =>
    if output.succeeded then return output else throw (.compile output.stderr)

/-- Checks a source without generating code. -/
def check (t : Toolchain) (path : String) : HostM Unit := do
  let _ ← t.run (["-fsyntax-only", "-x", "c++"] ++ t.commonArgs ++ [path])

/-- The syntax tree of a source. -/
def syntaxTree (t : Toolchain) (path : String) : HostM String := do
  if !t.isClang then throw (.unsupported ("\x60" ++ t.driver ++ "\x60 cannot dump its AST"))
  let output ← t.run
    (["-fsyntax-only", "-x", "c++", "-Xclang", "-ast-dump=json"] ++ t.commonArgs ++ [path])
  return output.stdout

/-- A name for what is compiled: twelve digits of the digest of the source and the arguments, which
zeros set apart. -/
def fingerprint (source : String) (args : List String) : String :=
  let message := source.toUTF8.toList ++ args.flatMap fun a => 0 :: a.toUTF8.toList
  String.ofList ((Sha1.digest message).text.toList.take 12)

/-- Compiles a source into a library and tells its path. A library that is there already is not
compiled again. -/
def compileShared (t : Toolchain) (stem source : String) (extra : List String) : HostM String := do
  let args := ["-shared", "-fPIC"] ++ t.commonArgs ++ extra
  let tag := fingerprint source args
  let h ← get
  let output := Path.join h.workDirectory ("lib" ++ stem ++ "-" ++ tag ++ ".so")
  if h.machine.files.pathExists output then return output
  let input ← Host.write (stem ++ "-" ++ tag ++ ".cpp") source
  let _ ← t.run (args ++ ["-x", "c++", input, "-o", output])
  return output

/-- The resource directory that a compiler tells; empty if it tells none. -/
def detectResourceDir (compiler : String) : StateM Host String := do
  match ← Host.run compiler ["-print-resource-dir"] with
  | some output => return if output.succeeded then Text.trimmed output.stdout else ""
  | none => return ""

/-- The include directories that a compiler tells. -/
def detectIncludePaths (compiler : String) : StateM Host (List String) := do
  match ← Host.run compiler ["-xc++", "-E", "-v", "/dev/null"] with
  | some output => return includeSearchList output.stderr
  | none => return []

/-- The resource directory of the driver. -/
def resourceDir (t : Toolchain) : StateM Host String :=
  if t.isClang then detectResourceDir t.driver else return ""

/-- The name behind a mangled one, which stays as it is if the demangler cannot tell. -/
def demangle (t : Toolchain) (mangled : String) : StateM Host String := do
  match ← Host.run t.demangler [mangled] with
  | some output =>
    let text := Text.trimmed output.stdout
    return if output.succeeded && !text.isEmpty then text else mangled
  | none => return mangled

end Toolchain

end CppReflect
