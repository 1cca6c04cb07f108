import CppReflect.Json.Basic

/-!
# Configuration

The settings of a session: defaults, laid over by a configuration document, laid over by
environment variables. A variable that is not set, or whose value cannot be used, leaves its setting
alone.
-/

namespace CppReflect

/-- How the compiler driver is run. -/
structure ToolchainConfig where
  driver : String := "clang++"
  standard : String := "-std=c++14"
  flags : List String := ["-O0"]
  demangler : String := "c++filt"
  keepArtifacts : Bool := false
deriving DecidableEq, Inhabited, Repr

/-- The settings of a session. -/
structure Config where
  /-- The library that implements the operations. -/
  libraryPath : Option String := none
  /-- Arguments that every interpreter is started with. -/
  extraInterpreterArgs : List String := []
  debugOutput : Bool := false
  toolchain : ToolchainConfig := {}
  /-- The number of kept trampolines from which on a warning is due. -/
  cacheWarnThreshold : Nat := 4096
deriving DecidableEq, Inhabited, Repr

namespace Config

/-- A table of environment variables. -/
abbrev Environment := List (String × String)

/-- The arguments in a text, which blanks separate. -/
def splitArgs (text : String) : List String := Text.words text

/-- A letter of ASCII in lower case; any other character as it is. -/
def lowerAscii (s : String) : String := String.ofList (s.toList.map Char.toLower)

/-- The text says that something is switched on. -/
def readFlag (text : String) : Bool :=
  ["1", "true", "yes", "on"].contains (lowerAscii (Text.trimmed text))

/-- A whole number of 64 bits in decimal digits, with an optional plus sign. -/
def readCount? (text : String) : Option Nat :=
  let digits :=
    match text.toList with
    | '+' :: rest => rest
    | cs => cs
  if digits.isEmpty || digits.any (fun c => !c.isDigit) then none
  else
    let n := Number.natOfDigits digits
    if n < UInt64.size then some n else none

/-- The value of a variable, unless it is empty. -/
def nonempty? (env : Environment) (name : String) : Option String :=
  (env.lookup name).filter fun v => !v.isEmpty

/-- The settings with those that environment variables give. -/
def withEnvironment (c : Config) (env : Environment) : Config :=
  let toolchain := {
    c.toolchain with
    driver := (nonempty? env "CPPINTEROP_CXX").getD c.toolchain.driver
    flags := ((env.lookup "CPPINTEROP_CXXFLAGS").map splitArgs).getD c.toolchain.flags }
  { libraryPath := (nonempty? env "CPPINTEROP_LIBRARY_PATH").or c.libraryPath
    extraInterpreterArgs :=
      ((env.lookup "CPPINTEROP_EXTRA_INTERPRETER_ARGS").map splitArgs).getD c.extraInterpreterArgs
    debugOutput := ((env.lookup "CPPINTEROP_DEBUG").map readFlag).getD c.debugOutput
    toolchain
    cacheWarnThreshold :=
      ((env.lookup "CPPINTEROP_WRAPPER_CACHE_WARN").bind readCount?).getD c.cacheWarnThreshold }

/-- The default settings with those that environment variables give. -/
def ofEnvironment (env : Environment) : Config := withEnvironment {} env

/-- Why a configuration file cannot be read. -/
inductive FileError where
  /-- The format of configuration files is not built in. -/
  | formatNotSupported
deriving DecidableEq, Repr

/-- The text of the error. -/
def FileError.message : FileError → String
  | .formatNotSupported => "TOML support not enabled. Enable the 'toml-config' feature."

/-- The settings in a configuration file, whose format is not built in. -/
def ofFile (_path : String) : Except FileError Config := .error .formatNotSupported

/-- The library to open: the one asked for, or else the one that is set, or else the one of the
default name. -/
def libraryToOpen (c : Config) (wanted : Option String) : String :=
  match wanted.filter fun p => !p.isEmpty with
  | some path => path
  | none => c.libraryPath.getD "libcppinterop.so"

/-! ## Documents -/

/-- Reads a setting of a document; one that is missing has its default. -/
def setting? {α : Type} (fields : List (String × Json)) (key : String) (standard : α)
    (read : Json → Option α) : Option α :=
  match fields.lookup key with
  | some v => read v
  | none => some standard

/-- The fields of a section: those of an object, or the items of an array in the order of `keys`. -/
def sectionFields? (keys : List String) : Json → Option (List (String × Json))
  | .obj fields => some fields
  | .arr items => if items.length ≤ keys.length then some (keys.zip items) else none
  | _ => none

/-- Reads a list of texts. -/
def texts? (v : Json) : Option (List String) := v.items?.bind fun vs => vs.mapM Json.str?

/-- Reads the settings of the compiler driver. -/
def toolchainOfJson? (v : Json) : Option ToolchainConfig := do
  let standard : ToolchainConfig := {}
  let fields ← sectionFields? ["driver", "std", "flags", "demangler", "keep_artifacts"] v
  return {
    driver := ← setting? fields "driver" standard.driver Json.str?
    standard := ← setting? fields "std" standard.standard Json.str?
    flags := ← setting? fields "flags" standard.flags texts?
    demangler := ← setting? fields "demangler" standard.demangler Json.str?
    keepArtifacts := ← setting? fields "keep_artifacts" standard.keepArtifacts Json.bool? }

/-- Reads the settings of trampolines, of which there is one. -/
def thresholdOfJson? (v : Json) : Option Nat := do
  let fields ← sectionFields? ["cache_warn_threshold"] v
  setting? fields "cache_warn_threshold" 4096 Json.nat?

/-- Reads a text or its absence. -/
def optionalText? : Json → Option (Option String)
  | .null => some none
  | .str s => some (some s)
  | _ => none

/-- Reads the settings in a document. One setting of a wrong type spoils the document. -/
def ofJson? (v : Json) : Option Config := do
  let standard : Config := {}
  let fields ← sectionFields?
    ["library_path", "extra_interpreter_args", "debug_output", "toolchain", "wrappers"] v
  return {
    libraryPath := ← setting? fields "library_path" standard.libraryPath optionalText?
    extraInterpreterArgs :=
      ← setting? fields "extra_interpreter_args" standard.extraInterpreterArgs texts?
    debugOutput := ← setting? fields "debug_output" standard.debugOutput Json.bool?
    toolchain := ← setting? fields "toolchain" standard.toolchain toolchainOfJson?
    cacheWarnThreshold :=
      ← setting? fields "wrappers" standard.cacheWarnThreshold thresholdOfJson? }

/-- The settings as a document. -/
def toJson (c : Config) : Json :=
  .obj [
    ("library_path", (c.libraryPath.map Json.str).getD .null),
    ("extra_interpreter_args", .arr (c.extraInterpreterArgs.map Json.str)),
    ("debug_output", .bool c.debugOutput),
    ("toolchain", .obj [
      ("driver", .str c.toolchain.driver),
      ("std", .str c.toolchain.standard),
      ("flags", .arr (c.toolchain.flags.map Json.str)),
      ("demangler", .str c.toolchain.demangler),
      ("keep_artifacts", .bool c.toolchain.keepArtifacts)]),
    ("wrappers", .obj [("cache_warn_threshold", .int c.cacheWarnThreshold)])]

end Config

end CppReflect
