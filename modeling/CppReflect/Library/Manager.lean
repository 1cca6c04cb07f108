import CppReflect.Library.Magic
import CppReflect.Library.PathList

/-!
# Finding and loading libraries

A manager holds the directories in which libraries are searched and the libraries that are loaded.
A library is asked for by a stem: a path, or a name that the conventions of the platform complete
with a prefix and an extension. Which candidate is taken is decided by the order of the directories
and by what the first bytes of a file say.
-/

namespace CppReflect

/-- The conventions of a platform for libraries. -/
inductive Flavor where
  | elf
  | machO
  | coff
deriving DecidableEq, Inhabited, Repr

namespace Flavor

/-- A file with these first bytes is a shared library of the platform. -/
def accepts (f : Flavor) (header : List UInt8) : Bool :=
  match f, FileMagic.identify header with
  | .elf, .elfSharedObject => true
  | .machO, .machOFixedVirtualMemorySharedLib
  | .machO, .machODynamicallyLinkedSharedLib
  | .machO, .machODynamicallyLinkedSharedLibStub
  | .machO, .machOUniversalBinary => true
  | .coff, .peCoffExecutable => FileMagic.isDll header
  | _, _ => false

/-- The extensions of libraries, in the order in which they are tried. -/
def extensions : Flavor → List String
  | .elf => [".so"]
  | .machO => [".so", ".dylib"]
  | .coff => [".dll"]

end Flavor

/-- What a machine offers: its files, the environment's libraries that can be opened, and the path
of the running program. -/
structure Machine where
  files : FileTree := .empty
  opens : String → Bool := fun _ => false
  program : String := ""
deriving Inhabited

namespace Machine

/-- The first bytes of the file that a path leads to. -/
def header? (m : Machine) (path : String) : Option (List UInt8) :=
  (m.files.content? path).map fun bytes => bytes.take FileMagic.probeLength

/-- Whether a path leads to a shared library, and whether it leads to anything. -/
def probe (m : Machine) (f : Flavor) (path : String) : Bool × Bool :=
  match m.header? path with
  | some header => (f.accepts header, true)
  | none => (false, m.files.pathExists path)

/-- The path leads to a shared library. -/
def isSharedLibrary (m : Machine) (f : Flavor) (path : String) : Bool := (m.probe f path).1

end Machine

/-- A directory in which libraries are searched. -/
structure SearchPath where
  path : String
  /-- It was not set up by the system. -/
  isUser : Bool
deriving DecidableEq, Inhabited, Repr

/-- A library that is loaded. -/
structure LoadedLibrary where
  path : String
  /-- It is never unloaded. -/
  permanent : Bool
deriving DecidableEq, Inhabited, Repr

/-- The libraries of a session and where they are searched. -/
structure LibraryManager where
  flavor : Flavor := .elf
  searchPaths : List SearchPath := []
  /-- The loaded libraries, the first one first. -/
  loaded : List LoadedLibrary := []
deriving DecidableEq, Inhabited, Repr

/-- Where and for whom a library is looked up. -/
structure LookupContext where
  /-- Directories that come before the search paths. -/
  rpath : List String := []
  /-- Directories that come after the search paths. -/
  runpath : List String := []
  /-- The library or program that asks. -/
  loader : String := ""
deriving DecidableEq, Inhabited, Repr

/-- Why a library cannot be loaded. -/
inductive LoadError where
  | notFound (stem : String)
  | cannotOpen (path : String)
  /-- A stem would have to be split inside a character. -/
  | splitInsideCharacter (stem : String)
deriving DecidableEq, Inhabited, Repr

namespace LoadError

/-- The text of the error. -/
def message : LoadError → String
  | .notFound stem => "cannot find library \x60" ++ stem ++ "\x60"
  | .cannotOpen path => "cannot open library \x60" ++ path ++ "\x60"
  | .splitInsideCharacter stem => "\x60" ++ stem ++ "\x60 cannot be split"

end LoadError

namespace LibraryManager

/-- Adds a directory, unless it is there or empty. -/
def addSearchPath (l : LibraryManager) (dir : String) (isUser prepend : Bool) : LibraryManager :=
  if dir.isEmpty || l.searchPaths.any fun s => s.path == dir then l
  else if prepend then { l with searchPaths := ⟨dir, isUser⟩ :: l.searchPaths }
  else { l with searchPaths := l.searchPaths ++ [⟨dir, isUser⟩] }

/-! ## Variables of linkers -/

/-- What follows `start`, if the text begins with it up to the case of ASCII letters. -/
def afterIgnoringCase? : List Char → List Char → Option (List Char)
  | [], cs => some cs
  | _ :: _, [] => none
  | s :: start, c :: cs =>
    if s.toLower = c.toLower then afterIgnoringCase? start cs else none

/-- Replaces a pattern that a text begins with, up to the case of ASCII letters. -/
def substituteFront (text pattern replacement : String) : String :=
  match afterIgnoringCase? pattern.toList text.toList with
  | some rest => replacement ++ String.ofList rest
  | none => text

/-- The text begins with a pattern, up to the case of ASCII letters. -/
def startsIgnoringCase (pattern text : String) : Bool :=
  (afterIgnoringCase? pattern.toList text.toList).isSome

/-- Replaces the variables of the platform's linker that a path begins with: the directory of the
running program, and that of the asking library. -/
def substitute (l : LibraryManager) (m : Machine) (path loader : String) : String :=
  let programDir := Path.parent m.program
  let loaderDir := if loader.isEmpty then programDir else Path.parent loader
  match l.flavor with
  | .machO =>
    substituteFront (substituteFront path "@executable_path" programDir) "@loader_path" loaderDir
  | .elf | .coff => substituteFront path "$origin" loaderDir

/-! ## Looking up -/

/-- The directories that a stem is looked for in, in this order. -/
def directories (l : LibraryManager) (m : Machine) (c : LookupContext) : List String :=
  c.rpath.map (l.substitute m · c.loader) ++
    l.searchPaths.map SearchPath.path ++
    c.runpath.map (l.substitute m · c.loader)

/-- The first directory's candidate that is a shared library. -/
def findInPaths? (l : LibraryManager) (m : Machine) (c : LookupContext) (stem : String) :
    Option String :=
  ((l.directories m c).map (Path.join · stem)).find? (m.isSharedLibrary l.flavor)

/-- The candidate for a stem, or else for the stem with one of the extensions, by its real path. -/
def findWithExtension? (l : LibraryManager) (m : Machine) (c : LookupContext) (stem : String) :
    Option String :=
  let stems := stem :: l.flavor.extensions.map (stem ++ ·)
  (stems.findSome? (l.findInPaths? m c)).map fun path => (m.files.realPath? path).getD path

/-- Splits a text behind a number of bytes, unless that is inside a character. -/
def splitAtByte? : Nat → List Char → Option (List Char × List Char)
  | 0, cs => some ([], cs)
  | _ + 1, [] => none
  | n + 1, c :: cs =>
    if c.utf8Size ≤ n + 1 then
      (splitAtByte? (n + 1 - c.utf8Size) cs).map fun (before, behind) => (c :: before, behind)
    else none
termination_by _ cs => cs

/-- The stem with `lib` in front of what is as long as its last component; a stem whose last
component starts so has no such variant. -/
def prefixedStem? (stem : String) : Except LoadError (Option String) :=
  let name := (Path.fileName? stem).getD ""
  if Text.startsWith "lib" name then .ok none
  else
    match splitAtByte? (stem.utf8ByteSize - name.utf8ByteSize) stem.toList with
    | some (before, behind) => .ok (some (String.ofList before ++ "lib" ++ String.ofList behind))
    | none => .error (.splitInsideCharacter stem)

/-- The candidate for a stem or for its variants. -/
def findVariant? (l : LibraryManager) (m : Machine) (c : LookupContext) (stem : String) :
    Except LoadError (Option String) :=
  match l.findWithExtension? m c stem with
  | some path => .ok (some path)
  | none => (prefixedStem? stem).map fun variant => variant.bind (l.findWithExtension? m c)

/-- The candidates for a relative stem that need no directory: the stem with the linker's variables
replaced, or with each of the directories in place of the variable for them. -/
def directCandidates (l : LibraryManager) (m : Machine) (c : LookupContext) (stem : String) :
    List String :=
  if l.flavor = .machO ∧ startsIgnoringCase "@rpath" stem then
    c.rpath.map (substituteFront stem "@rpath" ·)
  else [l.substitute m stem c.loader]

/-- The real path of the library that a stem means. -/
def lookup (l : LibraryManager) (m : Machine) (c : LookupContext) (stem : String)
    (variants : Bool) : Except LoadError (Option String) :=
  if Path.isAbsolute stem then
    .ok (if m.isSharedLibrary l.flavor stem then m.files.realPath? stem else none)
  else
    match (l.directCandidates m c stem).find? (m.isSharedLibrary l.flavor) with
    | some candidate => .ok (m.files.realPath? candidate)
    | none =>
      let found := if variants then l.findVariant? m c stem else .ok (l.findInPaths? m c stem)
      found.map fun path => path.bind m.files.realPath?

/-- The real path of the library that a stem or one of its variants means. -/
def find (l : LibraryManager) (m : Machine) (stem : String) : Except LoadError (Option String) :=
  l.lookup m {} stem true

/-! ## Loading -/

/-- The library is loaded. -/
def holds (l : LibraryManager) (path : String) : Bool := l.loaded.any fun lib => lib.path == path

/-- The library can be opened. The empty path opens the running program. -/
def canOpen (m : Machine) (path : String) : Bool := path.isEmpty || m.opens path

/-- Loads a library by its real path, and tells whether it was not loaded before. -/
def loadResolved (l : LibraryManager) (m : Machine) (path : String) (permanent : Bool) :
    Except LoadError (Bool × LibraryManager) :=
  if l.holds path then .ok (false, l)
  else if canOpen m path then .ok (true, { l with loaded := l.loaded ++ [⟨path, permanent⟩] })
  else .error (.cannotOpen path)

/-- Loads the library that a stem means, and tells whether it was not loaded before. -/
def load (l : LibraryManager) (m : Machine) (stem : String) (permanent : Bool) :
    Except LoadError (Bool × LibraryManager) := do
  match ← l.find m stem with
  | some path => l.loadResolved m path permanent
  | none => .error (.notFound stem)

/-- How an attempt to load a library ended. -/
inductive LoadOutcome where
  | success
  | alreadyLoaded
  | notFound
  | loadError
deriving DecidableEq, Inhabited, Repr

/-- How an attempt ended, and the manager behind it. -/
def LoadOutcome.ofAttempt (l : LibraryManager) :
    Except LoadError (Bool × LibraryManager) → LoadOutcome × LibraryManager
  | .ok (true, l) => (.success, l)
  | .ok (false, l) => (.alreadyLoaded, l)
  | .error (.notFound _) => (.notFound, l)
  | .error _ => (.loadError, l)

/-- The library that a path leads to is loaded. -/
def isLoaded (l : LibraryManager) (m : Machine) (path : String) : Bool :=
  (m.files.existingPath? path).any l.holds

/-- Unloads the library that a stem means, unless it is permanent. -/
def unload (l : LibraryManager) (m : Machine) (stem : String) :
    Except LoadError LibraryManager := do
  match ← l.find m stem with
  | none => return l
  | some path =>
    return { l with loaded := l.loaded.filter fun lib => lib.permanent || lib.path != path }

/-- The search paths, one on a line. -/
def dump (l : LibraryManager) : String :=
  String.join <| l.searchPaths.map fun s =>
    (if s.isUser then "" else "[system] ") ++ s.path ++ "\n"

end LibraryManager

end CppReflect
