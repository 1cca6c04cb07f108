import CppReflect.Library.Path

/-!
# File trees

A file tree holds files, directories and symbolic links at paths from the root. A path is resolved
component by component, following links, until it names a file or directory by its real path. A
path of any length can be resolved to a real path, but only a short one can be looked up as a whole.
-/

namespace CppReflect

/-- The real path of a file or directory: its components from the root. -/
abbrev RealPath := List (List Char)

/-- What a real path can name. -/
inductive FileEntry where
  | file (bytes : List UInt8)
  | directory
  | link (target : List Char)
deriving DecidableEq, Inhabited, Repr

/-- Files, directories and links, and the directory that relative paths start from. The root is a
directory without an entry of its own. -/
structure FileTree where
  entries : List (RealPath × FileEntry) := []
  workingDirectory : RealPath := []
deriving Inhabited, Repr

namespace FileTree

/-- A tree of the root alone. -/
def empty : FileTree := {}

/-- What a real path names. -/
def entry? (t : FileTree) (p : RealPath) : Option FileEntry :=
  if p.isEmpty then some .directory else t.entries.lookup p

/-- A resolved path: where it leads and what is there, which is no link. -/
structure Resolved where
  path : RealPath
  entry : FileEntry
deriving DecidableEq, Inhabited, Repr

/-- The number of links that one resolution follows. -/
def maxLinks : Nat := 40

/-- Follows components from a directory on, over at most `links` links, and tells where they lead and
what is there. Only the last component may name nothing. Behind a file nothing may come, not even an
empty component. -/
def locate (t : FileTree) (links : Nat) (dir : RealPath) (comps : List (List Char)) :
    Option (RealPath × Option FileEntry) :=
  match comps with
  | [] => some (dir, some .directory)
  | c :: rest =>
    if c.isEmpty || c = ['.'] then t.locate links dir rest
    else if c = ['.', '.'] then t.locate links dir.dropLast rest
    else
      let place := dir ++ [c]
      match t.entry? place with
      | none => if rest.isEmpty then some (place, none) else none
      | some .directory => t.locate links place rest
      | some (.file bytes) => if rest.isEmpty then some (place, some (.file bytes)) else none
      | some (.link target) =>
        match links with
        | 0 => none
        | links + 1 =>
          let start := if target.head? = some '/' then [] else dir
          t.locate links start (Path.pieces target ++ rest)
termination_by (links, comps.length)

/-- Resolves components from a directory on. -/
def walk (t : FileTree) (dir : RealPath) (comps : List (List Char)) : Option Resolved :=
  match t.locate maxLinks dir comps with
  | some (path, some entry) => some ⟨path, entry⟩
  | _ => none

/-- The directory that a path starts from. -/
def startOf (t : FileTree) (path : String) : RealPath :=
  if Path.isAbsolute path then [] else t.workingDirectory

/-- What a path leads to. -/
def resolve? (t : FileTree) (path : String) : Option Resolved :=
  if path.isEmpty || path.toList.any (·.toNat == 0) then none
  else t.walk (t.startOf path) (Path.pieces path.toList)

/-- The number of bytes that a path must stay below to be looked up as a whole. -/
def pathLimit : Nat := 4096

/-- The path can be handed over as a whole: it is short enough, and no zero character ends it early. -/
def isPassable (path : String) : Bool :=
  path.utf8ByteSize < pathLimit && path.toList.all (·.toNat != 0)

/-- What a path of less than the limit leads to. -/
def lookUp? (t : FileTree) (path : String) : Option Resolved :=
  if path.utf8ByteSize < pathLimit then t.resolve? path else none

/-- The path leads to something. -/
def pathExists (t : FileTree) (path : String) : Bool := (t.lookUp? path).isSome

/-- The path leads to a directory. -/
def isDirectory (t : FileTree) (path : String) : Bool :=
  (t.lookUp? path).any fun r => r.entry = .directory

/-- The text of a real path. -/
def RealPath.text (p : RealPath) : String :=
  if p.isEmpty then "/" else String.join (p.map fun c => "/" ++ String.ofList c)

/-- The real path that a path leads to. -/
def realPath? (t : FileTree) (path : String) : Option String :=
  (t.resolve? path).map fun r => RealPath.text r.path

/-- The real path that a path leads to, if it can be looked up. -/
def existingPath? (t : FileTree) (path : String) : Option String :=
  if t.pathExists path then t.realPath? path else none

/-- The content of the file that a path leads to. -/
def content? (t : FileTree) (path : String) : Option (List UInt8) :=
  (t.lookUp? path).bind fun r =>
    match r.entry with
    | .file bytes => some bytes
    | _ => none

/-! ## Building trees

Building goes on when a step fails: a directory stays where a file was to be written, nothing is
made behind a link that leads nowhere, and a link gives way to nothing. -/

/-- The number of bytes that a component has at most. -/
def nameLimit : Nat := 255

/-- The component can be the name of an entry. -/
def isName (c : List Char) : Bool :=
  !c.isEmpty && c != ['.'] && c != ['.', '.'] && (String.ofList c).utf8ByteSize ≤ nameLimit

/-- Puts an entry at a real path, in place of what is there. -/
def put (t : FileTree) (p : RealPath) (e : FileEntry) : FileTree :=
  { t with entries := (p, e) :: t.entries.filter fun other => other.1 != p }

/-- The place in a directory where an entry of a new name can be put. -/
def freePlace? (t : FileTree) (dir : RealPath) (comps : List (List Char)) : Option RealPath := do
  let name ← comps.getLast?
  let outer ← t.walk dir comps.dropLast
  let place := outer.path ++ [name]
  if outer.entry = .directory ∧ isName name ∧ (t.entry? place).isNone then some place else none

/-- The components lead to a directory. -/
def leadsToDirectory (t : FileTree) (dir : RealPath) (comps : List (List Char)) : Bool :=
  (t.walk dir comps).any fun r => r.entry = .directory

/-- Makes the directory that components, the last one first, lead to, and those around it. -/
def enterAll (t : FileTree) (dir : RealPath) : List (List Char) → FileTree
  | [] => t
  | name :: outer =>
    let comps := (name :: outer).reverse
    if t.leadsToDirectory dir comps then t
    else
      let t := t.enterAll dir outer
      match t.freePlace? dir comps with
      | some place => t.put place .directory
      | none => t

/-- Makes a directory and those around it. One whose path ends in a dot is not made itself. -/
def addDirectory (t : FileTree) (path : String) : FileTree :=
  if isPassable path then
    let comps := (Path.components path.toList).reverse
    t.enterAll (t.startOf path) (if Path.endsInDot path then comps.tail else comps)
  else t

/-- Writes a file, through the links that its path leads over. -/
def addFile (t : FileTree) (path : String) (bytes : List UInt8) : FileTree :=
  match t.locate maxLinks (t.startOf path) (Path.pieces path.toList) with
  | some (place, none) => if place.getLast?.any isName then t.put place (.file bytes) else t
  | some (place, some (.file _)) => t.put place (.file bytes)
  | _ => t

/-- Makes a link, which leads somewhere. -/
def addLink (t : FileTree) (path : String) (target : List Char) : FileTree :=
  match t.freePlace? (t.startOf path) (Path.pieces path.toList) with
  | some place =>
    if target.isEmpty || !isPassable (String.ofList target) then t else t.put place (.link target)
  | none => t

/-- Adds an entry under a path, with the directories around it. -/
def add (t : FileTree) (path : String) (e : FileEntry) : FileTree :=
  let t := t.addDirectory (Path.parent path)
  if isPassable path then
    match e with
    | .directory => t.addDirectory path
    | .link target => t.addLink path target
    | .file bytes => t.addFile path bytes
  else t

end FileTree

end CppReflect
