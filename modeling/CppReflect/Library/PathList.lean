import CppReflect.Library.FileTree

/-!
# Lists of directories

Search paths come as texts: directories with delimiters between them, the report of a loader that
was asked to be talkative, and paths with environment variables in them.
-/

namespace CppReflect.PathList

/-- What becomes of an entry that is no directory. -/
inductive Missing where
  /-- It is left out. -/
  | prune
  /-- It ends the list. -/
  | fail
  /-- It is kept. -/
  | allow
deriving DecidableEq, Inhabited, Repr

/-- The text before and behind the first occurrence of a part. -/
def cutAround? (part : List Char) : List Char → Option (List Char × List Char)
  | [] => if part.isEmpty then some ([], []) else none
  | c :: cs =>
    match Text.afterStart? part (c :: cs) with
    | some rest => some ([], rest)
    | none => (cutAround? part cs).map fun (before, behind) => (c :: before, behind)

/-- The pieces between the occurrences of a delimiter that is not empty. The fuel bounds their
number. -/
def piecesFrom (delimiter : List Char) : Nat → List Char → List (List Char)
  | 0, cs => [cs]
  | fuel + 1, cs =>
    match cutAround? delimiter cs with
    | some (piece, rest) => piece :: piecesFrom delimiter fuel rest
    | none => [cs]

/-- The pieces between the occurrences of a delimiter that is not empty. -/
def pieces (delimiter : List Char) (cs : List Char) : List (List Char) :=
  piecesFrom delimiter cs.length cs

/-- The entries that are kept, and whether all were directories. -/
def keep (t : FileTree) (missing : Missing) : List String → List String × Bool
  | [] => ([], true)
  | entry :: rest =>
    if t.isDirectory entry then
      let (kept, all) := keep t missing rest
      (entry :: kept, all)
    else
      match missing with
      | .fail => ([], false)
      | .allow => (entry :: (keep t missing rest).1, false)
      | .prune => ((keep t missing rest).1, false)

/-- The directories in a text, and whether every entry was one. Empty entries do not count, and a
delimiter that is empty separates nothing. -/
def split (t : FileTree) (text delimiter : String) (missing : Missing) : List String × Bool :=
  if delimiter.isEmpty then ([], true)
  else
    let entries := (pieces delimiter.toList text.toList).filter fun e => !e.isEmpty
    keep t missing (entries.map String.ofList)

/-- The text from the first occurrence of a part on, or all of it. -/
def fromFirst (part cs : List Char) : List Char :=
  match cutAround? part cs with
  | some (_, rest) => part ++ rest
  | none => cs

/-- The system search path in the report of a loader: it stands between two marks, behind what is
said of the library path of the environment. -/
def ofLoaderReport (t : FileTree) (report : String) : List String :=
  let found := do
    let (_, rest) ← cutAround? "search path=".toList
      (fromFirst "(LD_LIBRARY_PATH)".toList report.toList)
    let (path, _) ← cutAround? "(system search path)".toList rest
    return Text.squash path
  match found with
  | some path => (split t (String.ofList path) ":" .prune).1
  | none => []

/-! ## Environment variables -/

/-- The value of a variable in an environment of lines `name=value`: what follows the name and an
equals sign on the first line that begins with both. The name may have an equals sign in it. -/
def valueOf? (lines : List String) (name : String) : Option String :=
  if name.isEmpty then none
  else
    (lines.findSome? fun line => Text.afterStart? (name.toList ++ ['=']) line.toList).map
      String.ofList

/-- Puts the values of variables in place of their names: a name starts behind a dollar sign and
ends in front of a slash. A variable that is not set has no text. Values are not looked into. -/
def expandChars (env : String → Option String) (cs : List Char) : List Char :=
  match h : Text.cutAt (· == '$') cs with
  | none => cs
  | some (before, behind) =>
    have _shorter := Text.length_behind_cutAt h
    have _dropped := (List.dropWhile_suffix (l := behind) fun c => c != '/').length_le
    let name := behind.takeWhile (· != '/')
    before ++ ((env (String.ofList name)).getD "").toList ++
      expandChars env (behind.dropWhile (· != '/'))
termination_by cs.length
decreasing_by omega

/-- The text with environment variables replaced by their values. -/
def expand (env : String → Option String) (text : String) : String :=
  String.ofList (expandChars env text.toList)

end CppReflect.PathList
