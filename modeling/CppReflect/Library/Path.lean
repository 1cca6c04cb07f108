import CppReflect.Text.Basic

/-!
# Paths

Paths are texts whose components are separated by slashes. Empty components and single dots do not
count, except for a dot that a path begins with.
-/

namespace CppReflect.Path

/-- The pieces between slashes. -/
def pieces (path : List Char) : List (List Char) := Text.splitAtAll (· == '/') path

/-- The components that count. -/
def components (path : List Char) : List (List Char) :=
  (pieces path).filter fun c => !c.isEmpty && c != ['.']

/-- The path starts at the root. -/
def isAbsolute (path : String) : Bool := path.toList.head? = some '/'

/-- The last piece that is not empty is a dot. -/
def endsInDot (path : String) : Bool :=
  ((pieces path.toList).filter fun c => !c.isEmpty).getLast? = some ['.']

/-- The last component, unless it leads upwards. -/
def fileName? (path : String) : Option String :=
  match (components path.toList).getLast? with
  | some c => if c = ['.', '.'] then none else some (String.ofList c)
  | none => none

/-- A path behind another one; an absolute path stands for itself. -/
def join (dir rest : String) : String :=
  if isAbsolute rest || dir.isEmpty then rest
  else if Text.endsWith "/" dir then dir ++ rest
  else dir ++ "/" ++ rest

/-- The pieces up to the last one that counts. -/
def trimPieces (ps : List (List Char × Nat)) : List (List Char × Nat) :=
  (ps.reverse.dropWhile fun (p, i) => p.isEmpty || (p == ['.'] && i != 0)).reverse

/-- The pieces with a slash between neighbours. -/
def joinPieces (ps : List (List Char × Nat)) : String :=
  Text.joined "/" (ps.map fun p => String.ofList p.1)

/-- The path without its last component; empty if there is none. -/
def parent (path : String) : String :=
  let counted := trimPieces (pieces path.toList).zipIdx
  let rest := trimPieces counted.dropLast
  if counted.isEmpty then ""
  else if rest.isEmpty then (if isAbsolute path then "/" else "")
  else joinPieces rest

end CppReflect.Path
