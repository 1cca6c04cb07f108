import CppReflect.Json.Basic

/-!
# The files that locations of an AST dump are in

A location in a dump names its file only if that differs from the file of the location printed
before it. The file of a location is therefore the last one named up to there in the order of the
document, subtrees that are not visited included.
-/

namespace CppReflect.Ast

/-- The file after a location, in which a spelling location and then an expansion location may nest
to the depth `fuel`. -/
def fileAfterFrom : Nat → Json → Option String → Option String
  | 0, _, file => file
  | fuel + 1, loc, file =>
    let file := (loc.get? "spellingLoc").elim file fun l => fileAfterFrom fuel l file
    let file := (loc.get? "expansionLoc").elim file fun l => fileAfterFrom fuel l file
    match (loc.get? "file").bind Json.str? with
    | some f => some f
    | none => file

/-- The file after a location. -/
def fileAfter (loc : Json) (file : Option String) : Option String :=
  fileAfterFrom (loc.depth + 1) loc file

/-- The file after the location and the range of a node. -/
def fileAfterNode (node : Json) (file : Option String) : Option String :=
  let file := (node.get? "loc").elim file fun l => fileAfter l file
  match node.get? "range" with
  | some range =>
    let file := (range.get? "begin").elim file fun l => fileAfter l file
    (range.get? "end").elim file fun l => fileAfter l file
  | none => file

mutual

/-- The file after every location in a value. -/
def fileAfterAll : Json → Option String → Option String
  | .arr items, file => fileAfterItems items file
  | .obj fields, file => fileAfterFields fields file
  | _, file => file

/-- The file after every location in the items. -/
def fileAfterItems : List Json → Option String → Option String
  | [], file => file
  | v :: rest, file => fileAfterItems rest (fileAfterAll v file)

/-- The file after every location in the fields. The chain of includes that a location carries is
not a location of the dump. -/
def fileAfterFields : List (String × Json) → Option String → Option String
  | [], file => file
  | (key, v) :: rest, file =>
    fileAfterFields rest <|
      if key = "loc" ∨ key = "begin" ∨ key = "end" then fileAfter v file
      else if key = "includedFrom" then file
      else fileAfterAll v file

end

end CppReflect.Ast
