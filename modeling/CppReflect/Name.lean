import CppReflect.Text.Basic

/-!
# Qualified names

A qualified name is cut into its segments at every `::` outside brackets, and a segment such as
`A<int, 3>` into the name of a template and the text of its arguments. Brackets are counted without
regard to their kind, and a closing one too many is ignored.
-/

namespace CppReflect.Name

/-- The bracket depth behind a character. -/
def depthAfter (depth : Nat) (c : Char) : Nat :=
  if c = '<' ∨ c = '(' ∨ c = '[' then depth + 1
  else if c = '>' ∨ c = ')' ∨ c = ']' then depth - 1
  else depth

/-- The segments of the text, where `segment` is the part of the first one that has been read
already, last character first. -/
def segmentsFrom (depth : Nat) (segment : List Char) : List Char → List (List Char)
  | [] => [Text.trim segment.reverse]
  | ':' :: ':' :: rest =>
    if depth = 0 then Text.trim segment.reverse :: segmentsFrom 0 [] rest
    else segmentsFrom depth (':' :: segment) (':' :: rest)
  | c :: rest => segmentsFrom (depthAfter depth c) (c :: segment) rest

/-- The segments between the `::` outside brackets, without the blanks around them. -/
def segments (name : List Char) : List (List Char) :=
  segmentsFrom 0 [] name

/-- The segments of a qualified name. -/
def split (name : String) : List String :=
  (segments name.toList).map String.ofList

/-- The name and the argument text of `A<int, 3>`: what is in front of the first `<` and what lies
between it and the last `>`, without the blanks around them. A segment that starts with `operator`
or has no such brackets is a name without arguments. -/
def templateId (segment : String) : String × Option String :=
  let cs := segment.toList
  match Text.cutAt (· == '<') cs with
  | none => (segment, none)
  | some (base, rest) =>
    match Text.cutAtLast (· == '>') rest with
    | none => (segment, none)
    | some (args, _) =>
      if Text.startsWith "operator" segment then (segment, none)
      else (String.ofList (Text.trim base), some (String.ofList (Text.trim args)))

end CppReflect.Name
