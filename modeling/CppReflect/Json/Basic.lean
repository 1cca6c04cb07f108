import CppReflect.Number.Text

/-!
# JSON values

A JSON value with the fields of an object in the order of the document, its queries, and its compact
text. A number is a whole number of 64 bits if it is written as one that fits, and a floating-point
number otherwise.
-/

namespace CppReflect

/-- A JSON value. The keys of an object are different from each other. -/
inductive Json where
  | null
  | bool (b : Bool)
  | int (n : Int)
  | float (x : Number.Binary)
  | str (s : String)
  | arr (items : List Json)
  | obj (fields : List (String × Json))
deriving Inhabited

namespace Json

/-- A number that is not negative. -/
def ofNat (n : Nat) : Json := .int n

/-- What an option holds, or null. -/
def ofOption {α : Type} (f : α → Json) (a : Option α) : Json := a.elim .null f

/-- An array. -/
def ofList {α : Type} (f : α → Json) (as : List α) : Json := .arr (as.map f)

/-- The value under a key of an object. -/
def get? (key : String) : Json → Option Json
  | obj fields => fields.lookup key
  | _ => none

/-- The text, if the value is one. -/
def str? : Json → Option String
  | str s => some s
  | _ => none

/-- The truth value, if the value is one. -/
def bool? : Json → Option Bool
  | bool b => some b
  | _ => none

/-- The number, if the value is a whole number that is not negative. -/
def nat? : Json → Option Nat
  | int n => if 0 ≤ n then some n.toNat else none
  | _ => none

/-- The items, if the value is an array. -/
def items? : Json → Option (List Json)
  | arr items => some items
  | _ => none

mutual

/-- How deep arrays and objects nest. -/
def depth : Json → Nat
  | arr items => depthOfItems items + 1
  | obj fields => depthOfFields fields + 1
  | _ => 0

/-- The depth of the deepest item. -/
def depthOfItems : List Json → Nat
  | [] => 0
  | v :: rest => max (depth v) (depthOfItems rest)

/-- The depth of the deepest field. -/
def depthOfFields : List (String × Json) → Nat
  | [] => 0
  | (_, v) :: rest => max (depth v) (depthOfFields rest)

end

/-- The four hexadecimal digits of a number. -/
def hex4 (n : Nat) : List Char :=
  let ds := Nat.toDigits 16 n
  List.replicate (4 - ds.length) '0' ++ ds

/-- A character as it is written inside quotes. -/
def escape (c : Char) : List Char :=
  if c = '"' then ['\\', '"']
  else if c = '\\' then ['\\', '\\']
  else if c = '\n' then ['\\', 'n']
  else if c = '\r' then ['\\', 'r']
  else if c = '\t' then ['\\', 't']
  else if c.toNat = 8 then ['\\', 'b']
  else if c.toNat = 12 then ['\\', 'f']
  else if c.toNat < 32 then ['\\', 'u'] ++ hex4 c.toNat
  else [c]

/-- A text in quotes. -/
def quoted (s : String) : String :=
  "\"" ++ String.ofList (s.toList.flatMap escape) ++ "\""

/-- Numbers of less than `10 ^ -5` are written with an exponent, and a great exponent has its sign. -/
def numberStyle : Number.ExponentStyle := { least := -5, plus := true }

mutual

/-- The compact text of a value. -/
def render : Json → String
  | null => "null"
  | bool b => if b then "true" else "false"
  | int n => toString n
  | float x => Number.binary64.general numberStyle x
  | str s => quoted s
  | arr items => "[" ++ renderItems items ++ "]"
  | obj fields => "\x7b" ++ renderFields fields ++ "\x7d"

/-- The compact texts of items, with commas between them. -/
def renderItems : List Json → String
  | [] => ""
  | [v] => render v
  | v :: rest => render v ++ "," ++ renderItems rest

/-- The compact texts of fields, with commas between them. -/
def renderFields : List (String × Json) → String
  | [] => ""
  | [(k, v)] => quoted k ++ ":" ++ render v
  | (k, v) :: rest => quoted k ++ ":" ++ render v ++ "," ++ renderFields rest

end

end Json

end CppReflect
