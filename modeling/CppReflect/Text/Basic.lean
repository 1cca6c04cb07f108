import CppReflect.Text.CharClass

/-!
# Trimming, cutting and joining text

The operations on text that names, spellings and reports share. Each is a function on lists of
characters, with a version on strings where one is used.
-/

namespace CppReflect.Text

/-- The text without the blanks in front of it. -/
def trimLeft (cs : List Char) : List Char :=
  cs.dropWhile isSpace

/-- The text without the blanks behind it. -/
def trimRight (cs : List Char) : List Char :=
  (cs.reverse.dropWhile isSpace).reverse

/-- The text without the blanks around it. -/
def trim (cs : List Char) : List Char :=
  trimRight (trimLeft cs)

/-- The text without any blank. -/
def squash (cs : List Char) : List Char :=
  cs.filter fun c => !isSpace c

/-- The string without the blanks around it. -/
def trimmed (s : String) : String :=
  String.ofList (trim s.toList)

/-- The string without any blank. -/
def squashed (s : String) : String :=
  String.ofList (squash s.toList)

/-- What follows `start` in the text, if the text begins with it. -/
def afterStart? {α : Type} [DecidableEq α] : List α → List α → Option (List α)
  | [], cs => some cs
  | _ :: _, [] => none
  | s :: start, c :: cs => if s = c then afterStart? start cs else none

/-- The text begins with `start`. -/
def startsWith (start cs : String) : Bool :=
  start.toList.isPrefixOf cs.toList

/-- The text ends with `ending`. -/
def endsWith (ending cs : String) : Bool :=
  ending.toList.isSuffixOf cs.toList

/-- The text holds `part` somewhere. -/
def hasInfix {α : Type} [DecidableEq α] (part : List α) : List α → Bool
  | [] => part.isEmpty
  | c :: cs => part.isPrefixOf (c :: cs) || hasInfix part cs

/-- The string holds `part` somewhere. -/
def contains (part s : String) : Bool :=
  hasInfix part.toList s.toList

/-- The text before and after the first character that passes the test. -/
def cutAt {α : Type} (p : α → Bool) : List α → Option (List α × List α)
  | [] => none
  | c :: cs => if p c then some ([], cs) else (cutAt p cs).map fun r => (c :: r.1, r.2)

/-- What is behind the first character that passes the test is shorter than the text. -/
theorem length_behind_cutAt {α : Type} {p : α → Bool} {cs before behind : List α}
    (h : cutAt p cs = some (before, behind)) : behind.length < cs.length := by
  induction cs generalizing before with
  | nil => simp [cutAt] at h
  | cons c cs ih =>
    simp only [cutAt] at h
    split at h
    · simp only [Option.some.injEq, Prod.mk.injEq] at h
      simp [← h.2]
    · simp only [Option.map_eq_some_iff, Prod.mk.injEq] at h
      obtain ⟨⟨b, r⟩, hr, _, rfl⟩ := h
      have shorter : r.length < cs.length := ih hr
      exact Nat.lt_succ_of_lt shorter

/-- The text before and after the last character that passes the test. -/
def cutAtLast {α : Type} (p : α → Bool) : List α → Option (List α × List α)
  | [] => none
  | c :: cs =>
    match cutAtLast p cs with
    | some r => some (c :: r.1, r.2)
    | none => if p c then some ([], cs) else none

/-- The pieces between the elements that pass the test: one more than there are such elements. -/
def splitAtAll {α : Type} (p : α → Bool) : List α → List (List α)
  | [] => [[]]
  | c :: cs =>
    if p c then [] :: splitAtAll p cs
    else
      match splitAtAll p cs with
      | piece :: pieces => (c :: piece) :: pieces
      | [] => [[c]]

/-- The pieces between blanks, empty ones left out. -/
def words (s : String) : List String :=
  ((splitAtAll isSpace s.toList).filter (!·.isEmpty)).map String.ofList

/-- The lines of a text: each ends at a line feed, which with a carriage return before it is not
part of the line, and a last line without a line feed counts if it is not empty. -/
def lines (s : String) : List String :=
  let pieces := splitAtAll (· == '\n') s.toList
  let ended := pieces.dropLast.map fun l =>
    if l.getLast? = some '\r' then l.dropLast else l
  let rest := pieces.getLastD []
  (if rest.isEmpty then ended else ended ++ [rest]).map String.ofList

/-- The strings with a separator between neighbours. -/
def joined (sep : String) : List String → String
  | [] => ""
  | [s] => s
  | s :: rest => s ++ sep ++ joined sep rest

end CppReflect.Text
