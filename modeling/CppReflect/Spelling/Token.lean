import CppReflect.Text.Basic

/-!
# Tokens of type spellings

A spelling is cut into words, numbers and punctuation; blanks separate tokens and are dropped. Only
`...`, `::` and `&&` are punctuation of more than one character. Tokens are written back with the
canonical spacing that template arguments carry inside a name.
-/

namespace CppReflect.Spelling

/-- A token of a type spelling. -/
inductive Token where
  /-- A letter or underscore followed by letters, numbers and underscores. -/
  | word (text : String)
  /-- An ASCII digit followed by letters, numbers, points and digit separators. -/
  | number (text : String)
  /-- Any other character, or one of `...`, `::` and `&&`. -/
  | punct (text : String)
deriving DecidableEq, Inhabited, Repr

namespace Token

/-- The text of the token. -/
def text : Token → String
  | word t | number t | punct t => t

/-- The token is the punctuation `p`. -/
def isPunct (p : String) : Token → Bool
  | punct t => t == p
  | _ => false

/-- The token is a word. -/
def isWord : Token → Bool
  | word _ => true
  | _ => false

/-- The token is a word or a number. -/
def isWordOrNumber : Token → Bool
  | word _ | number _ => true
  | punct _ => false

/-- A character that a word begins with. -/
def startsWord (c : Char) : Bool := Text.isAlphabetic c || c == '_'

/-- A character that a word goes on with. -/
def continuesWord (c : Char) : Bool := Text.isAlphanumeric c || c == '_'

/-- A character that a number goes on with. -/
def continuesNumber (c : Char) : Bool := Text.isAlphanumeric c || c == '.' || c == '\''

/-- The tokens of a text of at most `fuel` characters. Each round takes at least one of them. -/
def scanFrom : Nat → List Char → List Token
  | 0, _ => []
  | _ + 1, [] => []
  | fuel + 1, c :: rest =>
    if Text.isSpace c then scanFrom fuel rest
    else if startsWord c then
      word (String.ofList (c :: rest.takeWhile continuesWord)) ::
        scanFrom fuel (rest.dropWhile continuesWord)
    else if c.isDigit then
      number (String.ofList (c :: rest.takeWhile continuesNumber)) ::
        scanFrom fuel (rest.dropWhile continuesNumber)
    else
      match c, rest with
      | '.', '.' :: '.' :: rest => punct "..." :: scanFrom fuel rest
      | ':', ':' :: rest => punct "::" :: scanFrom fuel rest
      | '&', '&' :: rest => punct "&&" :: scanFrom fuel rest
      | c, rest => punct (String.ofList [c]) :: scanFrom fuel rest

/-- The tokens of a text. -/
def scan (text : List Char) : List Token :=
  scanFrom text.length text

/-- A blank is written between the two tokens: behind every comma, between words and numbers, in
front of `*`, `&` and `&&` behind a word, and in front of a word behind `*`, `&` and `>`. -/
def spaced (before after : Token) : Bool :=
  before.isPunct "," ||
  (before.isWordOrNumber && after.isWordOrNumber) ||
  (before.isWord && (after.isPunct "*" || after.isPunct "&" || after.isPunct "&&")) ||
  (after.isWord && (before.isPunct "*" || before.isPunct "&" || before.isPunct ">"))

/-- The text of the tokens with canonical spacing. -/
def render : List Token → String
  | [] => ""
  | [t] => t.text
  | t :: u :: rest => t.text ++ (if spaced t u then " " else "") ++ render (u :: rest)

end Token

end CppReflect.Spelling
