import CppReflect.Spelling.Basic
import CppReflect.Spelling.Token

/-!
# Reading type spellings

The grammar of type spellings, read from a list of tokens. Every reader answers with the tokens it
leaves. The readers that call each other carry a bound on their depth; `Spelling.read` starts them
with more than any list of that many tokens can use up, since at most three calls in a row take no
token.
-/

namespace CppReflect

/-- Why a text is not a type spelling. -/
inductive SpellingError where
  /-- The tokens end where more are needed. -/
  | unexpectedEnd
  /-- A token stands where it cannot. -/
  | unexpectedToken (text : String)
  /-- There is neither a name nor a builtin type. -/
  | missingBase
deriving DecidableEq, Inhabited, Repr

/-- The text reported for the error. -/
def SpellingError.message : SpellingError → String
  | .unexpectedEnd => "unexpected end of type spelling"
  | .unexpectedToken text => "unexpected token \x60" ++ text ++ "\x60 in type spelling"
  | .missingBase => "type spelling names no type"

namespace Spelling

/-- The words that make up builtin types. -/
def builtinWords : List String :=
  ["signed", "unsigned", "short", "long", "int", "char", "bool", "_Bool", "float", "double",
    "void", "wchar_t", "char8_t", "char16_t", "char32_t", "__int128", "_Complex"]

/-- The keywords that may stand in front of a type name without a meaning of their own. -/
def elaboratedWords : List String :=
  ["struct", "class", "union", "enum", "typename"]

/-- The base that a sequence of builtin-type words names, in whatever order they are written. -/
def Base.ofWords? (words : List String) : Option Base :=
  let isComplex := words.contains "_Complex"
  let isUnsigned := words.contains "unsigned"
  let isSigned := words.contains "signed"
  let longs := words.count "long"
  let wrap (b : Builtin) : Option Base := some (if isComplex then .complex b else .builtin b)
  let bySign (signed unsigned : Builtin) : Option Base :=
    wrap (if isUnsigned then unsigned else signed)
  if words.contains "void" then (if isComplex then none else some .void)
  else if words.contains "bool" || words.contains "_Bool" then wrap .bool
  else if words.contains "float" then wrap .float
  else if words.contains "double" then wrap (if longs > 0 then .longDouble else .double)
  else if words.contains "wchar_t" then wrap .wchar
  else if words.contains "char8_t" then wrap .char8
  else if words.contains "char16_t" then wrap .char16
  else if words.contains "char32_t" then wrap .char32
  else if words.contains "char" then
    wrap (if isUnsigned then .uchar else if isSigned then .schar else .char)
  else if words.contains "__int128" then bySign .int128 .uint128
  else if words.contains "short" then bySign .short .ushort
  else if longs ≥ 2 then bySign .longLong .ulongLong
  else if longs = 1 then bySign .long .ulong
  else if words.contains "int" || isUnsigned || isSigned then bySign .int .uint
  else if isComplex then wrap .double
  else none

/-- The first token is the punctuation `p`. -/
def nextIs (p : String) : List Token → Bool
  | t :: _ => t.isPunct p
  | [] => false

/-- The tokens behind the punctuation `p`, which has to come first. -/
def expect (p : String) : List Token → Except SpellingError (List Token)
  | t :: rest => if t.isPunct p then .ok rest else .error (.unexpectedToken t.text)
  | [] => .error .unexpectedEnd

/-- Reads template arguments behind their `<`, up to the `>` that closes them. `arg` is what has
been read of the current argument, last token first. Brackets of any kind nest. -/
def templateArgsFrom (depth : Nat) (arg : List Token) :
    List Token → Except SpellingError (List String × List Token)
  | [] => .error .unexpectedEnd
  | t :: rest =>
    let continued (depth : Nat) := templateArgsFrom depth (t :: arg) rest
    if t.text = "<" ∨ t.text = "(" ∨ t.text = "[" then continued (depth + 1)
    else if t.text = ">" ∧ depth = 0 then .ok ([Token.render arg.reverse], rest)
    else if t.text = ">" ∨ t.text = ")" ∨ t.text = "]" then continued (depth - 1)
    else if t.text = "," ∧ depth = 0 then do
      let (args, rest) ← templateArgsFrom 0 [] rest
      .ok (Token.render arg.reverse :: args, rest)
    else continued depth

/-- Reads one segment of a name: a word and its template arguments, if there are any. -/
def nameSegment : List Token → Except SpellingError (String × List Token)
  | .word w :: rest =>
    match rest with
    | [] => .ok (w, [])
    | t :: after =>
      if t.isPunct "<" then do
        let (args, rest) ← templateArgsFrom 0 [] after
        .ok (w ++ "<" ++ Text.joined ", " args ++ ">", rest)
      else .ok (w, t :: after)
  | _ => .error .unexpectedEnd

/-- The tokens behind a `::` that a further name segment follows. -/
def afterScopeMark? : List Token → Option (List Token)
  | t :: .word w :: rest => if t.isPunct "::" then some (.word w :: rest) else none
  | _ => none

/-- Reads the segments of a name, at most `fuel` of them. -/
def nameSegments : Nat → List Token → Except SpellingError (List String × List Token)
  | 0, _ => .error .unexpectedEnd
  | fuel + 1, ts => do
    let (segment, rest) ← nameSegment ts
    match afterScopeMark? rest with
    | some rest =>
      let (segments, rest) ← nameSegments fuel rest
      .ok (segment :: segments, rest)
    | none => .ok ([segment], rest)

/-- The tokens behind a `::` at the front, and whether there is one. -/
def skipGlobal : List Token → Bool × List Token
  | t :: rest => if t.isPunct "::" then (true, rest) else (false, t :: rest)
  | [] => (false, [])

/-- Reads a qualified name. -/
def qualifiedName (ts : List Token) : Except SpellingError (QualifiedName × List Token) := do
  let (global, ts) := skipGlobal ts
  let (segments, rest) ← nameSegments ts.length ts
  .ok (⟨global, segments⟩, rest)

/-- What the words in front of the declarator have said so far. -/
structure Specifiers where
  quals : Quals := .none
  words : List String := []
  name : Option QualifiedName := none

/-- Reads qualifiers, elaborated keywords, and either builtin words or one name, in any order. -/
def specifiersFrom : Nat → Specifiers → List Token → Except SpellingError (Specifiers × List Token)
  | 0, s, ts => .ok (s, ts)
  | _ + 1, s, [] => .ok (s, [])
  | fuel + 1, s, t :: rest =>
    let named : Except SpellingError (Specifiers × List Token) := do
      let (name, rest) ← qualifiedName (t :: rest)
      specifiersFrom fuel { s with name := some name } rest
    match t with
    | .word w =>
      match Quals.ofWord? w with
      | some q => specifiersFrom fuel { s with quals := s.quals ∪ q } rest
      | none =>
        if elaboratedWords.contains w then specifiersFrom fuel s rest
        else if builtinWords.contains w then
          if s.name.isSome then .ok (s, t :: rest)
          else specifiersFrom fuel { s with words := s.words ++ [w] } rest
        else if s.name.isNone && s.words.isEmpty then named
        else .ok (s, t :: rest)
    | t =>
      if t.isPunct "::" && s.name.isNone && s.words.isEmpty then named
      else .ok (s, t :: rest)

/-- Reads the base of a spelling and its qualifiers. -/
def declSpecifiers (ts : List Token) : Except SpellingError (Base × Quals × List Token) := do
  let (s, rest) ← specifiersFrom ts.length {} ts
  match s.name with
  | some name => .ok (.name name, s.quals, rest)
  | none =>
    match Base.ofWords? s.words with
    | some base => .ok (base, s.quals, rest)
    | none => .error .missingBase

/-- Reads the qualifiers at the front. -/
def cv : List Token → Quals × List Token
  | .word w :: rest =>
    match Quals.ofWord? w with
    | some q =>
      let (qs, rest) := cv rest
      (q ∪ qs, rest)
    | none => (.none, .word w :: rest)
  | ts => (.none, ts)

/-- The tokens behind the `>` that closes the angle brackets, of which `depth` are open. Other
brackets do not count here. -/
def behindAngles (depth : Nat) : List Token → List Token
  | [] => []
  | t :: rest =>
    if t.isPunct "<" then behindAngles (depth + 1) rest
    else if t.isPunct ">" then
      if depth ≤ 1 then rest else behindAngles (depth - 1) rest
    else behindAngles depth rest

/-- The tokens behind `Name [<…>] (:: Name [<…>])* :: *`, if the list begins with it. -/
def memberPointerSegments? : Nat → List Token → Option (List Token)
  | 0, _ => none
  | fuel + 1, .word _ :: rest =>
    let rest := if nextIs "<" rest then behindAngles 0 rest else rest
    match rest with
    | colons :: star :: rest =>
      if colons.isPunct "::" then
        if star.isPunct "*" then some rest else memberPointerSegments? fuel (star :: rest)
      else none
    | _ => none
  | _ + 1, _ => none

/-- The tokens behind `[::] Name [<…>] (:: Name [<…>])* :: *`, if the list begins with it. -/
def memberPointer? (ts : List Token) : Option (List Token) :=
  memberPointerSegments? ts.length (skipGlobal ts).2

/-- Reads the segments of a class name up to `:: *`, at most `fuel` of them. -/
def memberPointerClassFrom : Nat → List Token → Except SpellingError (List String × List Token)
  | 0, _ => .error .unexpectedEnd
  | fuel + 1, ts => do
    let (segment, rest) ← nameSegment ts
    let rest ← expect "::" rest
    match rest with
    | t :: after =>
      if t.isPunct "*" then .ok ([segment], after)
      else
        let (segments, rest) ← memberPointerClassFrom fuel (t :: after)
        .ok (segment :: segments, rest)
    | [] => .error .unexpectedEnd

/-- Reads the class of a member pointer and the `:: *` behind it. -/
def memberPointerClass (ts : List Token) : Except SpellingError (QualifiedName × List Token) := do
  let (global, ts) := skipGlobal ts
  let (segments, rest) ← memberPointerClassFrom ts.length ts
  .ok (⟨global, segments⟩, rest)

/-- The tokens behind a parenthesis begin a declarator and not a list of parameters. -/
def beginsDeclarator : List Token → Bool
  | [] => false
  | .number _ :: _ => false
  | t :: rest =>
    if t.isPunct "*" || t.isPunct "&" || t.isPunct "&&" || t.isPunct "^" then true
    else if t.isPunct "(" then beginsDeclarator rest
    else (memberPointer? (t :: rest)).isSome

/-- Reads the operators in front of a declarator, at most `fuel` of them. -/
def pointerOpsFrom : Nat → List Token → Except SpellingError (List DeclaratorOp × List Token)
  | 0, ts => .ok ([], ts)
  | _ + 1, [] => .ok ([], [])
  | fuel + 1, t :: rest =>
    let followedBy (op : DeclaratorOp) (rest : List Token) :
        Except SpellingError (List DeclaratorOp × List Token) := do
      let (ops, rest) ← pointerOpsFrom fuel rest
      .ok (op :: ops, rest)
    if t.isPunct "*" || t.isPunct "^" then
      let (q, rest) := cv rest
      followedBy (.pointer q) rest
    else if t.isPunct "&" then followedBy .lvalueReference (cv rest).2
    else if t.isPunct "&&" then followedBy .rvalueReference (cv rest).2
    else if (t.isPunct "::" || t.isWord) && (memberPointer? (t :: rest)).isSome then do
      let (klass, rest) ← memberPointerClass (t :: rest)
      let (q, rest) := cv rest
      followedBy (.memberPointer klass q) rest
    else .ok ([], t :: rest)

/-- Reads the operators in front of a declarator. -/
def pointerOps (ts : List Token) : Except SpellingError (List DeclaratorOp × List Token) :=
  pointerOpsFrom ts.length ts

/-- The number that decimal digits denote, if it fits 64 bits. -/
def extentOfDigits? (digits : List Char) : Option UInt64 :=
  if digits.isEmpty || digits.any (fun c => !c.isDigit) then none
  else
    let n := digits.foldl (fun n c => 10 * n + (c.toNat - '0'.toNat)) 0
    if n < UInt64.size then some (UInt64.ofNat n) else none

/-- The extent that a number token denotes, whose ASCII letters at the end do not count. -/
def extentOf? (number : String) : Option UInt64 :=
  extentOfDigits? (number.toList.reverse.dropWhile Char.isAlpha).reverse

/-- The tokens behind the next `]`. -/
def behindBracket : List Token → Except SpellingError (List Token)
  | [] => .error .unexpectedEnd
  | t :: rest => if t.isPunct "]" then .ok rest else behindBracket rest

/-- Reads the rest of an array suffix behind its `[`: an extent, if it starts with a number, and
whatever else is in front of the `]`. -/
def arraySuffix : List Token → Except SpellingError (DeclaratorOp × List Token)
  | .number n :: rest => do
    let rest ← behindBracket rest
    .ok (.array (extentOf? n), rest)
  | ts => do
    let rest ← behindBracket ts
    .ok (.array none, rest)

/-- The tokens behind the `)` that closes the parentheses, of which `depth` are open. -/
def behindParens (depth : Nat) : List Token → Except SpellingError (List Token)
  | [] => .error .unexpectedEnd
  | t :: rest =>
    if t.isPunct "(" then behindParens (depth + 1) rest
    else if t.isPunct ")" then
      if depth ≤ 1 then .ok rest else behindParens (depth - 1) rest
    else behindParens depth rest

/-- Reads what follows the qualifiers of a function: reference qualifiers, of which the last one
counts, exception specifications and attributes. -/
def functionTail : Nat → RefQualifier → List Token → Except SpellingError (RefQualifier × List Token)
  | 0, ref, ts => .ok (ref, ts)
  | _ + 1, ref, [] => .ok (ref, [])
  | fuel + 1, ref, t :: rest =>
    if t.isPunct "&" then functionTail fuel .lvalue rest
    else if t.isPunct "&&" then functionTail fuel .rvalue rest
    else if t = .word "noexcept" ∨ t = .word "throw" then
      match rest with
      | p :: inner =>
        if p.isPunct "(" then do
          let rest ← behindParens 1 inner
          functionTail fuel ref rest
        else functionTail fuel ref (p :: inner)
      | [] => .ok (ref, [])
    else if t = .word "__attribute__" then do
      let inner ← expect "(" rest
      let rest ← behindParens 1 inner
      functionTail fuel ref rest
    else .ok (ref, t :: rest)

/-- A parameter list with `void` alone in it is empty. -/
def withoutLoneVoid : List Spelling → List Spelling
  | [.mk .void _ []] => []
  | params => params

mutual

/-- Reads a type: specifiers and a declarator. -/
def typeId : Nat → List Token → Except SpellingError (Spelling × List Token)
  | 0, _ => .error .unexpectedEnd
  | fuel + 1, ts => do
    let (base, quals, rest) ← declSpecifiers ts
    let (ops, rest) ← declarator fuel rest
    .ok (.mk base quals ops, rest)

/-- Reads a declarator: operators, then a nested declarator or a name that does not matter, then
array and function suffixes. The suffixes bind tighter than the operators in front, and the nested
declarator is applied last. -/
def declarator : Nat → List Token → Except SpellingError (List DeclaratorOp × List Token)
  | 0, _ => .error .unexpectedEnd
  | fuel + 1, ts => do
    let (front, rest) ← pointerOps ts
    let (nested, rest) ← nestedDeclarator fuel rest
    let (suffixes, rest) ← declaratorSuffixes fuel rest
    .ok (front ++ suffixes.reverse ++ nested, rest)

/-- Reads the nested declarator in parentheses, or skips the name in its place. -/
def nestedDeclarator : Nat → List Token → Except SpellingError (List DeclaratorOp × List Token)
  | 0, _ => .error .unexpectedEnd
  | _ + 1, [] => .ok ([], [])
  | fuel + 1, t :: rest =>
    if t.isPunct "(" && beginsDeclarator rest then do
      let (ops, rest) ← declarator fuel rest
      let rest ← expect ")" rest
      .ok (ops, rest)
    else
      match t with
      | .word w => if (Quals.ofWord? w).isNone then .ok ([], rest) else .ok ([], t :: rest)
      | t => .ok ([], t :: rest)

/-- Reads the array and function suffixes of a declarator. -/
def declaratorSuffixes : Nat → List Token → Except SpellingError (List DeclaratorOp × List Token)
  | 0, _ => .error .unexpectedEnd
  | _ + 1, [] => .ok ([], [])
  | fuel + 1, t :: rest =>
    if t.isPunct "[" then do
      let (op, rest) ← arraySuffix rest
      let (ops, rest) ← declaratorSuffixes fuel rest
      .ok (op :: ops, rest)
    else if t.isPunct "(" then do
      let (op, rest) ← functionSuffix fuel rest
      let (ops, rest) ← declaratorSuffixes fuel rest
      .ok (op :: ops, rest)
    else .ok ([], t :: rest)

/-- Reads the rest of a function suffix behind its `(`. -/
def functionSuffix : Nat → List Token → Except SpellingError (DeclaratorOp × List Token)
  | 0, _ => .error .unexpectedEnd
  | fuel + 1, ts => do
    let (params, variadic, rest) ←
      if nextIs ")" ts then .ok ([], false, ts.tail) else parameters fuel ts
    let (quals, rest) := cv rest
    let (ref, rest) ← functionTail rest.length .none rest
    .ok (.function (withoutLoneVoid params) variadic quals ref, rest)

/-- Reads parameters and the `)` behind them; at least one parameter or `...` has to be there. -/
def parameters : Nat → List Token → Except SpellingError (List Spelling × Bool × List Token)
  | 0, _ => .error .unexpectedEnd
  | fuel + 1, ts => do
    let (param, ellipsis, rest) ←
      if nextIs "..." ts then .ok ([], true, ts.tail)
      else do
        let (param, rest) ← typeId fuel ts
        .ok ([param], false, rest)
    if nextIs ")" rest then .ok (param, ellipsis, rest.tail)
    else
      let rest ← expect "," rest
      let (params, variadic, rest) ← parameters fuel rest
      .ok (param ++ params, ellipsis || variadic, rest)

end

/-- The depth of calls that a list of tokens can need. -/
def readFuel (ts : List Token) : Nat := 6 * ts.length + 6

/-- The type that a list of tokens spells, all of them used. -/
def ofTokens (ts : List Token) : Except SpellingError Spelling := do
  let (spelling, rest) ← typeId (readFuel ts) ts
  match rest with
  | [] => .ok spelling
  | t :: _ => .error (.unexpectedToken t.text)

/-- The type that a text spells. -/
def read (text : String) : Except SpellingError Spelling :=
  ofTokens (Token.scan text.toList)

/-- The builtin type that a text of nothing but builtin-type words names. -/
def readBuiltin? (text : String) : Option Base :=
  let tokens := Token.scan text.toList
  let words := tokens.filterMap fun
    | .word w => if builtinWords.contains w then some w else none
    | _ => none
  if tokens.isEmpty || words.length ≠ tokens.length then none else Base.ofWords? words

end Spelling

end CppReflect
