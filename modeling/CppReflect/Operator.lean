import CppReflect.Text.Basic

/-!
# Overloadable operators

The operators a program may declare, their source spelling, and the operand counts they can be
declared with. A declaration such as `operator new []` is recognised from its name, in which blanks
do not count.
-/

namespace CppReflect

/-- The operand counts an operator can be declared with. -/
inductive Arity where
  | unary
  | binary
  | both
deriving DecidableEq, Inhabited, Repr

namespace Arity

/-- Some operand count is admitted by both: `both` meets everything, and otherwise the two have to
be equal. -/
def accepts : Arity → Arity → Bool
  | .unary, .binary => false
  | .binary, .unary => false
  | _, _ => true

/-- The three arities. -/
def values : List Arity := [.unary, .binary, .both]

/-- The name of the arity in words. -/
def name : Arity → String
  | .unary => "Unary"
  | .binary => "Binary"
  | .both => "Both"

/-- The arity of this name, and `both` for any other word. -/
def ofName (word : String) : Arity :=
  (values.find? fun a => a.name == word).getD .both

end Arity

/-- An overloadable operator, or none. -/
inductive Operator where
  | none
  | new | delete | arrayNew | arrayDelete | plus | minus | star | slash | percent | caret | amp
  | pipe | tilde | exclaim | equal | less | greater | plusEqual | minusEqual | starEqual
  | slashEqual | percentEqual | caretEqual | ampEqual | pipeEqual | lessLess | greaterGreater
  | lessLessEqual | greaterGreaterEqual | equalEqual | exclaimEqual | lessEqual | greaterEqual
  | spaceship | ampAmp | pipePipe | plusPlus | minusMinus | comma | arrowStar | arrow | call
  | subscript | conditional | coawait
deriving DecidableEq, Inhabited, Repr

namespace Operator

/-- Every operator, in the order of their declaration; `none` is not one. -/
def values : List Operator :=
  [.new, .delete, .arrayNew, .arrayDelete, .plus, .minus, .star, .slash, .percent, .caret,
   .amp, .pipe, .tilde, .exclaim, .equal, .less, .greater, .plusEqual, .minusEqual, .starEqual,
   .slashEqual, .percentEqual, .caretEqual, .ampEqual, .pipeEqual, .lessLess, .greaterGreater,
   .lessLessEqual, .greaterGreaterEqual, .equalEqual, .exclaimEqual, .lessEqual, .greaterEqual,
   .spaceship, .ampAmp, .pipePipe, .plusPlus, .minusMinus, .comma, .arrowStar, .arrow, .call,
   .subscript, .conditional, .coawait]

/-- The source spelling without the keyword `operator`; empty for `none`. -/
def spelling : Operator → String
  | .none => ""
  | .new => "new"
  | .delete => "delete"
  | .arrayNew => "new[]"
  | .arrayDelete => "delete[]"
  | .plus => "+"
  | .minus => "-"
  | .star => "*"
  | .slash => "/"
  | .percent => "%"
  | .caret => "^"
  | .amp => "&"
  | .pipe => "|"
  | .tilde => "~"
  | .exclaim => "!"
  | .equal => "="
  | .less => "<"
  | .greater => ">"
  | .plusEqual => "+="
  | .minusEqual => "-="
  | .starEqual => "*="
  | .slashEqual => "/="
  | .percentEqual => "%="
  | .caretEqual => "^="
  | .ampEqual => "&="
  | .pipeEqual => "|="
  | .lessLess => "<<"
  | .greaterGreater => ">>"
  | .lessLessEqual => "<<="
  | .greaterGreaterEqual => ">>="
  | .equalEqual => "=="
  | .exclaimEqual => "!="
  | .lessEqual => "<="
  | .greaterEqual => ">="
  | .spaceship => "<=>"
  | .ampAmp => "&&"
  | .pipePipe => "||"
  | .plusPlus => "++"
  | .minusMinus => "--"
  | .comma => ","
  | .arrowStar => "->*"
  | .arrow => "->"
  | .call => "()"
  | .subscript => "[]"
  | .conditional => "?"
  | .coawait => "co_await"

/-- The name of the operator in words. -/
def name : Operator → String
  | .none => "None"
  | .new => "New"
  | .delete => "Delete"
  | .arrayNew => "ArrayNew"
  | .arrayDelete => "ArrayDelete"
  | .plus => "Plus"
  | .minus => "Minus"
  | .star => "Star"
  | .slash => "Slash"
  | .percent => "Percent"
  | .caret => "Caret"
  | .amp => "Amp"
  | .pipe => "Pipe"
  | .tilde => "Tilde"
  | .exclaim => "Exclaim"
  | .equal => "Equal"
  | .less => "Less"
  | .greater => "Greater"
  | .plusEqual => "PlusEqual"
  | .minusEqual => "MinusEqual"
  | .starEqual => "StarEqual"
  | .slashEqual => "SlashEqual"
  | .percentEqual => "PercentEqual"
  | .caretEqual => "CaretEqual"
  | .ampEqual => "AmpEqual"
  | .pipeEqual => "PipeEqual"
  | .lessLess => "LessLess"
  | .greaterGreater => "GreaterGreater"
  | .lessLessEqual => "LessLessEqual"
  | .greaterGreaterEqual => "GreaterGreaterEqual"
  | .equalEqual => "EqualEqual"
  | .exclaimEqual => "ExclaimEqual"
  | .lessEqual => "LessEqual"
  | .greaterEqual => "GreaterEqual"
  | .spaceship => "Spaceship"
  | .ampAmp => "AmpAmp"
  | .pipePipe => "PipePipe"
  | .plusPlus => "PlusPlus"
  | .minusMinus => "MinusMinus"
  | .comma => "Comma"
  | .arrowStar => "ArrowStar"
  | .arrow => "Arrow"
  | .call => "Call"
  | .subscript => "Subscript"
  | .conditional => "Conditional"
  | .coawait => "Coawait"

/-- The operator of this name, or `none`. -/
def ofName (word : String) : Operator :=
  (values.find? fun op => op.name == word).getD .none

/-- The operand counts an operator of this kind can be declared with. -/
def arity? : Operator → Option Arity
  | .none => Option.none
  | .new | .delete | .arrayNew | .arrayDelete | .plus | .minus | .star | .amp | .call => some .both
  | .tilde | .exclaim | .plusPlus | .minusMinus | .arrow | .coawait => some .unary
  | .slash | .percent | .caret | .pipe | .equal | .less | .greater | .plusEqual | .minusEqual
  | .starEqual | .slashEqual | .percentEqual | .caretEqual | .ampEqual | .pipeEqual | .lessLess
  | .greaterGreater | .lessLessEqual | .greaterGreaterEqual | .equalEqual | .exclaimEqual
  | .lessEqual | .greaterEqual | .spaceship | .ampAmp | .pipePipe | .comma | .arrowStar
  | .subscript | .conditional => some .binary

/-- The operator with exactly this spelling, or `none`. -/
def ofSpelling (text : String) : Operator :=
  (values.find? fun op => op.spelling == text).getD .none

/-- The operator that a function of this name declares, as in `operator+=` or `operator new []`. -/
def ofFunctionName? (name : String) : Option Operator :=
  match Text.afterStart? "operator".toList name.toList with
  | Option.none => Option.none
  | some rest =>
    match ofSpelling (String.ofList (Text.squash rest)) with
    | .none => Option.none
    | op => some op

/-- An operator is found again by its spelling. -/
theorem ofSpelling_spelling (op : Operator) : ofSpelling op.spelling = op := by
  cases op <;> decide +kernel

/-- An operator is found again by its name. -/
theorem ofName_name (op : Operator) : ofName op.name = op := by
  cases op <;> decide +kernel

end Operator

end CppReflect
