import CppReflect.Ast.Node
import CppReflect.Library.Manager

/-!
# Why a compiler service fails
-/

namespace CppReflect

/-- Why a compiler service fails. -/
inductive CompilerError where
  /-- A program cannot be started. -/
  | spawn (program : String)
  | compile (diagnostics : String)
  /-- A syntax tree is not the document it should be. -/
  | malformedTree
  | symbolNotFound (symbol : String)
  | invalidDecl
  | unsupported (reason : String)
  /-- A size, an offset or a place is a number that does not fit in 64 bits. -/
  | excessive
  | library (cause : LoadError)
deriving DecidableEq, Inhabited, Repr

namespace CompilerError

/-- The text of the error. -/
def message : CompilerError → String
  | .spawn program => "failed to run \x60" ++ program ++ "\x60"
  | .compile diagnostics => "compilation failed:\n" ++ diagnostics
  | .malformedTree => "malformed AST dump"
  | .symbolNotFound symbol => "symbol \x60" ++ symbol ++ "\x60 not found"
  | .invalidDecl => "declaration is not valid here"
  | .unsupported reason => reason
  | .excessive => "number does not fit in 64 bits"
  | .library cause => cause.message

/-- The error of a syntax tree that was given up. -/
def ofIngest : Ast.IngestError → CompilerError
  | .malformed => .malformedTree
  | .excessive => .excessive

end CompilerError

end CppReflect
