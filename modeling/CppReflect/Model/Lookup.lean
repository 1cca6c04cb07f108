import CppReflect.Model.Print
import CppReflect.Name

/-!
# Looking names up

A name is looked up in a scope, in its base classes and in the namespaces that its using-directives
nominate, and a qualified name segment by segment. A segment with template arguments names the
specialization whose printed arguments are the same up to blanks.
-/

namespace CppReflect

/-- What a name was found to mean. -/
inductive Lookup where
  | notFound
  | found (d : DeclId)
  /-- Several declarations have the name. -/
  | ambiguous
deriving DecidableEq, Inhabited, Repr

/-- The one declaration that was found. -/
def Lookup.found? : Lookup → Option DeclId
  | .found d => some d
  | .notFound | .ambiguous => none

namespace Model

/-- The first answer that is not empty. -/
def firstNonempty {α β : Type} (f : α → List β) : List α → List β
  | [] => []
  | x :: rest => if (f x).isEmpty then firstNonempty f rest else f x

/-- The declarations that a name means in a scope, looked for in bases to the depth `fuel`. -/
def lookupInFrom (m : Model) (name : String) : Nat → DeclId → List DeclId
  | 0, _ => []
  | fuel + 1, scope =>
    let direct := m.membersNamed scope name
    if !direct.isEmpty then direct
    else
      let inherited := firstNonempty (m.lookupInFrom name fuel) (m.baseRecords scope)
      if !inherited.isEmpty then inherited
      else firstNonempty (fun s => m.membersNamed s name) (m.decl scope).usingDirectives

/-- The declarations that a name means in a scope: its members, or else what the name means in the
first base class where it means something, or else the members of the first nominated namespace
that has some. -/
def lookupIn (m : Model) (scope : DeclId) (name : String) : List DeclId :=
  m.lookupInFrom name m.declFuel scope

/-- The scope that a declaration opens for the next segment, looking through typedefs. -/
def scopeTarget (m : Model) (d : DeclId) : DeclId :=
  match (m.decl d).kind with
  | .typedef underlying =>
    match m.kindOf underlying with
    | .record r | .enum r => r
    | _ => d
  | _ => d

/-- The specializations of all templates among the declarations. -/
def specializationsOf (m : Model) (ds : List DeclId) : List DeclId :=
  ds.flatMap fun d => (m.decl d).template?.elim [] TemplateInfo.specializations

/-- Looks up one segment of a name. -/
def lookupSegment (m : Model) (scope : DeclId) (segment : String) : Lookup :=
  let (base, args) := Name.templateId segment
  let candidates := m.lookupIn scope base
  match args with
  | some args =>
    let wanted := Text.squashed args
    let found := (m.specializationsOf candidates).find? fun s =>
      Text.squashed (m.argsText ((m.templateArgs? s).getD [])) == wanted
    found.elim .notFound .found
  | none =>
    match candidates with
    | [] => .notFound
    | first :: rest => if rest.all (· == first) then .found first else .ambiguous

/-- Looks up the segments one in the other. -/
def lookupSegments (m : Model) (scope : DeclId) : List String → Lookup
  | [] => .notFound
  | [last] => m.lookupSegment scope last
  | segment :: rest =>
    match m.lookupSegment scope segment with
    | .found d => m.lookupSegments (m.scopeTarget d) rest
    | other => other

/-- Looks up a name such as `N::A<int>::f` in a scope; a name that starts with `::` is looked up in
the translation unit. -/
def lookupNamed (m : Model) (name : String) (scope : DeclId) : Lookup :=
  let cs := Text.trim name.toList
  let (scope, cs) :=
    match Text.afterStart? [':', ':'] cs with
    | some rest => (root, rest)
    | none => (scope, cs)
  m.lookupSegments scope ((Name.segments cs).map String.ofList)

/-- The declaration declares a type. -/
def isTypeDecl (m : Model) (d : DeclId) : Bool :=
  match (m.decl d).kind with
  | .record _ | .enum _ | .typedef _ => true
  | _ => false

/-- The type that a name means in a context: the name is looked up in the context and in the scopes
around it until it means exactly one declaration, and that one declares a type. -/
def resolveTypeName? (m : Model) (name : String) (context : DeclId) : Option DeclId :=
  (context :: m.ancestors context).findSome? fun scope =>
    match m.lookupNamed name scope with
    | .found d => if m.isTypeDecl d then some d else none
    | _ => none

end Model

end CppReflect
