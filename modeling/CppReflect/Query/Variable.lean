import CppReflect.Query.Function

/-!
# Questions about variables

Data members, variables and enumerators.
-/

namespace CppReflect.Query

/-- What is listed for the class that a handle names. -/
def listOfRecord (m : Model) (scope : Handle) (list : DeclId → List DeclId) : List DeclId :=
  (recordAt? m scope).elim [] fun r => list r.1

/-- The fields of a class in the order of their declaration. -/
def dataMembers (m : Model) (scope : Handle) : List DeclId := listOfRecord m scope m.fields

/-- The static data members of a class in the order of their declaration. -/
def staticDataMembers (m : Model) (scope : Handle) : List DeclId :=
  listOfRecord m scope m.staticDataMembers

/-- The enumerators of the enumerations in a class, those of scoped ones only if asked for. -/
def enumConstantMembers (m : Model) (scope : Handle) (withScoped : Bool) : List DeclId :=
  listOfRecord m scope fun record =>
    ((m.decl record).members.map m.decl).flatMap fun d =>
      match d.enum? with
      | some info => if withScoped || !info.isScoped then d.members else []
      | none => []

/-- The field that a name means in a scope. -/
def dataMemberNamed? (m : Model) (name : String) (parent : Handle) : Option DeclId := do
  let found ← (m.lookupNamed name (← plainScope? m parent)).found?
  if (m.decl found).var?.any VarInfo.isField then some found else none

/-- The declared type of a variable, field or enumerator. -/
def variableType (m : Model) (var : Handle) : Handle :=
  typeHandleOf <| (m.declOfHandle? var).bind fun d =>
    match (m.decl d).kind with
    | .variableDecl info => some info.type
    | .enumConstant _ type => some type
    | _ => none

/-- The handle names a variable or field that passes the test. -/
def variableIs (m : Model) (var : Handle) (p : VarInfo → Bool) : Bool :=
  declIs m var fun d => d.var?.any p

/-- A variable or field with an access. -/
def isVariableWith (access : Access) (m : Model) (var : Handle) : Bool :=
  declIs m var fun d => d.var?.isSome && d.access = access

/-- A variable that is no field. -/
def isStaticVariable (m : Model) (var : Handle) : Bool := variableIs m var fun v => !v.isField

/-- A variable of a constant type, typedefs looked through. -/
def isConstVariable (m : Model) (var : Handle) : Bool :=
  variableIs m var fun v => (m.desugared v.type).quals.contains .const

/-- The way of `isConstVariable`. -/
def wayToVariableType (m : Model) (var : Handle) : List TypeId :=
  ((m.declOfHandle? var).bind fun d => (m.decl d).var?).elim [] fun v => [v.type]

/-! ## Enumerators -/

/-- The enumerators of an enumeration. -/
def enumConstants (m : Model) (scope : Handle) : List DeclId :=
  (m.declOfHandle? scope).elim [] fun d =>
    if (m.decl d).enum?.isSome then (m.decl d).members else []

/-- The value and the type of the enumerator that a handle names. -/
def enumConstantAt? (m : Model) (scope : Handle) : Option (Int64 × TypeId) :=
  (m.declOfHandle? scope).bind fun d =>
    match (m.decl d).kind with
    | .enumConstant value type => some (value, type)
    | _ => none

/-- The type of an enumerator. -/
def enumConstantType (m : Model) (scope : Handle) : Handle :=
  typeHandleOf ((enumConstantAt? m scope).map Prod.snd)

/-- The value of an enumerator; zero for anything else. -/
def enumConstantValue (m : Model) (scope : Handle) : Int64 :=
  (enumConstantAt? m scope).elim 0 Prod.fst

end CppReflect.Query
