import CppReflect.Query.Template

/-!
# Overload resolution

Out of some candidates the one is picked that can be called with arguments of given types at the
least cost. Function templates among the candidates are instantiated first, with template arguments
that are given or deduced from the types.
-/

namespace CppReflect

namespace Overload

/-- How an argument becomes a parameter. -/
inductive Conversion where
  | exact
  | arithmetic
  | derivedToBase
deriving DecidableEq, Inhabited, Repr

/-- The cost of a conversion. -/
def Conversion.cost : Conversion → Nat
  | .exact => 0
  | .arithmetic => 1
  | .derivedToBase => 2

/-! ## Conversions -/

/-- What a reference type refers to, and any other type itself. -/
def referred (t : TypeId) : ModelM TypeId := Model.askAlong (fun _ => [t]) (·.nonReference t)

/-- The type of values of a type: without references, typedefs and qualifiers around it. -/
def valueType (t : TypeId) : ModelM TypeId := do
  Model.unqualified (← Model.canonical (← referred t))

/-- The class that a class type or a pointer to one names. -/
def classBehind? (t : TypeId) : ModelM (Option DeclId) := do
  let target ←
    match ((← get).node t).kind with
    | .pointer pointee => valueType pointee
    | _ => pure t
  match ((← get).node target).kind with
  | .record d => return some d
  | _ => return none

/-- The conversion of an argument to a parameter, if there is one. -/
def conversion? (arg param : TypeId) : ModelM (Option Conversion) := do
  let arg ← valueType arg
  let param ← valueType param
  let m ← get
  if arg = param then return some .exact
  else if (m.isBuiltin arg || m.isEnum arg) && m.isBuiltin param then return some .arithmetic
  else
    match ← classBehind? arg with
    | none => return none
    | some derived =>
      match ← classBehind? param with
      | none => return none
      | some base =>
        let m ← get
        return if m.isPointer arg == m.isPointer param && m.isDerivedFrom derived base then
          some .derivedToBase
        else none

/-- The cost of converting arguments to the parameters at the same places. -/
def conversionCost? : List TypeId → List TypeId → ModelM (Option Nat)
  | param :: params, arg :: args => do
    match ← conversion? arg param with
    | none => return none
    | some c => return (← conversionCost? params args).map (c.cost + ·)
  | _, _ => return some 0

/-- The function can be called with a number of arguments. -/
def acceptsCount (info : FunctionInfo) (count : Nat) : Bool :=
  info.minRequiredArgs ≤ count && (count ≤ info.params.length || info.variadic)

/-- The cost of calling a function with arguments of some types, if that is possible. -/
def cost? (args : List TypeId) (func : DeclId) : ModelM (Option Nat) := do
  match (← get).function? func with
  | none => return none
  | some info =>
    if acceptsCount info args.length then
      conversionCost? (info.params.map ParamInfo.type) args
    else return none

/-! ## Candidates -/

/-- A candidate whose template arguments are known. -/
inductive Candidate where
  | function (d : DeclId)
  | template (d : DeclId) (args : List TemplateArg)
deriving DecidableEq, Inhabited, Repr

/-- The type without reference and qualifiers. -/
def stripped (t : TypeId) : ModelM TypeId := do Model.unqualified (← referred t)

/-- The stripped type of the first argument that is passed to a parameter spelled like a template
parameter. -/
def deduce? (name : String) : List TypeId → List TypeId → ModelM (Option TypeId)
  | param :: params, arg :: args => do
    let spelled ← stripped param
    if (← get).typeText spelled = name then return some (← stripped arg)
    else deduce? name params args
  | _, _ => return none

/-- The template arguments for some template parameters, all of them deduced. -/
def deduceAll? (params args : List TypeId) : List String → ModelM (Option (List TemplateArg))
  | [] => return some []
  | name :: names => do
    match ← deduce? name params args with
    | none => return none
    | some t => return (← deduceAll? params args names).map (.ofType t :: ·)

/-- The candidate that a handle names. The arguments that are given come first, and those for the
other template parameters are deduced. -/
def candidate? (given : List TemplateArg) (args : List TypeId) (h : Handle) :
    ModelM (Option Candidate) := do
  let m ← get
  match m.declOfHandle? h with
  | none => return none
  | some d =>
    match (m.decl d).kind with
    | .function _ => return some (.function d)
    | .functionTemplate info =>
      match info.pattern with
      | none => return none
      | some pattern =>
        let names := (info.params.drop given.length).map TemplateParam.name
        let params := ((m.function? pattern).elim [] FunctionInfo.params).map ParamInfo.type
        return (← deduceAll? params args names).map fun rest => .template d (given ++ rest)
    | _ => return none

/-- The function that a candidate stands for, if its template can be instantiated. An instantiation
that is given up in the middle leaves nothing to choose from. -/
def Candidate.function? : Candidate → ServiceM (Option DeclId)
  | .function d => return some d
  | .template d args =>
    tryCatch (some <$> Service.instantiateFunction d args) fun e =>
      if e = .excessive then throw e else return none

/-- The answers of a computation that are there, in the order of their inputs. -/
def filterMapM {M : Type → Type} [Monad M] {α β : Type} (f : α → M (Option β)) :
    List α → M (List β)
  | [] => return []
  | a :: rest => do
    let found ← f a
    let others ← filterMapM f rest
    return (found.elim others (· :: others))

/-! ## The best one -/

/-- The best function so far with its cost, and whether another one costs the same. -/
structure Standing where
  best : Option (Nat × DeclId) := none
  tied : Bool := false
deriving DecidableEq, Inhabited, Repr

/-- The standing once a function with its cost is compared. -/
def Standing.add (s : Standing) (cost : Nat) (func : DeclId) : Standing :=
  match s.best with
  | none => ⟨some (cost, func), false⟩
  | some (bestCost, best) =>
    if cost = bestCost ∧ best ≠ func then { s with tied := true }
    else if bestCost ≤ cost then s
    else ⟨some (cost, func), false⟩

/-- The one function that is best. -/
def Standing.winner? (s : Standing) : Option DeclId :=
  if s.tied then none else s.best.map Prod.snd

/-- The one function that can be called at the least cost. -/
def cheapest? (args : List TypeId) : List DeclId → Standing → ModelM (Option DeclId)
  | [], s => return s.winner?
  | func :: rest, s => do
    match ← cost? args func with
    | none => cheapest? args rest s
    | some cost => cheapest? args rest (s.add cost func)

/-- The one candidate that can be called with arguments of some types at the least cost. Several
that cost the same are no answer, and neither is a type handle that names no type. -/
def best? (candidates : List Handle) (given args : List Query.ArgRequest) :
    ServiceM (Option DeclId) := do
  let m ← Service.model
  match Query.templateArgs? m given, args.mapM fun a => m.typeOfHandle? a.type with
  | some given, some args =>
    let prepared ← Service.onModel (filterMapM (candidate? given args) candidates)
    let functions ← filterMapM Candidate.function? prepared
    Service.onModel (cheapest? args functions {})
  | _, _ => return none

end Overload

end CppReflect
