import CppReflect.Proofs.Ast.Sparing

/-!
# The ledger of a dump

A dump learns of functions on two occasions: at the node of a function, and behind the members of a
class, which gets the members that the compiler adds. A visit can keep a ledger of these occasions
while it does what it does without one. What happens from one entry to the next leaves alone what is
known of functions, so whatever becomes of a function is told by the entries.
-/

namespace CppReflect.Ast

/-- An occasion to learn of a function. -/
inductive Deed where
  /-- The node of a function, with its key if it belongs to a template. -/
  | function (node : Json) (scope : DeclId) (access : Access) (key? : Option String)
  /-- The end of a class. -/
  | implicitMembers (record : DeclId) (data : Json)

/-- What is done then. -/
def Deed.perform (source : Source) : Deed → IngestM PUnit
  | .function node scope access key? => do
    let _ ← functionDecl source node scope access key?
  | .implicitMembers record data => onModel (declareImplicitMembers record data)

/-- An entry of a ledger: an occasion, and the progress up to there. -/
structure Entry where
  source : Source
  deed : Deed
  before : Progress

/-- The model behind an entry. -/
def Entry.after (e : Entry) : Model := ((e.deed.perform e.source).run.run e.before).2.model

/-- The entries lead from one model to another: functions are left alone in between. -/
def Leads : Model → List Entry → Model → Prop
  | m, [], m' => m.Spares m'
  | m, e :: entries, m' => m.Spares e.before.model ∧ Leads e.after entries m'

namespace Leads

variable {l m n : Model} {e : Entry} {entries entries' : List Entry}

theorem of_spares (hlm : l.Spares m) (hmn : Leads m entries n) : Leads l entries n := by
  cases entries with
  | nil => exact hlm.trans hmn
  | cons e entries => exact ⟨hlm.trans hmn.1, hmn.2⟩

theorem append (hlm : Leads l entries m) (hmn : Leads m entries' n) :
    Leads l (entries ++ entries') n := by
  induction entries generalizing l with
  | nil => exact hmn.of_spares hlm
  | cons e entries ih => exact ⟨hlm.1, ih hlm.2⟩

/-- What is in front of an entry leads to it, and what is behind it leads on. -/
theorem split (h : Leads l (entries ++ e :: entries') n) :
    Leads l entries e.before.model ∧ Leads e.after entries' n := by
  induction entries generalizing l with
  | nil => exact h
  | cons e entries ih => exact ⟨⟨h.1, (ih h.2).1⟩, (ih h.2).2⟩

end Leads

/-- The model behind entries that start from a model. -/
def standing (m : Model) (entries : List Entry) : Model := entries.getLast?.elim m Entry.after

namespace Leads

variable {l n : Model} {entries entries' : List Entry}

theorem to_standing (h : Leads l (entries ++ entries') n) :
    Leads l entries (standing l entries) := by
  rcases List.eq_nil_or_concat entries with rfl | ⟨front, e, rfl⟩
  · exact Model.SparesBut.refl l
  · rw [List.concat_eq_append, List.append_assoc] at h
    rw [List.concat_eq_append, standing, List.getLast?_concat]
    exact h.split.1.append ⟨Model.SparesBut.refl _, Model.SparesBut.refl _⟩

theorem of_standing (h : Leads l (entries ++ entries') n) :
    Leads (standing l entries) entries' n := by
  rcases List.eq_nil_or_concat entries with rfl | ⟨front, e, rfl⟩
  · exact h
  · rw [List.concat_eq_append, List.append_assoc] at h
    rw [List.concat_eq_append, standing, List.getLast?_concat]
    exact h.split.2

end Leads

/-! ## Entries -/

namespace Entry

variable {e : Entry} {d : DeclId} {key : String} {h : FunctionHead} {n : FunctionNode}

/-- What the function that is entered is declared with, if that can be read. -/
def head? (e : Entry) : Option FunctionHead :=
  match e.deed with
  | .function node scope _ _ => ((functionHead e.source node scope).run.run e.before).1.toOption
  | .implicitMembers _ _ => none

/-- The key of the function that is entered. -/
def key? (e : Entry) : Option String :=
  match e.deed with
  | .function _ _ _ key? => e.head?.map fun h => key?.getD h.key
  | .implicitMembers _ _ => none

/-- What the node that is entered says of the function. -/
def states? (e : Entry) : Option FunctionNode :=
  match e.deed with
  | .function node _ _ _ => e.head?.map fun h => h.states node
  | .implicitMembers _ _ => none

/-- The declaration that the node is merged into, if there is one under its key. -/
def target? (e : Entry) : Option DeclId := e.key?.bind e.before.model.keyed?

/-- The node of a function is declared once it has been read what it is declared with. -/
theorem after_function {source : Source} {node : Json} {scope : DeclId} {access : Access}
    {key? : Option String} {p : Progress} :
    after ⟨source, .function node scope access key?, p⟩ =
      match (functionHead source node scope).run.run p with
      | (.ok h, p') => ((functionBody node access key? h).run.run p').2.model
      | (.error _, p') => p'.model := by
  change ((functionDecl source node scope access key? >>= fun _ => pure PUnit.unit).run.run
    p).2.model = _
  rw [functionDecl_eq, bind_assoc, run_bind]
  rcases (functionHead source node scope).run.run p with ⟨e | h, p'⟩
  · rfl
  · dsimp only
    rw [run_bind]
    rcases (functionBody node access key? h).run.run p' with ⟨_ | _, _⟩ <;> rfl

/-- Either there is nothing to declare a function with, or one is declared with what has been
read. -/
theorem read_cases (e : Entry) :
    (e.key? = none ∧ e.before.model.Spares e.after) ∨
      ∃ node access given h p', e.before.model.Interned p'.model ∧ e.head? = some h ∧
        e.key? = some (given.getD h.key) ∧ e.states? = some (h.states node) ∧
        e.after = ((functionBody node access given h).run.run p').2.model := by
  obtain ⟨source, deed, p⟩ := e
  cases deed with
  | implicitMembers record data => exact .inl ⟨rfl, declareImplicitMembers_sparing record data _⟩
  | function node scope access given =>
      have hinterned := functionHead_along source node scope p
      have hhead : head? ⟨source, .function node scope access given, p⟩ =
        ((functionHead source node scope).run.run p).1.toOption := rfl
      rcases hrun : (functionHead source node scope).run.run p with ⟨e | h, p'⟩
      · rw [hrun] at hhead hinterned
        refine .inl ⟨congrArg (Option.map _) hhead, ?_⟩
        rw [after_function, hrun]
        exact hinterned.spares
      · rw [hrun] at hhead hinterned
        refine .inr ⟨node, access, given, h, p', hinterned, hhead, congrArg (Option.map _) hhead,
          congrArg (Option.map _) hhead, ?_⟩
        rw [after_function, hrun]

/-- A node whose key is bound is merged into the declaration there, and into no other one. -/
theorem merges (htarget : e.target? = some d) :
    e.before.model.SparesBut (some d) e.after ∧ ∃ n, e.states? = some n ∧
      (e.after.function? d).map FunctionInfo.bare =
        (e.before.model.function? d).map fun f => (mergeFunction false n f).bare := by
  obtain ⟨hkey, -⟩ | ⟨node, access, given, h, p', hread, -, hkey, hstates, hafter⟩ := e.read_cases
  · rw [target?, hkey] at htarget
    cases htarget
  · rw [target?, hkey, Option.bind_some, ← hread.keyed?_eq] at htarget
    obtain ⟨q, hbody, hspares, hmerged⟩ := functionBody_merges node access htarget
    rw [hafter, hbody, ← hread.function?_eq]
    exact ⟨hread.spares.trans hspares, h.states node, hstates, hmerged⟩

/-- A node whose key is free declares a new function. -/
theorem declares (hkey : e.key? = some key) (hread : e.head? = some h)
    (hfree : e.before.model.keyed? key = none) :
    e.before.model.Spares e.after ∧ ∃ d f, e.after.keyed? key = some d ∧
      e.after.function? d = some f ∧ f.variadic = h.proto.any FunctionProto.variadic ∧
      f.method = h.method := by
  obtain ⟨hkey', -⟩ | ⟨node, access, given, h', p', hinterned, hread', hkey', -, hafter⟩ :=
    e.read_cases
  · cases hkey'.symm.trans hkey
  · cases hread'.symm.trans hread
    cases hkey'.symm.trans hkey
    rw [← hinterned.keyed?_eq] at hfree
    obtain ⟨q, f, hbody, hspares, hkeyed, hf, hvariadic, hmethod⟩ :=
      functionBody_declares node access hfree
    rw [hafter, hbody]
    exact ⟨hinterned.spares.trans hspares, _, f, hkeyed, hf, hvariadic, hmethod⟩

/-- An entry leaves all functions alone but for the one that its node is merged into. -/
theorem sparesBut (e : Entry) : e.before.model.SparesBut e.target? e.after := by
  cases htarget : e.target? with
  | some d => exact (merges htarget).1
  | none =>
      obtain ⟨-, hspares⟩ | ⟨node, access, given, h, p', -, hread, hkey, -, -⟩ := e.read_cases
      · exact hspares
      · rw [target?, hkey, Option.bind_some] at htarget
        exact (declares hkey hread htarget).1

end Entry

/-! ## What becomes of keys and functions -/

namespace Leads

variable {m m' : Model} {entries : List Entry}

theorem extendsApart (h : Leads m entries m') : m.ExtendsApart m' := by
  induction entries generalizing m with
  | nil => exact h.toExtendsApart
  | cons e entries ih =>
      exact (h.1.toExtendsApart.trans e.sparesBut.toExtendsApart).trans (ih h.2)

/-- What stays true of a function with each node that is merged into it, stays true. -/
theorem function_invariant {d : DeclId} {P : FunctionInfo → Prop} (h : Leads m entries m')
    (hbare : ∀ f f', f'.bare = f.bare → P f → P f')
    (hmerge : ∀ e ∈ entries, ∀ n, e.target? = some d → e.states? = some n →
      ∀ f, P f → P (mergeFunction false n f))
    {f : FunctionInfo} (hf : m.function? d = some f) (hP : P f) :
    ∃ f', m'.function? d = some f' ∧ P f' := by
  have hspared : ∀ {m m' : Model} {but f}, m.SparesBut but m' → some d ≠ but →
      m.function? d = some f → P f → ∃ f', m'.function? d = some f' ∧ P f' := by
    intro m m' but f hspares hd hf hP
    obtain ⟨f', hf', hsame⟩ := hspares.functions d f hd hf
    exact ⟨f', hf', hbare f f' hsame hP⟩
  -- `P` holds in front of every entry of what is known there
  induction entries generalizing m f with
  | nil => exact hspared h nofun hf hP
  | cons e entries ih =>
      obtain ⟨f₁, hf₁, hP₁⟩ := hspared h.1 nofun hf hP
      obtain ⟨f₂, hf₂, hP₂⟩ : ∃ f₂, e.after.function? d = some f₂ ∧ P f₂ := by
        by_cases htarget : e.target? = some d
        · obtain ⟨-, n, hstates, hmerged⟩ := Entry.merges htarget
          rw [hf₁, Option.map_some, Option.map_eq_some_iff] at hmerged
          obtain ⟨f₂, hf₂, hsame⟩ := hmerged
          have hP₂ := hmerge e List.mem_cons_self n htarget hstates f₁ hP₁
          exact ⟨f₂, hf₂, hbare _ f₂ hsame hP₂⟩
        · exact hspared e.sparesBut (Ne.symm htarget) hf₁ hP₁
      exact ih h.2 (fun e he => hmerge e (List.mem_cons_of_mem _ he)) hf₂ hP₂

end Leads

/-! ## Keeping a ledger -/

/-- The progress of a dump, and the entries so far. -/
structure Account where
  progress : Progress
  entries : List Entry

/-- A step through a dump that keeps a ledger. -/
abbrev LedgerM := ExceptT IngestError (StateM Account)

/-- A step that enters nothing. -/
def unentered {α : Type} (x : IngestM α) : LedgerM α :=
  ExceptT.mk <| modifyGet fun a =>
    let (outcome, progress) := x.run.run a.progress
    (outcome, { a with progress })

instance : MonadLift IngestM LedgerM := ⟨unentered⟩

/-- Enters an occasion. -/
def enter (source : Source) (deed : Deed) : LedgerM PUnit :=
  modifyThe Account fun a => { a with entries := a.entries ++ [⟨source, deed, a.progress⟩] }

/-- A visitor that keeps a ledger. -/
abbrev LedgerVisitor := Json → DeclId → Access → LedgerM PUnit

/-! ### The handlers

Each does what the handler of its name does, and enters the occasions on its way. -/

section Handlers

variable (visit : LedgerVisitor) (source : Source)

/-- The occasion is entered before anything is read. -/
def functionDeclEntered (node : Json) (scope : DeclId) (access : Access) (key? : Option String) :
    LedgerM DeclId := do
  enter source (.function node scope access key?)
  functionDecl source node scope access key?

/-- Says of a class what its node says. -/
def recordFacts (node : Json) (parent d : DeclId) : ModelM PUnit := do
  let bases ← baseSpecifiers node parent
  let data := (node.get? "definitionData").getD .null
  Model.modifyRecord d fun info =>
    { info with
      complete := true
      bases
      aggregate := flag data "isAggregate"
      pod := flag data "isPOD"
      polymorphic := flag data "isPolymorphic"
      isAbstract := flag data "isAbstract"
      lambda := flag data "isLambda" }

/-- The end of a class is entered behind its members. -/
def recordBodyEntered (node : Json) (parent d : DeclId) : LedgerM PUnit :=
  if flag node "completeDefinition" then do
    recordFacts node parent d
    visit node d (tagOf node).defaultAccess
    let data := (node.get? "definitionData").getD .null
    enter source (.implicitMembers d data)
    declareImplicitMembers d data
  else passOver node

def recordDeclEntered (node : Json) (parent : DeclId) (access : Access)
    (detached : Option Detached) : LedgerM DeclId := do
  let d ← recordHead node parent access detached
  recordBodyEntered visit source node parent d
  return d

def namespaceDeclEntered (node : Json) (parent : DeclId) : LedgerM PUnit := do
  let (d, _) ← upsert (keyIn parent ("ns:" ++ text node "name")) parent (text node "name") .none
    false (pure (.namespaceDecl (flag node "isInline")))
  visit node d .none

def specializationDeclEntered (node : Json) (template : DeclId) (access : Access) :
    LedgerM PUnit := do
  let (parent, detached) ← specializationHead node template
  let d ← recordDeclEntered visit source node parent access (some detached)
  listSpecialization template d

def classTemplateMemberEntered (parent : DeclId) (access : Access) (template : DeclId)
    (child : Json) : LedgerM PUnit := do
  observe child
  if has child "loc" then
    if kind child = "CXXRecordDecl" ∧ flag child "isImplicit" = false then
      let pattern ← recordDeclEntered visit source child parent access
        (some ⟨keyIn template "pattern", none⟩)
      Model.modifyTemplate template fun info => { info with pattern := some pattern }
    else if kind child = "ClassTemplateSpecializationDecl" ∧
        inMainFile source (← getThe Progress).file = true then
      specializationDeclEntered visit source child template access
    else
      passOver child

def classTemplateDeclEntered (node : Json) (parent : DeclId) (access : Access) :
    LedgerM PUnit := do
  let params ← templateParams node parent
  let (template, _) ← upsert (keyIn parent ("tmpl:" ++ text node "name")) parent
    (text node "name") access false (pure (.classTemplate { params }))
  (children node).forM (classTemplateMemberEntered visit source parent access template)

def functionTemplateMemberEntered (parent : DeclId) (access : Access) (template : DeclId)
    (pattern : Option DeclId) (child : Json) : LedgerM (Option DeclId) := do
  observe child
  if has child "loc" && isFunctionKind (kind child) then
    match pattern with
    | none =>
      let d ← functionDeclEntered source child parent access (some (keyIn template "pattern"))
      Model.modifyFunction d fun info => { info with templated := .functionTemplate }
      return some d
    | some pattern =>
      let args ← unentered (onModel (templateArgs child parent))
      let m ← unentered model
      let d ← functionDeclEntered source child parent access
        (some (specializationKey m template args))
      unentered (onModel (Model.modifyFunction d fun info =>
        { info with
          templated := .functionTemplateSpecialization
          specialization := .implicitInstantiation
          pattern := some pattern
          templateArgs := args }))
      listSpecialization template d
      return some pattern
  else
    unentered (passOver child)
    return pattern

def functionTemplateDeclEntered (node : Json) (parent : DeclId) (access : Access) :
    LedgerM PUnit := do
  let patternType :=
    (((children node).find? fun c => isFunctionKind (kind c)).bind qualType?).getD ""
  let params ← templateParams node parent
  let (template, _) ← upsert (keyIn parent ("ftmpl:" ++ text node "name" ++ ":" ++ patternType))
    parent (text node "name") access false (pure (.functionTemplate { params }))
  let pattern ← (children node).foldlM
    (functionTemplateMemberEntered source parent access template) none
  Model.modifyTemplate template fun info =>
    { info with pattern := info.pattern.orElse fun _ => pattern }

def declareEntered (scope : DeclId) (s : MemberState) (node : Json) : LedgerM MemberState := do
  match kind node with
  | "AccessSpecDecl" => return { s with access := Access.ofSpelling (text node "access") }
  | "LinkageSpecDecl" | "ExportDecl" => visit node scope s.access
  | "NamespaceDecl" => namespaceDeclEntered visit node scope
  | "UsingDirectiveDecl" =>
    onModel (usingDirective node scope)
    passOver node
  | "CXXRecordDecl" | "RecordDecl" =>
    if flag node "isImplicit" then
      passOver node
    else
      let d ← recordDeclEntered visit source node scope s.access none
      if (text node "name").isEmpty then
        return { s with unnamed := some d }
  | "ClassTemplateDecl" => classTemplateDeclEntered visit source node scope s.access
  | "ClassTemplateSpecializationDecl" =>
    let m ← model
    let template := (m.membersNamed scope (text node "name")).find? fun d =>
      match (m.decl d).kind with
      | .classTemplate _ => true
      | _ => false
    match template with
    | some template => specializationDeclEntered visit source node template s.access
    | none => passOver node
  | "FunctionTemplateDecl" => functionTemplateDeclEntered source node scope s.access
  | "EnumDecl" => enumDecl node scope s.access
  | "TypedefDecl" | "TypeAliasDecl" =>
    typedefDecl node scope s.access s.unnamed
    passOver node
  | "FieldDecl" =>
    fieldDecl node scope s.access
    passOver node
  | "VarDecl" =>
    varDecl node scope s.access
    passOver node
  | k =>
    if isFunctionKind k then
      let _ ← functionDeclEntered source node scope s.access none
    else
      passOver node
  return s

def visitMemberEntered (scope : DeclId) (s : MemberState) (node : Json) :
    LedgerM MemberState := do
  observe node
  if has node "loc" && inMainFile source (← getThe Progress).file then
    declareEntered visit source scope s node
  else
    passOver node
    return s

end Handlers

/-- The members of a node as they are visited, with a ledger kept. -/
def visitMembersEntered (source : Source) : Nat → LedgerVisitor
  | 0, _, _, _ => pure ()
  | fuel + 1, node, scope, access => do
    let _ ← (children node).foldlM
      (visitMemberEntered (visitMembersEntered source fuel) source scope) ⟨access, none⟩

/-- A whole dump as it is visited, with a ledger kept. -/
def visitDumpEntered (source : Source) (node : Json) : LedgerM Unit := do
  unentered (observe node)
  visitMembersEntered source (node.depth + 1) node Model.root .none

/-- The ledger of a dump that is read into a model. -/
def ledger (source : Source) (dump : Json) (m : Model) : List Entry :=
  ((visitDumpEntered source dump).run.run ⟨start m, []⟩).2.entries

/-! ## A ledger changes nothing -/

/-- The declarations are there, and so is whatever is under a key. -/
structure Knows (m : Model) (known : List DeclId) : Prop where
  keys : m.KeysDeclared
  decls : ∀ d ∈ known, m.HasDecl d

theorem Knows.of_extendsApart {m m' : Model} {known : List DeclId} (h : Knows m known)
    (hext : m.ExtendsApart m') : Knows m' known :=
  ⟨hext.declared h.keys, fun d hd => hext.extension.growsTo.hasDecl (h.decls d hd)⟩

/-- The class whose end is entered is there. -/
def Entry.Declared (e : Entry) : Prop :=
  match e.deed with
  | .function .. => True
  | .implicitMembers record _ => e.before.model.HasDecl record

/-- The step with a ledger comes to what the step without one comes to, and its entries lead from
the model before to the model behind, also when it gives up. They are of classes that are there, if
the declarations that the step is taken for are. -/
def Accounts {α : Type} (y : LedgerM α) (x : IngestM α) (known : List DeclId := []) : Prop :=
  ∀ p entries, ∃ more, y.run.run ⟨p, entries⟩ =
      ((x.run.run p).1, ⟨(x.run.run p).2, entries ++ more⟩) ∧
    Leads p.model more (x.run.run p).2.model ∧
    (Knows p.model known → ∀ e ∈ more, e.Declared)

namespace Accounts

variable {α β : Type} {known : List DeclId}

theorem unentered {x : IngestM α} (hx : Sparing x) : Accounts (unentered x) x known :=
  fun p entries => ⟨[], by rw [List.append_nil]; rfl, hx p, nofun⟩

theorem pure (a : α) : Accounts (pure a : LedgerM α) (pure a) known := unentered (Along.pure a)

theorem onModel {x : ModelM α} (hx : Model.Sparing x) :
    Accounts (Ast.unentered (Ast.onModel x)) (Ast.onModel x) known := unentered (Along.onModel hx)

/-- An occasion that is entered before it is taken. -/
theorem enter {source : Source} {deed : Deed} {x : IngestM α}
    (hx : ∀ p, (x.run.run p).2.model = ((deed.perform source).run.run p).2.model)
    (hdeed : ∀ p, Knows p.model known → Entry.Declared ⟨source, deed, p⟩) :
    Accounts (Ast.enter source deed >>= fun _ => Ast.unentered x) x known := by
  intro p entries
  refine ⟨[⟨source, deed, p⟩], rfl, ⟨Model.SparesBut.refl p.model, ?_⟩, fun hp e he => ?_⟩
  · rw [hx p]
    exact Model.SparesBut.refl _
  · exact List.mem_singleton.mp he ▸ hdeed p hp

/-- More declarations are known than the step is taken for. -/
theorem of_nil {y : LedgerM α} {x : IngestM α} (h : Accounts y x) : Accounts y x known := by
  intro p entries
  obtain ⟨more, hy, hleads, hdeclared⟩ := h p entries
  exact ⟨more, hy, hleads, fun hp => hdeclared ⟨hp.keys, nofun⟩⟩

/-- What the first step comes to is known to the next one. -/
theorem bind_known {y : LedgerM α} {x : IngestM α} {g : α → LedgerM β} {f : α → IngestM β}
    (learnt : α → List DeclId) (hx : Accounts y x known)
    (hlearnt : ∀ p a q, x.run.run p = (.ok a, q) → Knows q.model known →
      ∀ d ∈ learnt a, q.model.HasDecl d)
    (hf : ∀ a, Accounts (g a) (f a) (learnt a)) : Accounts (y >>= g) (x >>= f) known := by
  intro p entries
  obtain ⟨more, hy, hleads, hdeclared⟩ := hx p entries
  rw [run_bind, run_bind, hy]
  rcases hrun : x.run.run p with ⟨e | a, q⟩
  · -- it gives up, and what was entered until then stays
    rw [hrun] at hleads
    exact ⟨more, rfl, hleads, hdeclared⟩
  · rw [hrun] at hleads
    obtain ⟨more', hg, hleads', hdeclared'⟩ := hf a q (entries ++ more)
    refine ⟨more ++ more', by rw [← List.append_assoc]; exact hg, hleads.append hleads', ?_⟩
    intro hp e he
    have hq := hp.of_extendsApart hleads.extendsApart
    rcases List.mem_append.mp he with he | he
    · exact hdeclared hp e he
    · exact hdeclared' ⟨hq.keys, hlearnt p a q hrun hq⟩ e he

theorem bind {y : LedgerM α} {x : IngestM α} {g : α → LedgerM β} {f : α → IngestM β}
    (hx : Accounts y x known) (hf : ∀ a, Accounts (g a) (f a) known) :
    Accounts (y >>= g) (x >>= f) known :=
  hx.bind_known (fun _ => known) (fun _ _ _ _ hq => hq.decls) hf

theorem ite {c : Prop} [Decidable c] {y y' : LedgerM α} {x x' : IngestM α}
    (h : Accounts y x known) (h' : Accounts y' x' known) :
    Accounts (if c then y else y') (if c then x else x') known := by
  split
  · exact h
  · exact h'

theorem foldlM {g : β → α → LedgerM β} {f : β → α → IngestM β}
    (hf : ∀ b a, Accounts (g b a) (f b a) known) (l : List α) (b : β) :
    Accounts (l.foldlM g b) (l.foldlM f b) known := by
  induction l generalizing b with
  | nil => exact pure b
  | cons a l ih =>
      rw [List.foldlM_cons, List.foldlM_cons]
      exact (hf b a).bind ih

theorem forM {g : α → LedgerM PUnit} {f : α → IngestM PUnit}
    (hf : ∀ a, Accounts (g a) (f a) known) (l : List α) :
    Accounts (l.forM g) (l.forM f) known := by
  induction l with
  | nil => exact pure _
  | cons a l ih => exact (hf a).bind fun _ => ih

end Accounts

/-- A visitor that keeps a ledger of what the other one does. -/
def LedgerVisitor.Accounts (visit' : LedgerVisitor) (visit : Visitor) : Prop :=
  ∀ node scope access, Ast.Accounts (visit' node scope access) (visit node scope access)

section Handlers

variable {visit' : LedgerVisitor} {visit : Visitor} (hvisit : visit'.Accounts visit)
  (source : Source)

theorem functionDecl_accounts (node : Json) (scope : DeclId) (access : Access)
    (key? : Option String) : Accounts (functionDeclEntered source node scope access key?)
      (functionDecl source node scope access key?) := by
  refine Accounts.enter (fun p => ?_) fun _ _ => trivial
  change _ = ((functionDecl source node scope access key? >>= fun _ => pure PUnit.unit).run.run
    p).2.model
  rw [run_bind]
  rcases (functionDecl source node scope access key?).run.run p with ⟨_ | _, _⟩ <;> rfl

theorem recordFacts_sparing (node : Json) (parent d : DeclId) :
    Model.Sparing (recordFacts node parent d) :=
  (baseSpecifiers_interns node parent).sparing.bind fun _ => Model.modifyRecord_sparing d _

theorem recordBody_eq (visit : Visitor) (node : Json) (parent d : DeclId) :
    recordBody visit node parent d =
      if flag node "completeDefinition" then do
        onModel (recordFacts node parent d)
        visit node d (tagOf node).defaultAccess
        onModel (declareImplicitMembers d ((node.get? "definitionData").getD .null))
      else passOver node := rfl

include hvisit

theorem recordDecl_accounts (node : Json) (parent : DeclId) (access : Access)
    (detached : Option Detached) :
    Accounts (recordDeclEntered visit' source node parent access detached)
      (recordDecl visit node parent access detached) := by
  rw [recordDecl_eq]
  refine (Accounts.unentered (recordHead_sparing node parent access detached)).bind_known
    (fun d => [d]) ?_ fun d => ?_
  · rintro p d q hrun hq c hc
    obtain ⟨d', q', hrun', key, hkey⟩ := recordHead_run node parent access detached p
    cases hrun.symm.trans hrun'
    exact List.mem_singleton.mp hc ▸ hq.keys key d hkey
  refine Accounts.bind ?_ fun _ => Accounts.pure d
  rw [recordBody_eq]
  refine Accounts.ite ?_ (Accounts.unentered (passOver_along node))
  exact (Accounts.onModel (recordFacts_sparing node parent d)).bind fun _ =>
    (hvisit node d _).of_nil.bind fun _ => Accounts.enter (fun _ => rfl) fun _ hp =>
      hp.decls d List.mem_cons_self

theorem namespaceDecl_accounts (node : Json) (parent : DeclId) :
    Accounts (namespaceDeclEntered visit' node parent) (namespaceDecl visit node parent) :=
  (Accounts.onModel (upsert_sparing _ parent _ .none false (Model.Interns.pure _))).bind fun r =>
    hvisit node r.1 .none

theorem specializationDecl_accounts (node : Json) (template : DeclId) (access : Access) :
    Accounts (specializationDeclEntered visit' source node template access)
      (specializationDecl visit node template access) := by
  rw [specializationDecl_eq]
  exact (Accounts.unentered (specializationHead_sparing node template)).bind fun h =>
    (recordDecl_accounts hvisit source node h.1 access _).bind fun d =>
      Accounts.onModel (listSpecialization_sparing template d)

theorem classTemplateMember_accounts (parent : DeclId) (access : Access) (template : DeclId)
    (child : Json) :
    Accounts (classTemplateMemberEntered visit' source parent access template child)
      (classTemplateMember visit source parent access template child) := by
  refine (Accounts.unentered (observe_along child)).bind fun _ =>
    Accounts.ite (Accounts.ite ?_ ?_) (Accounts.pure _)
  · exact (recordDecl_accounts hvisit source child parent access _).bind fun d =>
      Accounts.onModel (Model.modifyTemplate_sparing template _)
  · refine (Accounts.unentered Along.progress).bind fun p => Accounts.ite ?_ ?_
    · exact specializationDecl_accounts hvisit source child template access
    · exact Accounts.unentered (passOver_along child)

theorem classTemplateDecl_accounts (node : Json) (parent : DeclId) (access : Access) :
    Accounts (classTemplateDeclEntered visit' source node parent access)
      (classTemplateDecl visit source node parent access) := by
  rw [classTemplateDecl_eq]
  refine (Accounts.onModel (templateParams_interns node parent).sparing).bind fun params => ?_
  refine (Accounts.onModel (upsert_sparing _ parent _ access false (Model.Interns.pure _))).bind
    fun r => ?_
  exact Accounts.forM (classTemplateMember_accounts hvisit source parent access r.1) (children node)

omit hvisit

theorem functionTemplateMember_accounts (parent : DeclId) (access : Access) (template : DeclId)
    (pattern : Option DeclId) (child : Json) :
    Accounts (functionTemplateMemberEntered source parent access template pattern child)
      (functionTemplateMember source parent access template pattern child) := by
  refine (Accounts.unentered (observe_along child)).bind fun _ => Accounts.ite ?_ ?_
  · cases pattern with
    | none =>
        refine (functionDecl_accounts source child parent access _).bind fun d => ?_
        refine Accounts.bind (Accounts.onModel (Model.modifyFunction_sparing d ?_)) fun _ =>
          Accounts.pure _
        exact fun _ => rfl
    | some pattern =>
        refine (Accounts.onModel (templateArgs_interns child parent).sparing).bind fun args => ?_
        refine (Accounts.unentered Along.model).bind fun m => ?_
        refine (functionDecl_accounts source child parent access _).bind fun d => ?_
        refine Accounts.bind (Accounts.onModel (Model.modifyFunction_sparing d ?_)) fun _ => ?_
        · exact fun _ => rfl
        · exact (Accounts.onModel (listSpecialization_sparing template d)).bind fun _ =>
            Accounts.pure _
  · exact (Accounts.unentered (passOver_along child)).bind fun _ => Accounts.pure _

theorem functionTemplateDecl_accounts (node : Json) (parent : DeclId) (access : Access) :
    Accounts (functionTemplateDeclEntered source node parent access)
      (functionTemplateDecl source node parent access) := by
  refine (Accounts.onModel (templateParams_interns node parent).sparing).bind fun params => ?_
  refine (Accounts.onModel (upsert_sparing _ parent _ access false (Model.Interns.pure _))).bind
    fun r => ?_
  refine (Accounts.foldlM (functionTemplateMember_accounts source parent access r.1)
    (children node) none).bind fun pattern => ?_
  exact Accounts.onModel (Model.modifyTemplate_sparing r.1 _)

include hvisit

theorem declare_accounts (scope : DeclId) (s : MemberState) (node : Json) :
    Accounts (declareEntered visit' source scope s node) (declare visit source scope s node) := by
  unfold declareEntered declare
  extract_lets finished' finished
  have hthen : ∀ {y : LedgerM PUnit} {x : IngestM PUnit}, Accounts y x →
      Accounts (y >>= finished') (x >>= finished) := fun h => h.bind fun _ => Accounts.pure s
  have hskip : Accounts (unentered (passOver node) >>= finished') (passOver node >>= finished) :=
    hthen (Accounts.unentered (passOver_along node))
  -- the cases are those of the kinds that the handler tells apart, in its order
  generalize kind node = k
  split
  next => exact Accounts.pure _
  next => exact hthen (hvisit node scope s.access)
  next => exact hthen (hvisit node scope s.access)
  next => exact hthen (namespaceDecl_accounts hvisit node scope)
  next => exact (Accounts.onModel (usingDirective_sparing node scope)).bind fun _ => hskip
  next =>
    refine Accounts.ite hskip ?_
    exact (recordDecl_accounts hvisit source node scope s.access none).bind fun d =>
      Accounts.ite (Accounts.pure _) (Accounts.pure s)
  next =>
    refine Accounts.ite hskip ?_
    exact (recordDecl_accounts hvisit source node scope s.access none).bind fun d =>
      Accounts.ite (Accounts.pure _) (Accounts.pure s)
  next => exact hthen (classTemplateDecl_accounts hvisit source node scope s.access)
  next =>
    refine (Accounts.unentered Along.model).bind fun m => ?_
    -- both look for the template in the same way
    extract_lets found found'
    have hfound : found = found' := rfl
    clear_value found found'
    subst hfound
    cases found with
    | some template =>
        exact hthen (specializationDecl_accounts hvisit source node template s.access)
    | none => exact hskip
  next => exact hthen (functionTemplateDecl_accounts source node scope s.access)
  next => exact hthen (Accounts.unentered (enumDecl_sparing node scope s.access))
  next =>
    exact (Accounts.unentered (typedefDecl_sparing node scope s.access s.unnamed)).bind
      fun _ => hskip
  next =>
    exact (Accounts.unentered (typedefDecl_sparing node scope s.access s.unnamed)).bind
      fun _ => hskip
  next => exact (Accounts.unentered (fieldDecl_sparing node scope s.access)).bind fun _ => hskip
  next => exact (Accounts.unentered (varDecl_sparing node scope s.access)).bind fun _ => hskip
  next =>
    have hfunction := (functionDecl_accounts source node scope s.access none).bind fun _ =>
      Accounts.pure s
    -- no other case is open to the handler without a ledger either
    cases hk : isFunctionKind k with
    | true =>
        simp only [*, ↓reduceIte]
        exact hfunction
    | false =>
        simp only [*, Bool.false_eq_true, ↓reduceIte]
        exact hskip

theorem visitMember_accounts (scope : DeclId) (s : MemberState) (node : Json) :
    Accounts (visitMemberEntered visit' source scope s node)
      (visitMember visit source scope s node) := by
  refine (Accounts.unentered (observe_along node)).bind fun _ =>
    (Accounts.unentered Along.progress).bind fun p => Accounts.ite ?_ ?_
  · exact declare_accounts hvisit source scope s node
  · exact (Accounts.unentered (passOver_along node)).bind fun _ => Accounts.pure s

end Handlers

/-- A ledger can be kept down to any depth. -/
theorem visitMembers_accounts (source : Source) (fuel : Nat) :
    (visitMembersEntered source fuel).Accounts (visitMembers source fuel) := by
  induction fuel with
  | zero => exact fun _ _ _ => Accounts.pure _
  | succ fuel ih =>
      intro node scope access
      exact (Accounts.foldlM (visitMember_accounts ih source scope) (children node) _).bind fun _ =>
        Accounts.pure _

theorem visitDump_accounts (source : Source) (node : Json) :
    Accounts (visitDumpEntered source node) (visitDump source node) :=
  (Accounts.unentered (observe_along node)).bind fun _ =>
    visitMembers_accounts source _ node Model.root .none

theorem visitDumpEntered_run (source : Source) (dump : Json) (m : Model) :
    (visitDumpEntered source dump).run.run ⟨start m, []⟩ =
        (((visitDump source dump).run.run (start m)).1,
          ⟨((visitDump source dump).run.run (start m)).2, ledger source dump m⟩) ∧
      Leads m (ledger source dump m) ((visitDump source dump).run.run (start m)).2.model ∧
      (m.KeysDeclared → ∀ e ∈ ledger source dump m, e.Declared) := by
  obtain ⟨entries, hrun, hleads, hdeclared⟩ := visitDump_accounts source dump (start m) []
  have hledger : ledger source dump m = entries := by
    unfold ledger
    rw [hrun, List.nil_append]
  rw [hledger]
  exact ⟨hrun, hleads, fun hm => hdeclared ⟨hm, nofun⟩⟩

/-- A class is there when its end is entered. -/
theorem ledger_declared {m : Model} (hm : m.KeysDeclared) (source : Source) (dump : Json) :
    ∀ e ∈ ledger source dump m, e.Declared :=
  (visitDumpEntered_run source dump m).2.2 hm

/-- The ledger of a dump leads to the model that the dump leaves, also when it is given up. -/
theorem ledger_leads (source : Source) (dump : Json) (m : Model) :
    Leads m (ledger source dump m) ((ingestNode source dump).run.run m).2 := by
  have hleads := (visitDumpEntered_run source dump m).2.1
  rw [run_ingestNode]
  rcases hrun : (visitDump source dump).run.run (start m) with ⟨_ | _, after⟩
  · rw [hrun] at hleads
    exact hleads
  · rw [hrun] at hleads
    exact hleads

/-! ## Several dumps -/

/-- The model that several dumps leave. -/
def ingestAll : List (Source × String) → Model → Model
  | [], m => m
  | (source, dump) :: rest, m => ingestAll rest ((ingest source dump).run.run m).2

/-- The ledgers of several dumps, one behind the other. -/
def history : List (Source × String) → Model → List Entry
  | [], _ => []
  | (source, dump) :: rest, m =>
    (Json.read? dump).elim [] (fun node => ledger source node m) ++
      history rest ((ingest source dump).run.run m).2

theorem history_leads (ingestions : List (Source × String)) (m : Model) :
    Leads m (history ingestions m) (ingestAll ingestions m) := by
  induction ingestions generalizing m with
  | nil => exact Model.SparesBut.refl m
  | cons ingestion rest ih =>
      obtain ⟨source, dump⟩ := ingestion
      refine Leads.append ?_ (ih ((ingest source dump).run.run m).2)
      unfold ingest
      cases Json.read? dump with
      | some node => exact ledger_leads source node m
      | none => exact Model.SparesBut.refl m

end CppReflect.Ast
