import CppReflect.Ast.Ingest

/-!
# Running the steps of a dump

What a step of a dump comes to when it is run on a given state of progress: its outcome, and the
state that it leaves also when it gives up.
-/

namespace CppReflect.Ast

variable {α β : Type} {p : Progress}

theorem run_pure (a : α) : (pure a : IngestM α).run.run p = (.ok a, p) := rfl

/-- A step that gives up is followed by nothing, whichever state the steps keep. -/
theorem run_bind {σ : Type} {s : σ} (x : ExceptT IngestError (StateM σ) α)
    (f : α → ExceptT IngestError (StateM σ) β) :
    (x >>= f).run.run s =
      match x.run.run s with
      | (.ok a, s') => (f a).run.run s'
      | (.error e, s') => (.error e, s') := by
  change (ExceptT.bindCont f ((x.run.run s).1)).run (x.run.run s).2 = _
  rcases x.run.run s with ⟨_ | _, _⟩ <;> rfl

theorem run_bind_of_ok {x : IngestM α} {f : α → IngestM β} {a : α} {p' : Progress}
    (hx : x.run.run p = (.ok a, p')) : (x >>= f).run.run p = (f a).run.run p' := by
  rw [run_bind, hx]

theorem run_bind_of_error {x : IngestM α} {f : α → IngestM β} {e : IngestError} {p' : Progress}
    (hx : x.run.run p = (.error e, p')) : (x >>= f).run.run p = (.error e, p') := by
  rw [run_bind, hx]

/-- Steps that come to an end have come to an end one after the other. -/
theorem run_bind_eq_ok {x : IngestM α} {f : α → IngestM β} {b : β} {p' : Progress}
    (h : (x >>= f).run.run p = (.ok b, p')) :
    ∃ a q, x.run.run p = (.ok a, q) ∧ (f a).run.run q = (.ok b, p') := by
  rw [run_bind] at h
  rcases hx : x.run.run p with ⟨e | a, q⟩
  · rw [hx] at h
    cases h
  · rw [hx] at h
    exact ⟨a, q, rfl, h⟩

/-- Steps that come to the same, followed by steps that come to the same from where they lead. -/
theorem run_bind_congr {x y : IngestM α} {f g : α → IngestM β} (hx : x.run.run p = y.run.run p)
    (hf : ∀ a p', y.run.run p = (.ok a, p') → (f a).run.run p' = (g a).run.run p') :
    (x >>= f).run.run p = (y >>= g).run.run p := by
  rcases hy : y.run.run p with ⟨e | a, p'⟩
  · rw [run_bind_of_error hy, run_bind_of_error (hx.trans hy)]
  · rw [run_bind_of_ok hy, run_bind_of_ok (hx.trans hy), hf a p' hy]

theorem run_onModel (x : ModelM α) :
    (onModel x).run.run p = (.ok (x.run p.model).1, { p with model := (x.run p.model).2 }) := rfl

theorem run_modelM_bind (x : ModelM α) (f : α → ModelM β) (m : Model) :
    (x >>= f).run m = (f (x.run m).1).run (x.run m).2 := rfl

/-! ## Declaring under a key -/

theorem upsert_of_keyed {m : Model} {key : String} {d : DeclId} (hkey : m.keyed? key = some d)
    (parent : DeclId) (name : String) (access : Access) (detached : Bool) (kind : ModelM DeclKind) :
    (upsert key parent name access detached kind).run m = ((d, false), m) := by
  unfold upsert
  rw [StateT.run_bind]
  simp only [StateT.run_get, pure_bind, hkey]
  rfl

/-- The declaration that is put under a key that was free. -/
def addition (parent : DeclId) (name : String) (access : Access) (detached : Bool)
    (kind : ModelM DeclKind) : ModelM DeclId :=
  kind >>= fun k =>
    if detached then Model.addDetached parent name access k else Model.addDecl parent name access k

theorem upsert_of_free {m : Model} {key : String} (hkey : m.keyed? key = none) (parent : DeclId)
    (name : String) (access : Access) (detached : Bool) (kind : ModelM DeclKind) :
    (upsert key parent name access detached kind).run m =
      let added := (addition parent name access detached kind).run m
      ((added.1, true), { added.2 with keys := (key, added.1) :: added.2.keys }) := by
  unfold upsert
  rw [StateT.run_bind]
  simp only [StateT.run_get, pure_bind, hkey]
  cases detached <;> rfl

/-- The key is bound then, to the declaration that is answered. -/
theorem upsert_keyed (m : Model) (key : String) (parent : DeclId) (name : String) (access : Access)
    (detached : Bool) (kind : ModelM DeclKind) :
    ((upsert key parent name access detached kind).run m).2.keyed? key =
      some ((upsert key parent name access detached kind).run m).1.1 := by
  cases hkey : m.keyed? key with
  | some d =>
      rw [upsert_of_keyed hkey]
      exact hkey
  | none =>
      rw [upsert_of_free hkey]
      exact List.lookup_cons_self

theorem run_upsert_keyed {key : String} {parent : DeclId} {name : String} {access : Access}
    {detached : Bool} {kind : ModelM DeclKind} {r : DeclId × Bool} {p' : Progress}
    (h : (onModel (upsert key parent name access detached kind)).run.run p = (.ok r, p')) :
    p'.model.keyed? key = some r.1 := by
  cases h
  exact upsert_keyed p.model key parent name access detached kind

/-! ## Parts of the handlers -/

/-- Declares a node inside a class template: its pattern, or a specialization in the main file. -/
def classTemplateMember (visit : Visitor) (source : Source) (parent : DeclId) (access : Access)
    (template : DeclId) (child : Json) : IngestM PUnit := do
  observe child
  if has child "loc" then
    if kind child = "CXXRecordDecl" ∧ flag child "isImplicit" = false then
      let pattern ← recordDecl visit child parent access (some ⟨keyIn template "pattern", none⟩)
      Model.modifyTemplate template fun info => { info with pattern := some pattern }
    else if kind child = "ClassTemplateSpecializationDecl" ∧
        inMainFile source (← getThe Progress).file = true then
      specializationDecl visit child template access
    else
      passOver child

theorem classTemplateDecl_eq (visit : Visitor) (source : Source) (node : Json) (parent : DeclId)
    (access : Access) :
    classTemplateDecl visit source node parent access = (do
      let params ← templateParams node parent
      let (template, _) ← upsert (keyIn parent ("tmpl:" ++ text node "name")) parent
        (text node "name") access false (pure (.classTemplate { params }))
      (children node).forM (classTemplateMember visit source parent access template)) := rfl

/-- A class among the members of a scope, as it is declared there. -/
def recordMember (visit : Visitor) (scope : DeclId) (s : MemberState) (node : Json) :
    IngestM MemberState := do
  if flag node "isImplicit" then
    passOver node
    return s
  else
    let d ← recordDecl visit node scope s.access none
    if (text node "name").isEmpty then return { s with unnamed := some d } else return s

/-! ## Whole dumps -/

/-- A dump is read into a model from a state in which nothing is known of it. -/
def start (m : Model) : Progress := ⟨m, none, [], []⟩

/-- The answer of a dump is the number of declarations that its visit has added. -/
theorem run_ingestNode (m : Model) (source : Source) (node : Json) :
    (ingestNode source node).run.run m =
      match (visitDump source node).run.run (start m) with
      | (.ok (), after) => (.ok (after.model.decls.size - m.decls.size), after.model)
      | (.error e, after) => (.error e, after.model) := by
  have hget : StateT.run (ExceptT.run (get : DumpM Model)) m = pure (Except.ok m, m) := rfl
  unfold ingestNode start
  rw [ExceptT.run_bind, StateT.run_bind, hget, pure_bind]
  dsimp only
  rcases (visitDump source node).run.run ⟨m, none, [], []⟩ with ⟨_ | _, p'⟩ <;> rfl

end CppReflect.Ast
