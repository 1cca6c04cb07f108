import CppReflect.Proofs.Model.Extension
import CppReflect.Proofs.Operation.Alike

/-!
# Questions keep handles

A handle names a declaration or a type by its place, and nothing if there is no such place. Whatever
is asked of a rehearsed interpreter, handles go on naming what they name, and what comes of the
question depends on nothing but what its handles name.
-/

namespace CppReflect

/-! ## What handles name -/

theorem placeOfHandle?_eq_some {size h place : Nat} (hplace : placeOfHandle? size h = some place) :
    place + 1 = h ∧ place < size := by
  unfold placeOfHandle? at hplace
  split at hplace
  next hbounds =>
    obtain rfl := Option.some.inj hplace
    omega
  next => cases hplace

/-- A handle names a declaration or a type only if its value, counted from one, is a place. -/
structure Model.GuardsHandles (m : Model) : Prop where
  decl : ∀ h d, m.declOfHandle? h = some d → d.handle = h ∧ m.HasDecl d
  type : ∀ h t, m.typeOfHandle? h = some t → t.handle = h ∧ m.HasType t

theorem Model.guardsHandles (m : Model) : m.GuardsHandles where
  decl h d hd := by
    obtain ⟨place, hplace, rfl⟩ := Option.map_eq_some_iff.mp hd
    exact placeOfHandle?_eq_some hplace
  type h t ht := by
    obtain ⟨place, hplace, rfl⟩ := Option.map_eq_some_iff.mp ht
    exact placeOfHandle?_eq_some hplace

section

variable {s : Session} {n : Nat} {i : Interpreter}

/-- The action puts a question to the interpreter and replies with the answer. -/
theorem Action.run_asked {absent : Reply} (hactive : s.registry.active? = some (n, i))
    (x : StateM Workbench Reply) :
    (do return (← Session.withBench x).getD absent : SessionM Reply).run s =
      ((x.run ⟨i, s.host⟩).1, s.putBack ⟨s.engine, n, (x.run ⟨i, s.host⟩).2⟩) := by
  change (let r := (Session.withBench x).run s; (r.1.getD absent, r.2)) = _
  rw [Session.withBench_of_active hactive]
  rfl

theorem Action.Agrees.run {a b : Arguments} {x y : Action} (h : x.Agrees i.model a b y)
    (hactive : s.registry.active? = some (n, i)) :
    (y.run.run s).2 = (x.run.run s).2 ∧ a.Matches b (x.run.run s).1 (y.run.run s).1 := by
  have hmodel : s.model? = some i.model := by rw [Session.model?, hactive]; rfl
  -- Actions of different kinds do not agree.
  cases x <;> cases y <;> try exact h.elim
  case read.read absent f absent' g =>
    change s = s ∧ a.Matches b ((s.model?.map f).getD absent) ((s.model?.map g).getD absent')
    rw [hmodel]
    exact ⟨rfl, h⟩
  case explore.explore absent way f absent' way' g =>
    obtain ⟨hway, hreply⟩ := h
    simp only [Action.run, Session.withModel, Action.run_asked hactive]
    refine ⟨?_, hreply⟩
    change s.putBack ⟨_, _, ⟨{ i with
      model := ((Model.lookThrough (way' i.model)).run i.model).2 }, _⟩⟩ = _
    rw [← hway]
    rfl
  case intern.intern absent f absent' g =>
    obtain ⟨hreply, hmodel⟩ := h
    simp only [Action.run, Session.withModel, Action.run_asked hactive]
    refine ⟨?_, hreply⟩
    change s.putBack ⟨_, _, ⟨{ i with model := (g.run i.model).2 }, _⟩⟩ = _
    rw [← hmodel]
    rfl
  case ask.ask absent f absent' g =>
    have hsame := h ⟨i, s.host⟩ rfl
    simp only [Action.run, Action.run_asked hactive]
    rw [hsame]
    exact ⟨rfl, .same _⟩
  case manage.manage f g =>
    cases h
    exact ⟨rfl, .same _⟩

end

/-- No argument is given. -/
def Arguments.missing : Arguments where
  decl _ := 0
  decls _ := []
  type _ := 0
  text _ := ""
  texts _ := []
  flag _ := false
  count _ := 0
  quals _ := .none
  operator _ := .none
  arity _ := .both
  interpreter _ := none
  templateArgs _ := []
  object _ := none
  arena _ := none

end CppReflect
