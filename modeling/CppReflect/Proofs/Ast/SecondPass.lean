import CppReflect.Proofs.Ast.Ingest
import CppReflect.Proofs.Ast.Reingest
import CppReflect.Proofs.Hierarchy

/-!
# Ingesting a dump once more

Names are resolved against what is declared already, and the second pass over a dump finds more of
it than the first one. Where this makes no difference to the keys of functions and specializations,
the second pass adds no declaration. Where it makes none to the base classes either, the class
hierarchy stays as it is.
-/

namespace CppReflect.Ast

variable {source : Source} {dump : Json} {m m₁ : Model} {n : Nat}

theorem visitDump_of_ingestNode (h : (ingestNode source dump).run.run m = (.ok n, m₁)) :
    ∃ p, (visitDump source dump).run.run (start m) = (.ok (), p) ∧ p.model = m₁ := by
  rw [run_ingestNode] at h
  rcases hrun : (visitDump source dump).run.run (start m) with ⟨_ | _, p⟩
  · rw [hrun] at h
    cases h
  · rw [hrun] at h
    cases h
    exact ⟨p, rfl, rfl⟩

/-- What the second pass leaves if it has read the same as the first one. -/
theorem second_pass {test : ReadingTest} (hierarchy : Prop) (hm : m.KeysDeclared)
    (hfirst : (ingestNode source dump).run.run m = (.ok n, m₁))
    (htest : ∀ e, Rerun.Determines ⟨m₁, e, hierarchy⟩ test) (h : Reads test source dump m)
    (h' : Reads test source dump m₁) :
    ∃ m₂, (ingestNode source dump).run.run m₁ = (.ok 0, m₂) ∧
      (hierarchy → ∀ d, m₂.basesOf d = m₁.basesOf d) := by
  obtain ⟨p, hp, rfl⟩ := visitDump_of_ingestNode hfirst
  have hagain : ∀ e, Rerun.Resumes ⟨p.model, e, hierarchy⟩ (fun _ => True) p
      ((visitDump source dump).run.run (start p.model)) := by
    intro e
    rw [← h' e]
    refine (visitDumpChecked_twice (htest e) source dump).again (start m) (start p.model) ?_ trivial
      () p ?_ (Model.Extends.refl _)
    · exact ⟨rfl, rfl, rfl, hm, Model.Extends.refl _, rfl, fun _ _ => .inl rfl⟩
    · rw [h e, hp]
  rcases hsecond : (visitDump source dump).run.run (start p.model) with ⟨x | _, q⟩
  · -- A check that fails would fail with either error.
    rw [hsecond] at hagain
    have hmalformed : x = .malformed := hagain .malformed
    have hexcessive : x = .excessive := hagain .excessive
    cases hmalformed.symm.trans hexcessive
  · rw [hsecond] at hagain
    obtain ⟨halike, -⟩ := hagain .malformed
    refine ⟨q.model, ?_, fun hw d => (halike.bases hw d).elim id id⟩
    rw [run_ingestNode, hsecond]
    dsimp only
    rw [halike.size, Nat.sub_self]

theorem eq_mk_of_fst {α β : Type} {x : α × β} {a : α} (h : x.1 = a) : x = (a, x.2) := by
  rw [← h]

/-- A dump that is read once more into the model that it has left adds nothing, if both passes read
the same keys at each node in its scope: if the parameter types of its functions and the template
arguments in it still mean what they meant. -/
theorem ingest_again (hm : m.KeysDeclared)
    (hfirst : (ingestNode source dump).run.run m = (.ok n, m₁))
    {keys : DeclId → Json → Option String}
    (h : Reads (fun scope node r => r.key = keys scope node) source dump m)
    (h' : Reads (fun scope node r => r.key = keys scope node) source dump m₁) :
    ∃ m₂, (ingestNode source dump).run.run m₁ = (.ok 0, m₂) := by
  have htest : ∀ e, Rerun.Determines ⟨m₁, e, False⟩
      fun scope node r => r.key = keys scope node := by
    intro e scope node r r' hr hr'
    rw [decide_eq_true_iff] at hr hr'
    exact ⟨hr.trans hr'.symm, False.elim⟩
  obtain ⟨m₂, hsecond, -⟩ := second_pass False hm hfirst htest h h'
  exact ⟨m₂, hsecond⟩

/-- A class that is defined in a dump, with the names of its base classes. -/
def classNode (name : String) (bases : List String) : Json :=
  .obj [("kind", .str "CXXRecordDecl"), ("loc", .obj [("file", .str "a.cpp")]),
    ("name", .str name), ("completeDefinition", .bool true),
    ("bases", .arr (bases.map fun b =>
      .obj [("access", .str "public"), ("type", .obj [("qualType", .str b)])]))]

/-- A function with one parameter. -/
def functionNode (name parameter : String) : Json :=
  .obj [("kind", .str "FunctionDecl"), ("loc", .obj [("file", .str "a.cpp")]), ("name", .str name),
    ("type", .obj [("qualType", .str ("void (" ++ parameter ++ ")"))]),
    ("inner", .arr [.obj [("kind", .str "ParmVarDecl"), ("loc", .obj []),
      ("type", .obj [("qualType", .str parameter)])]])]

/-- A class and a function with a parameter of the class, which is declared twice. -/
def redeclaredDump : Json :=
  .obj [("kind", .str "TranslationUnitDecl"), ("inner", .arr
    [classNode "A" [], functionNode "f" "A", functionNode "f" "A"])]

theorem ingest_again_redeclared :
    let pass := fun m : Model => (ingestNode ⟨"", "a.cpp"⟩ redeclaredDump).run.run m
    (pass .empty).1 = .ok 3 ∧ ∃ m₂, pass (pass .empty).2 = (.ok 0, m₂) := by
  let keys : DeclId → Json → Option String := fun _ node =>
    if kind node = "FunctionDecl" then some "0/fn:f(A)" else none
  have hfirst : ((ingestNode ⟨"", "a.cpp"⟩ redeclaredDump).run.run .empty).1 = .ok 3 := by
    decide +kernel
  have h : Reads (fun scope node r => r.key = keys scope node) ⟨"", "a.cpp"⟩ redeclaredDump
      .empty := by
    decide +kernel
  have h' : Reads (fun scope node r => r.key = keys scope node) ⟨"", "a.cpp"⟩ redeclaredDump
      ((ingestNode ⟨"", "a.cpp"⟩ redeclaredDump).run.run .empty).2 := by
    decide +kernel
  exact ⟨hfirst, ingest_again Model.wellFormed_empty.keys (eq_mk_of_fst hfirst) h h'⟩

/-- A name that is used in a namespace before the namespace declares it too: by a function, and by
a class that is then derived from. -/
def shadowedDump : Json :=
  .obj [("kind", .str "TranslationUnitDecl"), ("inner", .arr [classNode "A" [],
    .obj [("kind", .str "NamespaceDecl"), ("loc", .obj [("file", .str "a.cpp")]),
      ("name", .str "N"), ("inner", .arr
        [functionNode "f" "A", classNode "B" ["A"], classNode "A" ["B"]])]])]

-- The second pass reads `f(N::A)` where the first one has declared `f(A)`.
example :
    let pass := fun m : Model => (ingestNode ⟨"", "a.cpp"⟩ shadowedDump).run.run m
    (pass .empty).1 = .ok 8 ∧ (pass (pass .empty).2).1 = .ok 1 := by
  decide +kernel

/-! ## The class hierarchy -/

/-- A dump that is read once more into the model that it has left keeps the class hierarchy, if both
passes read the same keys and the same base classes at each node in its scope. A hierarchy without
a cycle stays one, so that the walks over base classes still end. -/
theorem ingest_again_acyclic (hm : m.WellFormed)
    (hfirst : (ingestNode source dump).run.run m = (.ok n, m₁)) (hacyclic : m₁.Acyclic)
    {expected : DeclId → Json → Reading}
    (h : Reads (fun scope node r => r = expected scope node) source dump m)
    (h' : Reads (fun scope node r => r = expected scope node) source dump m₁) :
    ∃ m₂, (ingestNode source dump).run.run m₁ = (.ok 0, m₂) ∧
      (∀ d, m₂.baseRecords d = m₁.baseRecords d) ∧ m₂.Acyclic ∧ m₂.HierarchyEnds := by
  have htest : ∀ e, Rerun.Determines ⟨m₁, e, True⟩
      fun scope node r => r = expected scope node := by
    intro e scope node r r' hr hr'
    rw [decide_eq_true_iff] at hr hr'
    rw [hr, hr']
    exact ⟨rfl, fun _ => rfl⟩
  obtain ⟨m₂, hsecond, hbases⟩ := second_pass True hm.keys hfirst htest h h'
  have hwf₁ : m₁.WellFormed := by
    have hwf := (ingestNode_keeps hm source dump).wellFormed
    rwa [hfirst] at hwf
  have hagain := ingestNode_keeps hwf₁ source dump
  have hwf₂ := hagain.wellFormed
  have hgrows := hagain.grows
  rw [hsecond] at hwf₂ hgrows
  have hsame : ∀ d, m₂.baseRecords d = m₁.baseRecords d := fun d =>
    hwf₁.baseRecords_grows hgrows hwf₂ (hbases trivial d)
  have hacyclic₂ := hacyclic.of_baseRecords hsame
  exact ⟨m₂, hsecond, hsame, hacyclic₂, hacyclic₂.hierarchyEnds hwf₂⟩

-- The second pass takes `N::A` for the base of `N::B`, which it is derived from.
example :
    let pass := fun m : Model => ((ingestNode ⟨"", "a.cpp"⟩ shadowedDump).run.run m).2
    (pass (pass .empty)).baseRecords ⟨5⟩ = [⟨7⟩] ∧ (pass (pass .empty)).baseRecords ⟨7⟩ = [⟨5⟩] := by
  decide +kernel

/-- A class and another one that is derived from it. -/
def derivedDump : Json :=
  .obj [("kind", .str "TranslationUnitDecl"), ("inner", .arr [classNode "A" [], classNode "B" ["A"]])]

theorem ingest_again_acyclic_derived :
    let pass := fun m : Model => (ingestNode ⟨"", "a.cpp"⟩ derivedDump).run.run m
    (pass .empty).1 = .ok 4 ∧ (pass .empty).2.Acyclic ∧
      ∃ m₂, pass (pass .empty).2 = (.ok 0, m₂) ∧
        (∀ d, m₂.baseRecords d = (pass .empty).2.baseRecords d) ∧ m₂.Acyclic ∧
          m₂.HierarchyEnds := by
  let expected : DeclId → Json → Reading := fun _ node =>
    if text node "name" = "B" then { bases := [⟨⟨1⟩, .pub, false⟩] } else {}
  have hfirst : ((ingestNode ⟨"", "a.cpp"⟩ derivedDump).run.run .empty).1 = .ok 4 := by
    decide +kernel
  have hacyclic : ((ingestNode ⟨"", "a.cpp"⟩ derivedDump).run.run .empty).2.Acyclic :=
    Model.acyclic_of_lt (by decide +kernel)
  have h : Reads (fun scope node r => r = expected scope node) ⟨"", "a.cpp"⟩ derivedDump
      .empty := by
    decide +kernel
  have h' : Reads (fun scope node r => r = expected scope node) ⟨"", "a.cpp"⟩ derivedDump
      ((ingestNode ⟨"", "a.cpp"⟩ derivedDump).run.run .empty).2 := by
    decide +kernel
  exact ⟨hfirst, hacyclic,
    ingest_again_acyclic Model.wellFormed_empty (eq_mk_of_fst hfirst) hacyclic h h'⟩

end CppReflect.Ast
