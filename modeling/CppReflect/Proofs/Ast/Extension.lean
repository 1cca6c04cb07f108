import CppReflect.Proofs.Ast.Steps

/-!
# Ingestion extends the model

A dump only adds to a model. Its handlers change declarations in place, under keys that may belong
to declarations of any sort, but each change is one that the declaration survives: another kind of
declaration under the key stays as it is. What was declared before a dump is given up stays.
-/

namespace CppReflect.Ast

open Model (Interns)

/-- The step leaves a model that extends the one before, also when it gives up. -/
abbrev Extending {α : Type} (x : IngestM α) : Prop := Along Model.Extends x

theorem upsert_extending (key : String) (parent : DeclId) (name : String) (access : Access)
    (detached : Bool) {kind : ModelM DeclKind} (hkind : Interns kind) :
    Model.Extending (upsert key parent name access detached kind) := by
  intro m
  cases hkey : m.keyed? key with
  | some d =>
      rw [upsert_of_keyed hkey]
      exact Model.Extends.refl m
  | none =>
      rw [upsert_of_free hkey]
      have hadd : Model.Extending (addition parent name access detached kind) :=
        hkind.extending.bind fun k => Model.Extending.ite
          (Model.addDetached_extending parent name access k)
          (Model.addDecl_extending parent name access k)
      exact (hadd m).bindKey hkey _

theorem setImplicit_extending (d : DeclId) :
    Model.Extending (Model.modifyDecl d fun e => { e with implicit := true }) :=
  Model.modifyDecl_extending d fun e => Decl.Extends.set_implicit e true

/-- What a dump leaves of the model `before`, and what it answers. -/
structure Ingested (before : Model) (dump : String) (outcome : Except IngestError Nat)
    (after : Model) : Prop where
  extension : before.Extends after
  added : ∀ n, outcome = .ok n → after.decls.size = before.decls.size + n
  malformed : Json.read? dump = none → outcome = .error .malformed ∧ after = before

/-- Ingestion extends every model, counts what it adds, and leaves the model alone if the dump is no
JSON. -/
theorem ingest_ingested (m : Model) (source : Source) (dump : String) :
    Ingested m dump ((ingest source dump).run.run m).1 ((ingest source dump).run.run m).2 := by
  have hext := (ingest_stepwise m source dump).extends
  refine ⟨hext, fun n hn => ?_, fun hread => ?_⟩
  · revert hn hext
    unfold ingest
    cases Json.read? dump with
    | none => exact fun _ hn => by cases hn
    | some node =>
        dsimp only
        rw [run_ingestNode]
        rcases (visitDump source node).run.run (start m) with ⟨e | _, after⟩
        · exact fun _ hn => by cases hn
        · intro hext hn
          obtain rfl := Except.ok.inj hn
          exact (Nat.add_sub_cancel' hext.size_le).symm
  · unfold ingest
    rw [hread]
    exact ⟨rfl, rfl⟩

end CppReflect.Ast
