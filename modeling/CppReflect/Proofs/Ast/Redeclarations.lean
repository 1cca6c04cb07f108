import CppReflect.Proofs.Ast.Ledger
import Mathlib.Data.List.Forall2

/-!
# Redeclarations

A function may be declared again, in the same dump or in a later one, and what its nodes say is put
together. Nothing that is known of it is lost: it stays defined and deleted once it is, and keeps a
mangled name; and as long as it is declared with as many parameters, they keep their names and
default arguments.
-/

namespace CppReflect

/-- What is known of a parameter is known of it later. -/
structure ParamInfo.Retains (p q : ParamInfo) : Prop where
  name : p.name ≠ "" → q.name ≠ ""
  default? : p.default?.isSome = true → q.default?.isSome = true

/-- There are as many parameters later, and what is known of them is known later. -/
abbrev ParamInfo.AllRetain : List ParamInfo → List ParamInfo → Prop :=
  List.Forall₂ ParamInfo.Retains

/-- What is known of a function, but for its parameters, is known of it later. -/
structure FunctionInfo.Retains (f g : FunctionInfo) : Prop where
  defined : f.defined = true → g.defined = true
  deleted : f.deleted = true → g.deleted = true
  mangledName : f.mangledName.isSome = true → g.mangledName.isSome = true

namespace ParamInfo

theorem Retains.refl (p : ParamInfo) : p.Retains p := ⟨id, id⟩

theorem Retains.trans {p q r : ParamInfo} (hpq : p.Retains q) (hqr : q.Retains r) : p.Retains r :=
  ⟨hqr.name ∘ hpq.name, hqr.default? ∘ hpq.default?⟩

theorem AllRetain.refl (ps : List ParamInfo) : AllRetain ps ps :=
  List.forall₂_same.mpr fun p _ => Retains.refl p

theorem AllRetain.trans {ps qs rs : List ParamInfo} (hpq : AllRetain ps qs)
    (hqr : AllRetain qs rs) : AllRetain ps rs := by
  induction hpq generalizing rs with
  | nil => exact hqr
  | cons hp _ ih =>
      obtain ⟨r, rs, hq, hqs, rfl⟩ := List.forall₂_cons_left_iff.mp hqr
      exact .cons (hp.trans hq) (ih hqs)

/-- No more parameters in front are without a default argument. -/
theorem AllRetain.required_le {ps qs : List ParamInfo} (h : AllRetain ps qs) :
    (qs.takeWhile fun q => q.default?.isNone).length ≤
      (ps.takeWhile fun p => p.default?.isNone).length := by
  induction h with
  | nil => exact Nat.le_refl _
  | @cons p q ps qs hp _ ih =>
      cases hq : q.default? with
      | some default => simp [hq]
      | none =>
          have hnone : p.default? = none := by
            have hkept := hp.default?
            rw [hq] at hkept
            simpa using hkept
          simpa [hq, hnone] using ih

end ParamInfo

namespace FunctionInfo

theorem Retains.refl (f : FunctionInfo) : f.Retains f := ⟨id, id, id⟩

theorem Retains.trans {f g h : FunctionInfo} (hfg : f.Retains g) (hgh : g.Retains h) :
    f.Retains h :=
  ⟨hgh.defined ∘ hfg.defined, hgh.deleted ∘ hfg.deleted, hgh.mangledName ∘ hfg.mangledName⟩

/-- A place among templates is none of what is retained. -/
theorem Retains.of_bare {f g : FunctionInfo} (h : g.bare = f.bare) : f.Retains g := by
  have hdefined : g.bare.defined = f.bare.defined := by rw [h]
  have hdeleted : g.bare.deleted = f.bare.deleted := by rw [h]
  have hmangled : g.bare.mangledName = f.bare.mangledName := by rw [h]
  exact ⟨fun hf => hdefined.trans hf, fun hf => hdeleted.trans hf, fun hf => by
    rw [show g.mangledName = f.mangledName from hmangled]
    exact hf⟩

theorem params_of_bare {f g : FunctionInfo} (h : g.bare = f.bare) : g.params = f.params :=
  show g.bare.params = f.bare.params by rw [h]

end FunctionInfo

namespace Ast

/-! ## One redeclaration -/

theorem mergeParams_retains {old new : List ParamInfo} (hlength : new.length = old.length) :
    ParamInfo.AllRetain old (mergeParams old new) := by
  rw [mergeParams, if_neg (not_not.mpr hlength.symm)]
  induction old generalizing new with
  | nil => exact .nil
  | cons o old ih =>
      obtain ⟨n, new, rfl⟩ := List.exists_cons_of_length_eq_add_one hlength
      refine .cons ⟨fun hname => ?_, fun hdefault => ?_⟩ (ih (Nat.succ.inj hlength))
      · dsimp only
        split
        next => exact hname
        next hnew => simpa using hnew
      · dsimp only
        cases n.default? with
        | some default => rfl
        | none => exact hdefault

theorem mergeFunction_retains (n : FunctionNode) (f : FunctionInfo) :
    f.Retains (mergeFunction false n f) := by
  have hplain : f.Retains { f with
      params := mergeParams f.params n.params
      defined := f.defined || n.defined
      deleted := f.deleted || n.deleted
      mangledName := n.mangledName.orElse fun _ => f.mangledName } := by
    refine ⟨fun hf => ?_, fun hf => ?_, fun hf => ?_⟩
    · simp [hf]
    · simp [hf]
    · cases n.mangledName with
      | some name => rfl
      | none => exact hf
  unfold mergeFunction
  cases n.memberPattern with
  | none => exact hplain
  | some pattern => exact hplain.trans (.of_bare rfl)

theorem mergeFunction_params (n : FunctionNode) (f : FunctionInfo) :
    (mergeFunction false n f).params = mergeParams f.params n.params := by
  unfold mergeFunction
  cases n.memberPattern <;> rfl

theorem mergeFunction_deleted (n : FunctionNode) (f : FunctionInfo) :
    (mergeFunction false n f).deleted = (f.deleted || n.deleted) := by
  unfold mergeFunction
  cases n.memberPattern <;> rfl

/-! ## Any number of redeclarations -/

/-- The nodes of the entries that are merged into the function have as many parameters as it has. -/
def SameArity (f : FunctionInfo) (d : DeclId) (entries : List Entry) : Prop :=
  ∀ e ∈ entries, e.target? = some d → ∀ n ∈ e.states?, n.params.length = f.params.length

instance (f : FunctionInfo) (d : DeclId) (entries : List Entry) :
    Decidable (SameArity f d entries) := inferInstanceAs (Decidable (∀ e ∈ entries, _))

theorem Leads.retains {m m' : Model} {entries : List Entry} (h : Leads m entries m') {d : DeclId}
    {f : FunctionInfo} (hf : m.function? d = some f) :
    ∃ f', m'.function? d = some f' ∧ f.Retains f' ∧
      (SameArity f d entries → ParamInfo.AllRetain f.params f'.params) := by
  let P (g : FunctionInfo) : Prop :=
    f.Retains g ∧ (SameArity f d entries → ParamInfo.AllRetain f.params g.params)
  have hbare : ∀ g g' : FunctionInfo, g'.bare = g.bare → P g → P g' := fun g g' hsame hg =>
    ⟨hg.1.trans (.of_bare hsame), by rw [FunctionInfo.params_of_bare hsame]; exact hg.2⟩
  refine h.function_invariant (P := P) hbare ?_ hf ⟨.refl f, fun _ => .refl _⟩
  -- the arity is compared with `f`, whose parameters `g` has kept so far
  rintro e he n htarget hstates g ⟨hg, hparams⟩
  refine ⟨hg.trans (mergeFunction_retains n g), fun harity => ?_⟩
  have hlength := (harity e he htarget n hstates).trans (hparams harity).length_eq
  rw [mergeFunction_params]
  exact (hparams harity).trans (mergeParams_retains hlength)

/-- Whatever is ingested, in whichever order, nothing is lost of what is known of a function behind
an entry: behind any later one it is defined, deleted and mangled if it was, and if the nodes that
are merged into it in between have as many parameters, these have kept their names and default
arguments, and a call needs no more arguments. Behind the last entry this is what a client sees. -/
theorem redeclarations_retain (m : Model) (ingestions : List (Source × String))
    {earlier between later : List Entry}
    (hhistory : history ingestions m = earlier ++ between ++ later) {d : DeclId}
    {f : FunctionInfo} (hf : (standing m earlier).function? d = some f) :
    ∃ f', (standing m (earlier ++ between)).function? d = some f' ∧ f.Retains f' ∧
      (SameArity f d between →
        ParamInfo.AllRetain f.params f'.params ∧ f'.minRequiredArgs ≤ f.minRequiredArgs) ∧
      (later = [] →
        ∃ f'', (ingestAll ingestions m).function? d = some f'' ∧ f''.bare = f'.bare) := by
  have hleads := history_leads ingestions m
  rw [hhistory] at hleads
  obtain ⟨f', hf', hkept, hparams⟩ := hleads.to_standing.of_standing.retains hf
  refine ⟨f', hf', hkept, fun harity => ⟨hparams harity, (hparams harity).required_le⟩, ?_⟩
  rintro rfl
  exact hleads.of_standing.functions d f' nofun hf'

/-- The node of a function of one parameter. -/
def unaryDump (param : List (String × Json)) : Json :=
  .obj [("inner", .arr [.obj [("kind", .str "FunctionDecl"), ("loc", .obj [("file", .str "a")]),
    ("name", .str "f"), ("inner", .arr [.obj (("kind", .str "ParmVarDecl") :: param)])]])]

/-- The function with a default argument, as a dump has declared it. -/
def unaryModel : Model :=
  let place : Json := .obj [("offset", .int 10), ("tokLen", .int 1)]
  let default : Json := .obj [("range", .obj [("begin", place), ("end", place)])]
  let dump := unaryDump [("init", .str "c"), ("inner", .arr [default])]
  ((ingestNode ⟨"int f(T = 3);", "a"⟩ dump).run.run .empty).2

/-- A later dump, in which the parameter has no default argument. -/
def unaryText : String :=
  "\x7b\"inner\":[\x7b\"kind\":\"FunctionDecl\",\"loc\":\x7b\"file\":\"a\"\x7d,\"name\":\"f\"," ++
    "\"inner\":[\x7b\"kind\":\"ParmVarDecl\"\x7d]\x7d]\x7d"

theorem read_unaryText : Json.read? unaryText = some (unaryDump []) := by
  cbv

theorem redeclarations_retain_default :
    ∃ f f', unaryModel.function? ⟨1⟩ = some f ∧ f.minRequiredArgs = 0 ∧
      (history [(⟨"", "a"⟩, unaryText)] unaryModel).map Entry.target? = [some ⟨1⟩] ∧
      (ingestAll [(⟨"", "a"⟩, unaryText)] unaryModel).function? ⟨1⟩ = some f' ∧
      f'.minRequiredArgs = 0 := by
  let f : FunctionInfo :=
    { returnType := ⟨0⟩, params := [⟨"", ⟨0⟩, some "3"⟩], defined := false }
  have hhistory : history [(⟨"", "a"⟩, unaryText)] unaryModel =
      ledger ⟨"", "a"⟩ (unaryDump []) unaryModel := by
    rw [history, read_unaryText, history, List.append_nil, Option.elim_some]
  have hf : unaryModel.function? ⟨1⟩ = some f := by decide +kernel
  have harity : SameArity f ⟨1⟩ (ledger ⟨"", "a"⟩ (unaryDump []) unaryModel) := by decide +kernel
  have hbetween : history [(⟨"", "a"⟩, unaryText)] unaryModel =
      [] ++ ledger ⟨"", "a"⟩ (unaryDump []) unaryModel ++ [] := by
    rw [hhistory, List.append_nil, List.nil_append]
  obtain ⟨f', -, -, hparams, hlast⟩ := redeclarations_retain unaryModel _ hbetween hf
  obtain ⟨f'', hf'', hsame⟩ := hlast rfl
  have hrequired := (hparams harity).2
  rw [hhistory]
  refine ⟨f, f'', hf, rfl, by decide +kernel, hf'', ?_⟩
  rw [FunctionInfo.minRequiredArgs, FunctionInfo.params_of_bare hsame]
  exact Nat.le_zero.mp hrequired

end Ast

end CppReflect
