import CppReflect.Proofs.Ast.Ledger

/-!
# Overloads

The functions of one name in a scope are told apart by their keys: the parameter types as they are
printed, and whether the function is a `const` method. Functions that differ in one of these are
different declarations. Those that differ in anything else, such as an ellipsis or a reference
qualifier, are not: the first one of them is declared, and the others are merged into it.
-/

namespace CppReflect.Ast

/-- What is read of a function that is no template. -/
structure Overload where
  owner : DeclId
  name : String
  /-- The parameter types as they are printed. -/
  params : List String
  variadic : Bool
  method : Option MethodInfo
deriving DecidableEq, Repr

namespace Overload

/-- The parameter types as they stand in a key. -/
def signature (o : Overload) : String := Text.joined "," o.params

/-- The function is a `const` method. -/
def isConst (o : Overload) : Bool := o.method.any MethodInfo.isConst

/-- The key of the function. -/
def key (o : Overload) : String :=
  keyIn o.owner ("fn:" ++ o.name ++ "(" ++ o.signature ++ ")" ++ if o.isConst then "const" else "")

/-- In one scope and under one name, the key tells the signature and whether the function is
`const`, and nothing else. -/
theorem key_eq_iff {o o' : Overload} (howner : o.owner = o'.owner) (hname : o.name = o'.name) :
    o.key = o'.key ↔ o.signature = o'.signature ∧ o.isConst = o'.isConst := by
  refine ⟨fun heq => ?_, fun ⟨hsignature, hconst⟩ => ?_⟩
  · have hwhat := congrArg String.toList (keyIn_inj heq)
    rw [hname] at hwhat
    simp only [String.toList_append, List.append_assoc, List.append_cancel_left_eq] at hwhat
    -- the last character tells whether the function is `const`
    have hlast := congrArg List.getLast? hwhat
    cases hconst : o.isConst <;> cases hconst' : o'.isConst <;> rw [hconst, hconst'] at hwhat hlast
    case false.false | true.true =>
      exact ⟨String.toList_injective (List.append_cancel_right hwhat), rfl⟩
    case false.true | true.false => simp at hlast
  · unfold key
    rw [howner, hname, hsignature, hconst]

end Overload

/-! ## Overloads in a ledger -/

namespace Entry

/-- The function that is entered, if it is no template and can be read. -/
def overload? (e : Entry) : Option Overload :=
  match e.deed with
  | .function node scope _ none =>
    match (functionHead e.source node scope).run.run e.before with
    | (.ok h, p) => some {
        owner := h.owner
        name := text node "name"
        params := h.params.map fun q => p.model.typeText q.type
        variadic := h.proto.any FunctionProto.variadic
        method := h.method }
    | (.error _, _) => none
  | _ => none

/-- The function `d` stands behind the declarations of `m` under the key of what was entered, and is
what the node says if no node came before. -/
structure Declares (e : Entry) (o : Overload) (m m' : Model) (d : DeclId) : Prop where
  keyed : m'.keyed? o.key = some d
  fresh : m.decls.size ≤ d.index
  first : e.before.model.keyed? o.key = none →
    ∃ f, m'.function? d = some f ∧ f.variadic = o.variadic ∧ f.method = o.method

end Entry

theorem Entry.overload_read {e : Entry} {o : Overload} (ho : e.overload? = some o) :
    ∃ h, e.head? = some h ∧ e.key? = some o.key ∧
      h.proto.any FunctionProto.variadic = o.variadic ∧ h.method = o.method := by
  obtain ⟨source, deed, p⟩ := e
  unfold overload? at ho
  split at ho
  next node scope access hdeed =>
    obtain rfl : deed = .function node scope access none := hdeed
    split at ho
    next h p' hrun =>
      cases ho
      have hhead : head? ⟨source, .function node scope access none, p⟩ =
        ((functionHead source node scope).run.run p).1.toOption := rfl
      rw [show (functionHead source node scope).run.run p = (.ok h, p') from hrun] at hhead
      refine ⟨h, hhead, ?_, rfl, rfl⟩
      rw [key?, hhead]
      exact congrArg some (functionHead_key hrun)
    next => cases ho
  next => cases ho

variable {m m' : Model} {entries : List Entry} {e : Entry} {o : Overload}

/-- What becomes of a function whose key was free before the dump. -/
theorem Leads.declares (h : Leads m entries m') (hm : m.KeysDeclared) (he : e ∈ entries)
    (ho : e.overload? = some o) (hfree : m.keyed? o.key = none) :
    ∃ d, e.Declares o m m' d := by
  obtain ⟨head, hhead, hkey, hvariadic, hmethod⟩ := Entry.overload_read ho
  obtain ⟨front, back, rfl⟩ := List.append_of_mem he
  obtain ⟨-, hback⟩ := h.split
  have hlater := hback.extendsApart.extension.keys
  have hfresh : ∀ {d}, m'.keyed? o.key = some d → m.decls.size ≤ d.index := fun hd =>
    (h.extendsApart.apart hm o.key _ hfree hd).1
  cases htarget : e.before.model.keyed? o.key with
  | some d =>
      have hbound := hlater _ _ (e.sparesBut.extension.keys _ _ htarget)
      exact ⟨d, hbound, hfresh hbound, fun hnone => by cases htarget.symm.trans hnone⟩
  | none =>
      obtain ⟨-, d, f, hkeyed, hf, hf'⟩ := Entry.declares hkey hhead htarget
      -- nothing that is merged into the function later changes what its first node says
      obtain ⟨f', hflast, hflags⟩ := hback.function_invariant
        (P := fun g => g.variadic = o.variadic ∧ g.method = o.method)
        (fun g g' hsame hg => ⟨(congrArg FunctionInfo.variadic hsame).trans hg.1,
          (congrArg FunctionInfo.method hsame).trans hg.2⟩)
        (fun _ _ n _ _ g hg => ⟨(mergeFunction_variadic false n g).trans hg.1,
          (mergeFunction_method false n g).trans hg.2⟩)
        hf ⟨hf'.1.trans hvariadic, hf'.2.trans hmethod⟩
      exact ⟨d, hlater _ _ hkeyed, hfresh (hlater _ _ hkeyed), fun _ => ⟨f', hflast, hflags⟩⟩

/-- Two functions of one name in one scope, whose keys were free before the dump, have new
declarations. They are different ones, each with its own flags, unless the functions agree in the
parameter types as they are printed and in being `const`; then they are one. -/
theorem overloads_apart {source : Source} {dump : Json} {e₁ e₂ : Entry} {o₁ o₂ : Overload}
    (hm : m.KeysDeclared) (he₁ : e₁ ∈ ledger source dump m) (he₂ : e₂ ∈ ledger source dump m)
    (ho₁ : e₁.overload? = some o₁) (ho₂ : e₂.overload? = some o₂) (howner : o₁.owner = o₂.owner)
    (hname : o₁.name = o₂.name) (hfree₁ : m.keyed? o₁.key = none)
    (hfree₂ : m.keyed? o₂.key = none) :
    ∃ d₁ d₂, e₁.Declares o₁ m ((ingestNode source dump).run.run m).2 d₁ ∧
      e₂.Declares o₂ m ((ingestNode source dump).run.run m).2 d₂ ∧
      (d₁ = d₂ ↔ o₁.signature = o₂.signature ∧ o₁.isConst = o₂.isConst) := by
  have hleads := ledger_leads source dump m
  obtain ⟨d₁, hd₁⟩ := hleads.declares hm he₁ ho₁ hfree₁
  obtain ⟨d₂, hd₂⟩ := hleads.declares hm he₂ ho₂ hfree₂
  refine ⟨d₁, d₂, hd₁, hd₂, ?_⟩
  rw [← Overload.key_eq_iff howner hname]
  refine ⟨fun heq => ?_, fun heq => ?_⟩
  · have honly := (hleads.extendsApart.apart hm o₁.key d₁ hfree₁ hd₁.keyed).2
    exact (honly o₂.key (heq ▸ hd₂.keyed)).symm
  · have hkeyed := hd₁.keyed
    rw [heq] at hkeyed
    exact Option.some.inj (hkeyed.symm.trans hd₂.keyed)

/-- A function of one parameter and another one of its name, which takes any number of arguments
behind the first. -/
def overloadedDump : Json :=
  let function (type param : String) : Json :=
    .obj [("kind", .str "FunctionDecl"), ("loc", .obj [("file", .str "a.cpp")]),
      ("name", .str "f"), ("type", .obj [("qualType", .str type)]),
      ("inner", .arr [.obj [("kind", .str "ParmVarDecl"),
        ("type", .obj [("qualType", .str param)])]])]
  .obj [("inner", .arr [function "void (int)" "int", function "void (double, ...)" "double"])]

theorem overloads_apart_ellipsis :
    ∃ d₁ d₂ f₁ f₂, d₁ ≠ d₂ ∧
      ((ingestNode ⟨"", "a.cpp"⟩ overloadedDump).run.run .empty).2.function? d₁ = some f₁ ∧
      f₁.variadic = false ∧
      ((ingestNode ⟨"", "a.cpp"⟩ overloadedDump).run.run .empty).2.function? d₂ = some f₂ ∧
      f₂.variadic = true := by
  have ho₁ : ((ledger ⟨"", "a.cpp"⟩ overloadedDump .empty)[0]?).bind Entry.overload? =
      some ⟨⟨0⟩, "f", ["int"], false, none⟩ := by decide +kernel
  have ho₂ : ((ledger ⟨"", "a.cpp"⟩ overloadedDump .empty)[1]?).bind Entry.overload? =
      some ⟨⟨0⟩, "f", ["double"], true, none⟩ := by decide +kernel
  have hfirst₁ : (((ledger ⟨"", "a.cpp"⟩ overloadedDump .empty)[0]?).bind fun e =>
      e.before.model.keyed? "0/fn:f(int)") = none := by decide +kernel
  have hfirst₂ : (((ledger ⟨"", "a.cpp"⟩ overloadedDump .empty)[1]?).bind fun e =>
      e.before.model.keyed? "0/fn:f(double)") = none := by decide +kernel
  obtain ⟨e₁, he₁, ho₁⟩ := Option.bind_eq_some_iff.mp ho₁
  obtain ⟨e₂, he₂, ho₂⟩ := Option.bind_eq_some_iff.mp ho₂
  rw [he₁] at hfirst₁
  rw [he₂] at hfirst₂
  obtain ⟨d₁, d₂, hd₁, hd₂, hsame⟩ := overloads_apart (m := .empty) nofun
    (List.mem_of_getElem? he₁) (List.mem_of_getElem? he₂) ho₁ ho₂ rfl rfl rfl rfl
  obtain ⟨f₁, hf₁, hvariadic₁, -⟩ := hd₁.first hfirst₁
  obtain ⟨f₂, hf₂, hvariadic₂, -⟩ := hd₂.first hfirst₂
  refine ⟨d₁, d₂, f₁, f₂, fun heq => ?_, hf₁, hvariadic₁, hf₂, hvariadic₂⟩
  exact absurd (hsame.mp heq).1 (by decide +kernel)

end CppReflect.Ast
