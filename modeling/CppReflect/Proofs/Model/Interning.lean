import CppReflect.Model.Resolve
import CppReflect.Proofs.TypeTable

/-!
# Computations that only put types into the table

Reading a spelling, building a type and looking through typedefs add types behind those that are
there and change nothing else. What is asked about declarations has the same answer before and
after, and so has what is asked about a type that was there.
-/

namespace CppReflect

/-- The nodes of a table in front are those of the table that a type is put into. -/
theorem TypeTable.prefix_intern (t : TypeTable) (n : TypeNode) :
    t.nodes.toList <+: (t.intern n).2.nodes.toList := by
  cases hfind : t.find? n with
  | none =>
      rw [intern_of_not_mem (find?_eq_none_iff.mp hfind), Array.toList_push]
      exact List.prefix_append _ _
  | some id =>
      exact ⟨[], by rw [intern_of_find? hfind, List.append_nil]⟩

namespace Model

/-- The models differ at most in types that stand behind the others. -/
structure Interned (m m' : Model) : Prop where
  decls : m'.decls = m.decls
  keys : m'.keys = m.keys
  types : m.types.nodes.toList <+: m'.types.nodes.toList

namespace Interned

theorem refl (m : Model) : m.Interned m := ⟨rfl, rfl, List.prefix_refl _⟩

theorem trans {l m n : Model} (hlm : l.Interned m) (hmn : m.Interned n) : l.Interned n :=
  ⟨hmn.decls.trans hlm.decls, hmn.keys.trans hlm.keys, hlm.types.trans hmn.types⟩

theorem function?_eq {m m' : Model} (h : m.Interned m') (d : DeclId) :
    m'.function? d = m.function? d := by
  unfold Model.function? Model.decl?
  rw [h.decls]

end Interned

/-- The computation puts types into the table and does nothing else. -/
def Interns {α : Type} (x : ModelM α) : Prop := ∀ m : Model, m.Interned (x.run m).2

namespace Interns

variable {α β : Type}

theorem pure (a : α) : Interns (pure a : ModelM α) := fun m => Interned.refl m

theorem get : Interns (get : ModelM Model) := fun m => Interned.refl m

theorem bind {x : ModelM α} {f : α → ModelM β} (hx : Interns x) (hf : ∀ a, Interns (f a)) :
    Interns (x >>= f) := fun m => (hx m).trans (hf _ _)

theorem map {x : ModelM α} (f : α → β) (hx : Interns x) : Interns (f <$> x) := fun m => hx m

theorem mapM {f : α → ModelM β} {l : List α} (hf : ∀ a ∈ l, Interns (f a)) :
    Interns (l.mapM f) := by
  induction l with
  | nil => exact pure []
  | cons a l ih =>
      rw [List.mapM_cons]
      refine (hf a List.mem_cons_self).bind fun b => ?_
      exact (ih fun c hc => hf c (List.mem_cons_of_mem a hc)).bind fun bs => pure _

theorem forM {f : α → ModelM PUnit} {l : List α} (hf : ∀ a ∈ l, Interns (f a)) :
    Interns (l.forM f) := by
  induction l with
  | nil => exact pure _
  | cons a l ih =>
      change Interns (f a >>= fun _ => l.forM f)
      exact (hf a List.mem_cons_self).bind fun _ =>
        ih fun c hc => hf c (List.mem_cons_of_mem a hc)

end Interns

/-! ## Building types -/

theorem intern_interns (n : TypeNode) : Interns (intern n) := fun m =>
  ⟨rfl, rfl, TypeTable.prefix_intern m.types n⟩

theorem withQuals_interns (t : TypeId) (q : Quals) : Interns (withQuals t q) :=
  Interns.get.bind fun _ => intern_interns _

theorem lookThrough_interns (ts : List TypeId) : Interns (lookThrough ts) :=
  Interns.forM fun _ _ => Interns.map _ <| Interns.get.bind fun _ => intern_interns _

theorem askAlong_interns {α : Type} (way : Model → List TypeId) (question : Model → α) :
    Interns (askAlong way question) :=
  Interns.get.bind fun _ => (lookThrough_interns _).bind fun _ => Interns.pure _

theorem lvalueReference_interns (t : TypeId) : Interns (lvalueReference t) :=
  (askAlong_interns _ _).bind fun _ => intern_interns _

theorem rvalueReference_interns (t : TypeId) : Interns (rvalueReference t) := by
  refine Interns.get.bind fun m => ?_
  split
  · exact Interns.pure t
  · exact (askAlong_interns _ _).bind fun _ => intern_interns _

theorem desugar_interns (t : TypeId) : Interns (desugar t) :=
  Interns.get.bind fun _ => intern_interns _

theorem withoutQuals_interns (t : TypeId) (q : Quals) : Interns (withoutQuals t q) :=
  Interns.get.bind fun _ => intern_interns _

theorem traverse_interns {f : TypeId → ModelM TypeId} (hf : ∀ t, Interns (f t)) (k : TypeKind) :
    Interns (k.traverse f) := by
  cases k with
  | pointer t | lvalueReference t | rvalueReference t | constantArray t _ | incompleteArray t
  | complex t => exact (hf t).bind fun _ => Interns.pure _
  | memberPointer pointee klass =>
      exact (hf pointee).bind fun _ => (hf klass).bind fun _ => Interns.pure _
  | function proto =>
      exact (hf proto.ret).bind fun _ => (Interns.mapM fun t _ => hf t).bind fun _ => Interns.pure _
  | void | builtin _ | record _ | enum _ | typedef _ | named _ => exact Interns.pure _

theorem canonicalFrom_interns (fuel : Nat) (t : TypeId) : Interns (canonicalFrom fuel t) := by
  induction fuel generalizing t with
  | zero => exact Interns.pure t
  | succ fuel ih =>
      refine Interns.get.bind fun m => (lookThrough_interns [t]).bind fun _ => ?_
      exact (traverse_interns ih (m.desugared t).kind).bind fun _ => intern_interns _

theorem canonical_interns (t : TypeId) : Interns (canonical t) :=
  Interns.get.bind fun m => canonicalFrom_interns m.typeFuel t

theorem underlying_interns (t : TypeId) : Interns (underlying t) :=
  (canonical_interns t).bind fun t => (withoutQuals_interns t .all).bind fun _ =>
    Interns.get.bind fun _ => (canonical_interns _).bind fun t => withoutQuals_interns t .all

theorem typeOfDecl?_interns (d : DeclId) : Interns (typeOfDecl? d) := by
  refine Interns.get.bind fun m => ?_
  split
  case h_1 | h_2 | h_3 | h_6 => exact Interns.map _ (intern_interns _)
  case h_4 | h_5 | h_7 => exact Interns.pure _

/-! ## Reading spellings -/

theorem resolveName_interns (name : QualifiedName) (context : DeclId) :
    Interns (resolveName name context) := by
  refine Interns.get.bind fun m => ?_
  split
  next d _ => split <;> exact intern_interns _
  next => split <;> exact intern_interns _

theorem resolveBase_interns (base : Spelling.Base) (context : DeclId) :
    Interns (resolveBase base context) := by
  cases base with
  | void => exact intern_interns _
  | builtin b => exact intern_interns _
  | complex b => exact (intern_interns _).bind fun _ => intern_interns _
  | name n => exact resolveName_interns n context

mutual

theorem resolve_interns (context : DeclId) : (s : Spelling) → Interns (resolve context s)
  | .mk base quals ops => by
    unfold resolve
    exact (resolveBase_interns base context).bind fun t =>
      (withQuals_interns t quals).bind fun t => resolveOps_interns context t ops

theorem resolveOps_interns (context : DeclId) (t : TypeId) :
    (ops : List DeclaratorOp) → Interns (resolveOps context t ops)
  | [] => by
    unfold resolveOps
    exact Interns.pure t
  | op :: ops => by
    unfold resolveOps
    exact (resolveOp_interns context t op).bind fun t => resolveOps_interns context t ops

theorem resolveOp_interns (context : DeclId) (t : TypeId) :
    (op : DeclaratorOp) → Interns (resolveOp context t op)
  | .pointer quals => by
    unfold resolveOp
    exact (intern_interns _).bind fun p => withQuals_interns p quals
  | .lvalueReference => by
    unfold resolveOp
    exact lvalueReference_interns t
  | .rvalueReference => by
    unfold resolveOp
    exact rvalueReference_interns t
  | .memberPointer klass quals => by
    unfold resolveOp
    exact (resolveName_interns klass context).bind fun _ =>
      (intern_interns _).bind fun p => withQuals_interns p quals
  | .array (some _) | .array none => by
    unfold resolveOp
    exact intern_interns _
  | .function params variadic quals ref => by
    unfold resolveOp
    exact (resolveAll_interns context params).bind fun _ => intern_interns _

theorem resolveAll_interns (context : DeclId) :
    (ss : List Spelling) → Interns (resolveAll context ss)
  | [] => by
    unfold resolveAll
    exact Interns.pure []
  | s :: rest => by
    unfold resolveAll
    exact (resolve_interns context s).bind fun _ =>
      (resolveAll_interns context rest).bind fun _ => Interns.pure _

end

theorem parseType_interns (text : String) (context : DeclId) :
    Interns (parseType text context) := by
  unfold parseType
  split
  next s _ => exact resolve_interns context s
  next => exact intern_interns _

end Model

end CppReflect
