import CppReflect.Proofs.Reachable

/-!
# Coherence of the two tables

In a reachable model every type has one place, the parts of a type come before it and the
declarations that it refers to exist; every declaration but the translation unit comes after its
scope, and scopes list their members in the order of their places. Two places are the same exactly
if the types at them are, whether they are compared by their nodes or written out in full.
-/

namespace CppReflect

/-- A type written out in full: its parts stand in it where a node has their places. -/
inductive TypeTree where
  | node (shape : TypeKind) (quals : Quals) (parts : List TypeTree)

namespace TypeKind

/-- What a type is apart from the places of its parts. -/
def shape (k : TypeKind) : TypeKind := Id.run (k.traverse fun _ => pure default)

theorem eq_of_shape_of_parts {k l : TypeKind} (hshape : k.shape = l.shape)
    (hparts : k.parts = l.parts) : k = l := by
  cases k with
  | function p =>
      cases l with
      | function q =>
          obtain ⟨hret, hparams⟩ := List.cons.inj hparts
          simp only [shape, traverse, Id.run_bind, List.idRun_mapM, Id.run_pure, function.injEq,
            FunctionProto.mk.injEq, true_and] at hshape
          obtain ⟨_, hvariadic, hquals, href⟩ := hshape
          cases p
          cases q
          simp_all
      | _ => simp [shape, traverse] at hshape
  | _ => cases l <;> simp_all [shape, traverse, parts]

end TypeKind

/-- Lists with equal images are equal if the map tells their elements apart. -/
theorem eq_of_map_eq {α β : Type} {f : α → β} {l k : List α} (h : l.map f = k.map f)
    (hf : ∀ a ∈ l, ∀ b ∈ k, f a = f b → a = b) : l = k := by
  induction l generalizing k with
  | nil => exact (List.map_eq_nil_iff.mp h.symm).symm
  | cons a l ih =>
      cases k with
      | nil => simp at h
      | cons b k =>
          obtain ⟨hab, hlk⟩ := List.cons.inj h
          rw [hf a List.mem_cons_self b List.mem_cons_self hab, ih hlk fun c hc d hd =>
            hf c (List.mem_cons_of_mem a hc) d (List.mem_cons_of_mem b hd)]

namespace Model

variable {m : Model}

/-- The type with its parts, down to the depth `fuel`. -/
def treeFrom (m : Model) : Nat → TypeId → TypeTree
  | 0, t => .node (m.node t).kind.shape (m.node t).quals []
  | fuel + 1, t =>
    .node (m.node t).kind.shape (m.node t).quals ((m.node t).kind.parts.map (m.treeFrom fuel))

/-- The type written out in full. -/
def tree (m : Model) (t : TypeId) : TypeTree := m.treeFrom m.typeFuel t

theorem WellFormed.eq_of_node (h : m.WellFormed) {s t : TypeId} (hs : m.HasType s)
    (ht : m.HasType t) (hnode : m.node s = m.node t) : s = t := by
  have hfound := (TypeTable.find?_eq_some_iff h.nodup).mpr (get?_eq_node hs)
  rw [hnode, (TypeTable.find?_eq_some_iff h.nodup).mpr (get?_eq_node ht)] at hfound
  exact (Option.some.inj hfound).symm

/-- Types that are written out alike have one place: their parts do, so their nodes are equal. -/
theorem WellFormed.eq_of_treeFrom (h : m.WellFormed) {fuel : Nat} {s t : TypeId}
    (hs : m.HasType s) (ht : m.HasType t) (hsfuel : s.index < fuel) (htfuel : t.index < fuel)
    (htree : m.treeFrom fuel s = m.treeFrom fuel t) : s = t := by
  induction fuel generalizing s t with
  | zero => exact absurd hsfuel (Nat.not_lt_zero _)
  | succ fuel ih =>
      simp only [treeFrom, TypeTree.node.injEq] at htree
      obtain ⟨hshape, hquals, hparts⟩ := htree
      have heq : (m.node s).kind.parts = (m.node t).kind.parts := by
        refine eq_of_map_eq hparts fun p hp q hq hpq => ?_
        obtain ⟨hplt, hpex⟩ := h.node_parts hp
        obtain ⟨hqlt, hqex⟩ := h.node_parts hq
        exact ih hpex hqex (by omega) (by omega) hpq
      refine h.eq_of_node hs ht ?_
      have hkind := TypeKind.eq_of_shape_of_parts hshape heq
      cases hns : m.node s
      cases hnt : m.node t
      simp_all

end Model

end CppReflect
