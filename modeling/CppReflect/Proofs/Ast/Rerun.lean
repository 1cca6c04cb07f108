import CppReflect.Proofs.Ast.Extension
import CppReflect.Proofs.Model.Amendment

/-!
# Two passes over one dump

A dump is read into a model, and then once more into the model that is left. Two computations of the
passes are compared where they start from states that are alike: nothing but the models differs, and
the model of the second pass has in it everything that the first pass will come to. What the first
pass declares under a key is then found by the second one, which declares nothing. The comparison
ends where a check fails in the second pass.
-/

namespace CppReflect.Ast

open Model (Interns Adds Amends)

/-! ## Declaring under a key -/

theorem addition_adds {kind : ModelM DeclKind} (hkind : Interns kind)
    (hbaseless : ∀ m : Model, (kind.run m).1.Baseless) (parent : DeclId) (name : String)
    (access : Access) (detached : Bool) : Adds (addition parent name access detached kind) :=
  hkind.amends.toAdds.bind fun m => Adds.ite
    (Model.addDetached_adds parent name access (hbaseless m))
    (Model.addDecl_adds parent name access (hbaseless m))

theorem addition_hasDecl (m : Model) (parent : DeclId) (name : String) (access : Access)
    (detached : Bool) (kind : ModelM DeclKind) :
    ((addition parent name access detached kind).run m).2.HasDecl
      ((addition parent name access detached kind).run m).1 := by
  cases detached with
  | true => exact Model.addDetached_hasDecl _ parent name access _
  | false => exact Model.addDecl_hasDecl _ parent name access _

theorem upsert_adds {kind : ModelM DeclKind} (hkind : Interns kind)
    (hbaseless : ∀ m : Model, (kind.run m).1.Baseless)
    (key : String) (parent : DeclId) (name : String) (access : Access) (detached : Bool) :
    Adds (upsert key parent name access detached kind) := by
  have hadds := addition_adds hkind hbaseless parent name access detached
  refine ⟨upsert_extending key parent name access detached hkind, fun m hm => ?_, fun m c => ?_⟩
  · cases hkey : m.keyed? key with
    | some d =>
        rw [upsert_of_keyed hkey]
        exact hm
    | none =>
        rw [upsert_of_free hkey]
        intro k d hd
        change List.lookup k ((key, _) :: _) = some d at hd
        rw [List.lookup_cons] at hd
        split at hd
        · cases hd
          exact addition_hasDecl m parent name access detached kind
        · exact hadds.keys m hm k d hd
  · cases hkey : m.keyed? key with
    | some d => rw [upsert_of_keyed hkey]
    | none =>
        rw [upsert_of_free hkey]
        exact hadds.bases m c

/-! ## Two passes -/

/-- What two passes are compared with. -/
structure Rerun where
  /-- The model between the passes. -/
  middle : Model
  /-- What the second pass is given up with if a check fails. -/
  failure : IngestError
  /-- Base specifiers are compared too. -/
  hierarchy : Prop

namespace Rerun

variable {α β : Type} (w : Rerun)

/-- The states of the passes at the same place of the dump. The bases of a class in the second pass
are those that the first pass has left, or those that both passes have just read. -/
structure Alike (p q : Progress) : Prop where
  file : q.file = p.file
  nodes : q.nodes = p.nodes
  unnamed : q.unnamed = p.unnamed
  keys : p.model.KeysDeclared
  extension : w.middle.Extends q.model
  size : q.model.decls.size = w.middle.decls.size
  bases : w.hierarchy → ∀ d, q.model.basesOf d = w.middle.basesOf d ∨
    q.model.basesOf d = p.model.basesOf d

/-- How the second pass comes out of a step that the first pass has made to `p`. -/
def Resumes (post : α → Prop) (p : Progress) : Except IngestError α × Progress → Prop
  | (.ok b, q) => w.Alike p q ∧ post b
  | (.error e, _) => e = w.failure

/-- The first pass makes the step `x` where the second one makes `y`. -/
structure Twice (pre : Progress → Progress → Prop) (x y : IngestM α) (post : α → α → Prop) :
    Prop where
  left : Extending x
  again : ∀ p q, w.Alike p q → pre p q → ∀ a p', x.run.run p = (.ok a, p') →
    p'.model.Extends w.middle → w.Resumes (post a) p' (y.run.run q)

/-- What is known between a step of both passes and the next one. -/
structure Between (pre : Progress → Progress → Prop) (x y : IngestM α) (post : α → α → Prop)
    (a b : α) (p q p' q' : Progress) : Prop where
  alike : w.Alike p q
  pre : pre p q
  first : x.run.run p = (.ok a, p')
  second : y.run.run q = (.ok b, q')
  grown : p.model.Extends p'.model
  shared : p'.model.Extends q'.model
  alike' : w.Alike p' q'
  post : post a b

/-- Nothing is known. -/
abbrev always : Progress → Progress → Prop := fun _ _ => True

/-- Nothing is known of the results. -/
abbrev any : α → α → Prop := fun _ _ => True

variable {w} {pre pre' : Progress → Progress → Prop} {x y : IngestM α} {f g : α → IngestM β}
  {post mid : α → α → Prop} {final : β → β → Prop}

namespace Twice

theorem mono (h : w.Twice pre x y post) (hpre : ∀ p q, pre' p q → pre p q) :
    w.Twice pre' x y post :=
  ⟨h.left, fun p q halike hp => h.again p q halike (hpre p q hp)⟩

theorem pure {a b : α} (hab : ∀ p q, pre p q → post a b) :
    w.Twice pre (pure a) (pure b) post := by
  refine ⟨Along.pure a, ?_⟩
  rintro p q halike hp _ _ ⟨⟩ -
  exact ⟨halike, hab p q hp⟩

/-- Steps one after the other: `next` is what the first one leaves for the second one. -/
theorem bind (next : α → α → Progress → Progress → Prop) (hx : w.Twice pre x y mid)
    (hnext : ∀ a b p q p' q', w.Between pre x y mid a b p q p' q' → next a b p' q')
    (hf : ∀ a b, w.Twice (next a b) (f a) (g b) final) :
    w.Twice pre (x >>= f) (y >>= g) final := by
  refine ⟨hx.left.bind fun a => (hf a a).left, ?_⟩
  intro p q halike hp c p'' hrun hmiddle
  have hleft := hx.left p
  rcases hfirst : x.run.run p with ⟨e | a, p'⟩
  · rw [run_bind_of_error hfirst] at hrun
    cases hrun
  · rw [run_bind_of_ok hfirst] at hrun
    rw [hfirst] at hleft
    -- the model between the steps is on the way to `middle` too
    have hgrown : p'.model.Extends p''.model := by
      have hlater := (hf a a).left p'
      rwa [hrun] at hlater
    have hagain := hx.again p q halike hp a p' hfirst (hgrown.trans hmiddle)
    rcases hsecond : y.run.run q with ⟨e | b, q'⟩
    · rw [run_bind_of_error hsecond]
      rw [hsecond] at hagain
      exact hagain
    · rw [run_bind_of_ok hsecond]
      rw [hsecond] at hagain
      obtain ⟨halike', hmid⟩ := hagain
      refine (hf a b).again p' q' halike' (hnext a b p q p' q' ?_) c p'' hrun hmiddle
      exact ⟨halike, hp, hfirst, hsecond, hleft,
        (hgrown.trans hmiddle).trans halike'.extension, halike', hmid⟩

/-- The second step knows nothing of the first one. -/
theorem bind_any (hx : w.Twice pre x y any) (hf : ∀ a b, w.Twice always (f a) (g b) final) :
    w.Twice pre (x >>= f) (y >>= g) final :=
  hx.bind (fun _ _ => always) (fun _ _ _ _ _ _ _ => trivial) hf

/-- What does not depend on the states is known behind the first step too. -/
theorem bind_known {known : Prop} (hx : w.Twice (fun _ _ => known) x y any)
    (hf : ∀ a b, w.Twice (fun _ _ => known) (f a) (g b) final) :
    w.Twice (fun _ _ => known) (x >>= f) (y >>= g) final :=
  hx.bind (fun _ _ _ _ => known) (fun _ _ _ _ _ _ h => h.pre) hf

/-- The first step comes to the same in both passes. -/
theorem bind_same (next : α → Progress → Progress → Prop) (hx : w.Twice pre x y Eq)
    (hnext : ∀ a p q p' q', w.Between pre x y Eq a a p q p' q' → next a p' q')
    (hf : ∀ a, w.Twice (next a) (f a) (g a) final) : w.Twice pre (x >>= f) (y >>= g) final := by
  refine hx.bind (fun a b p q => a = b ∧ next a p q) ?_ fun a b => ⟨(hf a).left, ?_⟩
  · rintro a b p q p' q' h
    obtain rfl := h.post
    exact ⟨rfl, hnext a p q p' q' h⟩
  · rintro p q halike ⟨rfl, hp⟩
    exact (hf a).again p q halike hp

/-- The first step comes to the same in both passes, and the second one knows nothing else. -/
theorem bind_eq (hx : w.Twice pre x y Eq) (hf : ∀ a, w.Twice always (f a) (g a) final) :
    w.Twice pre (x >>= f) (y >>= g) final :=
  hx.bind_same (fun _ => always) (fun _ _ _ _ _ _ => trivial) hf

theorem ite {c : Prop} [Decidable c] {x' y' : IngestM α} (hx : w.Twice pre x y post)
    (hy : w.Twice pre x' y' post) :
    w.Twice pre (if c then x else x') (if c then y else y') post := by
  split
  · exact hx
  · exact hy

/-! ### Lists of nodes -/

theorem foldlM {β : Type} {f g : β → α → IngestM β} {l : List α}
    (hf : ∀ a ∈ l, ∀ b, w.Twice always (f b a) (g b a) Eq) (b : β) :
    w.Twice always (l.foldlM f b) (l.foldlM g b) Eq := by
  induction l generalizing b with
  | nil => exact Twice.pure fun _ _ _ => rfl
  | cons a l ih =>
      rw [List.foldlM_cons, List.foldlM_cons]
      refine (hf a List.mem_cons_self b).bind_eq fun b' => ?_
      exact ih (fun c hc => hf c (List.mem_cons_of_mem a hc)) b'

theorem forM {f g : α → IngestM PUnit} {l : List α}
    (hf : ∀ a ∈ l, w.Twice always (f a) (g a) any) : w.Twice always (l.forM f) (l.forM g) any := by
  induction l with
  | nil => exact Twice.pure fun _ _ _ => trivial
  | cons a l ih =>
      change w.Twice always (f a >>= fun _ => l.forM f) (g a >>= fun _ => l.forM g) any
      refine (hf a List.mem_cons_self).bind_any fun _ _ => ?_
      exact ih fun c hc => hf c (List.mem_cons_of_mem a hc)

theorem mapM {f g : α → IngestM β} {l : List α} (hf : ∀ a ∈ l, w.Twice always (f a) (g a) any) :
    w.Twice always (l.mapM f) (l.mapM g) any := by
  induction l with
  | nil => exact Twice.pure fun _ _ _ => trivial
  | cons a l ih =>
      rw [List.mapM_cons, List.mapM_cons]
      refine (hf a List.mem_cons_self).bind_any fun b b' => ?_
      refine (ih fun c hc => hf c (List.mem_cons_of_mem a hc)).bind_any fun bs bs' => ?_
      exact Twice.pure fun _ _ _ => trivial

/-! ### Steps beside the model -/

/-- What does not touch the model is done alike in both passes. -/
theorem note {h : Progress → Progress} (hmodel : ∀ p, (h p).model = p.model)
    (hsame : ∀ p q, w.Alike p q → (h q).file = (h p).file ∧ (h q).nodes = (h p).nodes ∧
      (h q).unnamed = (h p).unnamed) :
    w.Twice pre (modifyThe Progress h) (modifyThe Progress h) any := by
  refine ⟨Along.note hmodel, ?_⟩
  rintro p q halike - _ _ ⟨⟩ -
  obtain ⟨hfile, hnodes, hunnamed⟩ := hsame p q halike
  refine ⟨⟨hfile, hnodes, hunnamed, ?_, ?_, ?_, fun hw d => ?_⟩, trivial⟩
  · exact hmodel p ▸ halike.keys
  · exact hmodel q ▸ halike.extension
  · exact hmodel q ▸ halike.size
  · rw [hmodel p, hmodel q]
    exact halike.bases hw d

/-- A step that depends on the file alone does so in the same way in both passes. -/
theorem bind_progress {f : Progress → IngestM β}
    (hfile : ∀ p q : Progress, q.file = p.file → f q = f p)
    (hf : ∀ p, w.Twice always (f p) (f p) final) :
    w.Twice pre (getThe Progress >>= f) (getThe Progress >>= f) final := by
  refine ⟨Along.progress.bind fun p => (hf p).left, ?_⟩
  intro p q halike _ c p' hrun hmiddle
  rw [run_bind_of_ok (show (getThe Progress : IngestM Progress).run.run q = (.ok q, q) from rfl),
    hfile p q halike.file]
  exact (hf p).again p q halike trivial c p' hrun hmiddle

theorem check (x : Except IngestError α) :
    w.Twice pre (liftM x : IngestM α) (liftM x : IngestM α) Eq := by
  refine ⟨Along.check x, ?_⟩
  intro p q halike _ a p' hrun _
  cases x with
  | error e => cases hrun
  | ok b =>
      cases hrun
      exact ⟨halike, rfl⟩

/-! ### Steps on the model -/

/-- The first pass may add to the model, and the second one amends it. -/
theorem onModel {x y : ModelM α} (hx : Adds x) (hy : Amends y) :
    w.Twice pre (onModel x) (onModel y) any := by
  refine ⟨Along.onModel hx.extending, ?_⟩
  rintro p q halike - _ _ ⟨⟩ -
  refine ⟨⟨halike.file, halike.nodes, halike.unnamed, ?_, ?_, ?_, fun hw d => ?_⟩, trivial⟩
  · exact hx.keys p.model halike.keys
  · exact halike.extension.trans (hy.extending q.model)
  · exact (hy.size q.model).trans halike.size
  · have hfirst : p.model.basesOf d = _ := (hx.bases p.model d).symm
    have hsecond : _ = q.model.basesOf d := hy.bases q.model d
    exact (halike.bases hw d).imp hsecond.trans fun hboth => hsecond.trans (hboth.trans hfirst)

theorem amends {x y : ModelM α} (hx : Amends x) (hy : Amends y) :
    w.Twice pre (Ast.onModel x) (Ast.onModel y) any := Twice.onModel hx.toAdds hy

theorem amend {x : ModelM α} (hx : Amends x) :
    w.Twice pre (Ast.onModel x) (Ast.onModel x) any := Twice.amends hx hx

theorem interns {x y : ModelM α} (hx : Interns x) (hy : Interns y) :
    w.Twice pre (Ast.onModel x) (Ast.onModel y) any := Twice.amends hx.amends hy.amends

theorem model : w.Twice pre Ast.model Ast.model any := by
  refine ⟨Along.model, ?_⟩
  rintro p q halike - _ _ ⟨⟩ -
  exact ⟨halike, trivial⟩

/-- A declaration is made by the first pass, or was there, and is found by the second one. -/
theorem upsert {kind kind' : ModelM DeclKind} (hkind : Interns kind)
    (hbaseless : ∀ m : Model, (kind.run m).1.Baseless) {key key' : String} {parent parent' : DeclId}
    {name name' : String} {access access' : Access} {detached detached' : Bool}
    (hkey : ∀ p q, pre p q → key = key') {f g : DeclId × Bool → IngestM β}
    (hf : ∀ d created, w.Twice (fun p _ => p.model.HasDecl d) (f (d, created)) (g (d, false)) final) :
    w.Twice pre (Ast.onModel (Ast.upsert key parent name access detached kind) >>= f)
      (Ast.onModel (Ast.upsert key' parent' name' access' detached' kind') >>= g) final := by
  have hadds := upsert_adds hkind hbaseless key parent name access detached
  have hfound : w.Twice pre
      (Ast.onModel (Ast.upsert key parent name access detached kind))
      (Ast.onModel (Ast.upsert key' parent' name' access' detached' kind'))
      fun a b => a.1 = b.1 ∧ b.2 = false := by
    refine ⟨Along.onModel hadds.extending, ?_⟩
    rintro p q halike hp _ _ ⟨⟩ hmiddle
    obtain rfl := hkey p q hp
    -- what the first pass leaves under the key is there in `middle`, and so in the second pass
    have hbound := halike.extension.keys _ _
      (hmiddle.keys _ _ (upsert_keyed p.model key parent name access detached kind))
    rw [run_onModel, upsert_of_keyed hbound]
    refine ⟨⟨halike.file, halike.nodes, halike.unnamed, ?_, halike.extension, halike.size,
      fun hw d => ?_⟩, rfl, rfl⟩
    · exact hadds.keys p.model halike.keys
    · have hfirst : p.model.basesOf d = _ := (hadds.bases p.model d).symm
      exact (halike.bases hw d).imp_right fun hboth => hboth.trans hfirst
  refine hfound.bind (fun a b p _ => (a.1 = b.1 ∧ b.2 = false) ∧ p.model.HasDecl a.1) ?_ ?_
  · rintro a b p q _ q' ⟨-, -, ⟨⟩, -, -, -, halike', hab⟩
    exact ⟨hab, halike'.keys key _ (upsert_keyed p.model key parent name access detached kind)⟩
  · rintro ⟨d, created⟩ ⟨d', created'⟩
    refine ⟨(hf d created).left, ?_⟩
    rintro p q halike ⟨⟨rfl, rfl⟩, hd⟩
    exact (hf d created).again p q halike hd

end Twice

end Rerun

end CppReflect.Ast
