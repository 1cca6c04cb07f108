import CppReflect.Proofs.Ast.Document
import CppReflect.Proofs.Ast.Run

/-!
# Visits follow the document

A node that is visited leaves the file that reading it in the order of the document leaves, be it
declared or passed over. Two places are left out on the way: what stands in an access specifier, and
what stands in a node without a location in a class template.
-/

namespace CppReflect.Ast

/-- No file is named in an access specifier, nor in a node without a location that stands directly
in a class template. -/
inductive Followed : Json → Prop
  | mk {node : Json} (access : kind node = "AccessSpecDecl" → itemFiles (children node) = [])
      (template : kind node = "ClassTemplateDecl" → ∀ child ∈ children node,
        has child "loc" = false → itemFiles (children child) = [])
      (inner : ∀ child ∈ children node, Followed child) : Followed node

namespace Followed

variable {node : Json}

theorem access (h : Followed node) (hkind : kind node = "AccessSpecDecl") :
    itemFiles (children node) = [] := by
  obtain ⟨haccess, _, _⟩ := h
  exact haccess hkind

theorem template (h : Followed node) (hkind : kind node = "ClassTemplateDecl") :
    ∀ child ∈ children node, has child "loc" = false → itemFiles (children child) = [] := by
  obtain ⟨_, htemplate, _⟩ := h
  exact htemplate hkind

theorem inner (h : Followed node) : ∀ child ∈ children node, Followed child := by
  obtain ⟨_, _, hinner⟩ := h
  exact hinner

end Followed

/-- Where the step comes to an answer, the last of the files is the last file. -/
def Follows {α : Type} (x : IngestM α) (files : List String) : Prop :=
  ∀ p a p', x.run.run p = (.ok a, p') → p'.file = lastFile p.file files

namespace Follows

variable {α β : Type}

theorem pure (a : α) : Follows (pure a : IngestM α) [] := by
  intro p b p' hrun
  obtain ⟨_, rfl⟩ := Prod.mk.inj hrun
  rfl

theorem bind {x : IngestM α} {f : α → IngestM β} {files more : List String} (hx : Follows x files)
    (hf : ∀ a, Follows (f a) more) : Follows (x >>= f) (files ++ more) := by
  intro p b p' hrun
  rcases hfirst : x.run.run p with ⟨e | a, p₁⟩
  · rw [run_bind_of_error hfirst] at hrun
    cases hrun
  · rw [run_bind_of_ok hfirst] at hrun
    rw [hf a p₁ b p' hrun, hx p a p₁ hfirst, lastFile_append]

/-- A step behind one that leaves the file alone. -/
theorem quiet_bind {x : IngestM α} {f : α → IngestM β} {files : List String} (hx : Follows x [])
    (hf : ∀ a, Follows (f a) files) : Follows (x >>= f) files := by
  rw [← List.nil_append files]
  exact hx.bind hf

/-- A step in front of one that leaves the file alone. -/
theorem bind_quiet {x : IngestM α} {f : α → IngestM β} {files : List String} (hx : Follows x files)
    (hf : ∀ a, Follows (f a) []) : Follows (x >>= f) files := by
  rw [← List.append_nil files]
  exact hx.bind hf

theorem ite {c : Prop} [Decidable c] {x y : IngestM α} {files : List String}
    (hx : c → Follows x files) (hy : ¬c → Follows y files) :
    Follows (if c then x else y) files := by
  split
  next hc => exact hx hc
  next hc => exact hy hc

theorem onModel (x : ModelM α) : Follows (onModel x) [] := by
  intro p a p' hrun
  rw [run_onModel] at hrun
  obtain ⟨_, rfl⟩ := Prod.mk.inj hrun
  rfl

theorem check (x : Except IngestError α) : Follows (liftM x : IngestM α) [] := by
  cases x with
  | ok a => exact pure a
  | error e =>
      intro p b p' hrun
      cases hrun

theorem progress : Follows (getThe Progress : IngestM Progress) [] := by
  intro p a p' hrun
  obtain ⟨_, rfl⟩ := Prod.mk.inj hrun
  rfl

theorem model : Follows Ast.model [] := by
  intro p a p' hrun
  obtain ⟨_, rfl⟩ := Prod.mk.inj hrun
  rfl

theorem note {g : Progress → Progress} {files : List String}
    (hg : ∀ p, (g p).file = lastFile p.file files) :
    Follows (modifyThe Progress g : IngestM PUnit) files := by
  intro p a p' hrun
  obtain ⟨_, rfl⟩ := Prod.mk.inj hrun
  exact hg p

/-- Steps on nodes that stand side by side, each of which follows its node. -/
theorem foldlM {f : β → Json → IngestM β} {nodes : List Json}
    (hf : ∀ child ∈ nodes, ∀ b, Follows (f b child) (namedFiles child)) (b : β) :
    Follows (nodes.foldlM f b) (itemFiles nodes) := by
  induction nodes generalizing b with
  | nil => exact pure b
  | cons child rest ih =>
      rw [List.foldlM_cons]
      exact (hf child List.mem_cons_self b).bind
        (ih fun c hc => hf c (List.mem_cons_of_mem child hc))

theorem forM {f : Json → IngestM PUnit} {nodes : List Json}
    (hf : ∀ child ∈ nodes, Follows (f child) (namedFiles child)) :
    Follows (nodes.forM f) (itemFiles nodes) := by
  induction nodes with
  | nil => exact pure _
  | cons child rest ih =>
      change Follows (f child >>= fun _ => rest.forM f) _
      exact (hf child List.mem_cons_self).bind fun _ =>
        ih fun c hc => hf c (List.mem_cons_of_mem child hc)

theorem mapM {f : α → IngestM β} {l : List α} (hf : ∀ a ∈ l, Follows (f a) []) :
    Follows (l.mapM f) [] := by
  induction l with
  | nil => exact pure []
  | cons a l ih =>
      rw [List.mapM_cons]
      refine (hf a List.mem_cons_self).quiet_bind fun b => ?_
      exact (ih fun c hc => hf c (List.mem_cons_of_mem a hc)).quiet_bind fun bs => pure _

end Follows

theorem observe_follows (node : Json) : Follows (observe node) (headFiles node) :=
  Follows.note fun p => fileAfterNode_eq node p.file

theorem passOver_follows (node : Json) : Follows (passOver node) (itemFiles (children node)) :=
  Follows.note fun p => fileAfterItems_eq (children node) p.file

theorem unnamedKey_follows (scope : DeclId) (sort : String) : Follows (unnamedKey scope sort) [] :=
  Follows.progress.quiet_bind fun _ => (Follows.note fun _ => (by rfl)).quiet_bind fun _ =>
    Follows.pure _

theorem ownerOf_follows (node : Json) (scope : DeclId) : Follows (ownerOf node scope) [] :=
  Follows.progress.quiet_bind fun _ => Follows.pure _

/-! ## Handlers -/

/-- A visitor that follows the nodes inside, down to a depth. -/
def Visitor.Follows (visit : Visitor) (depth : Nat) : Prop :=
  ∀ node scope access, node.depth < depth → Ordered node → Followed node →
    Ast.Follows (visit node scope access) (itemFiles (children node))

variable {visit : Visitor} {depth : Nat} {node : Json}

theorem depth_of_mem {v : Json} {items : List Json} (h : v ∈ items) :
    v.depth ≤ Json.depthOfItems items := by
  induction items with
  | nil => cases h
  | cons w rest ih =>
      unfold Json.depthOfItems
      rcases List.mem_cons.mp h with rfl | h
      · exact Nat.le_max_left _ _
      · exact Nat.le_trans (ih h) (Nat.le_max_right _ _)

theorem depth_of_mem_children {child : Json} (h : child ∈ children node) :
    child.depth < node.depth := by
  unfold children at h
  cases hinner : (node.get? "inner").bind Json.items? with
  | none => simp [hinner] at h
  | some items =>
      rw [hinner, Option.getD_some] at h
      obtain ⟨v, hv, hitems⟩ := Option.bind_eq_some_iff.mp hinner
      cases node with
      | obj fields =>
          cases v with
          | arr items' =>
              obtain rfl := Option.some.inj hitems
              have hchild := depth_of_mem h
              have hfield := depth_of_lookup hv
              rw [Json.depth] at hfield
              rw [Json.depth.eq_def (.obj fields)]
              dsimp only
              omega
          | null | bool | int | float | str | obj => cases hitems
      | null | bool | int | float | str | arr => cases hv

theorem namespaceDecl_follows (hvisit : visit.Follows depth) (hdepth : node.depth < depth)
    (ho : Ordered node) (hf : Followed node) (parent : DeclId) :
    Follows (namespaceDecl visit node parent) (itemFiles (children node)) :=
  (Follows.onModel _).quiet_bind fun r => hvisit node r.1 .none hdepth ho hf

theorem recordDecl_follows (hvisit : visit.Follows depth) (hdepth : node.depth < depth)
    (ho : Ordered node) (hf : Followed node) (parent : DeclId) (access : Access)
    (detached : Option Detached) :
    Follows (recordDecl visit node parent access detached) (itemFiles (children node)) := by
  unfold recordDecl
  extract_lets name tag data declared
  have hdeclared : ∀ key, Follows (declared key) (itemFiles (children node)) := by
    intro key
    refine (Follows.onModel _).quiet_bind ?_
    rintro ⟨d, created⟩
    dsimp -zeta only
    extract_lets finished completed
    have hcompleted : Follows (completed ()) (itemFiles (children node)) := by
      refine Follows.ite (fun _ => ?_) fun _ => ?_
      · refine (Follows.onModel _).quiet_bind fun bases => (Follows.onModel _).quiet_bind fun _ => ?_
        refine (hvisit node d _ hdepth ho hf).bind_quiet fun _ => ?_
        exact (Follows.onModel _).quiet_bind fun _ => Follows.pure d
      · exact (passOver_follows node).bind_quiet fun _ => Follows.pure d
    split
    · exact (Follows.note fun _ => (by rfl)).quiet_bind fun _ => hcompleted
    · exact hcompleted
  split
  · exact (Follows.pure _).quiet_bind hdeclared
  · refine Follows.ite (fun _ => ?_) fun _ => ?_
    · exact (unnamedKey_follows parent "rec").quiet_bind hdeclared
    · exact (Follows.pure _).quiet_bind hdeclared

theorem specializationDecl_follows (hvisit : visit.Follows depth) (hdepth : node.depth < depth)
    (ho : Ordered node) (hf : Followed node) (template : DeclId) (access : Access) :
    Follows (specializationDecl visit node template access) (itemFiles (children node)) :=
  Follows.model.quiet_bind fun _ => (Follows.onModel _).quiet_bind fun _ =>
    Follows.model.quiet_bind fun _ =>
      (recordDecl_follows hvisit hdepth ho hf _ access _).bind_quiet fun _ => Follows.onModel _

/-- A node in a class template is left out only if it has no location. -/
theorem classTemplateMember_follows (hvisit : visit.Follows depth) (hdepth : node.depth < depth)
    (ho : Ordered node) (hf : Followed node)
    (hleft : has node "loc" = false → itemFiles (children node) = []) (source : Source)
    (parent : DeclId) (access : Access) (template : DeclId) :
    Follows (classTemplateMember visit source parent access template node) (namedFiles node) := by
  rw [ho.files]
  refine (observe_follows node).bind fun _ => Follows.ite (fun _ => ?_) fun hloc => ?_
  · refine Follows.ite (fun _ => ?_) fun _ => ?_
    · exact (recordDecl_follows hvisit hdepth ho hf parent access _).bind_quiet fun _ =>
        Follows.onModel _
    · refine Follows.progress.quiet_bind fun p => Follows.ite (fun _ => ?_) fun _ => ?_
      · exact specializationDecl_follows hvisit hdepth ho hf template access
      · exact passOver_follows node
  · rw [hleft (by simpa using hloc)]
    exact Follows.pure _

theorem classTemplateDecl_follows (hvisit : visit.Follows depth) (hdepth : node.depth < depth)
    (ho : Ordered node) (hf : Followed node) (hkind : kind node = "ClassTemplateDecl")
    (source : Source) (parent : DeclId) (access : Access) :
    Follows (classTemplateDecl visit source node parent access) (itemFiles (children node)) := by
  rw [classTemplateDecl_eq]
  refine (Follows.onModel _).quiet_bind fun params => (Follows.onModel _).quiet_bind ?_
  rintro ⟨template, created⟩
  refine Follows.forM fun child hchild => ?_
  have hdepth' := Nat.lt_trans (depth_of_mem_children hchild) hdepth
  exact classTemplateMember_follows hvisit hdepth' (ho.inner child hchild) (hf.inner child hchild)
    (hf.template hkind child hchild) source parent access template

theorem functionParams_follows (source : Source) (node : Json) (context : DeclId) :
    Follows (functionParams source node context) [] :=
  Follows.mapM fun _ _ => (Follows.check _).quiet_bind fun _ => (Follows.onModel _).quiet_bind
    fun _ => Follows.pure _

theorem functionDecl_follows (source : Source) (node : Json) (scope : DeclId) (access : Access)
    (detachedKey : Option String) :
    Follows (functionDecl source node scope access detachedKey) (itemFiles (children node)) := by
  refine (ownerOf_follows node scope).quiet_bind fun owner => ?_
  refine (Follows.onModel _).quiet_bind fun type => Follows.model.quiet_bind fun _ => ?_
  refine (functionParams_follows source node owner).quiet_bind fun params => ?_
  refine Follows.model.quiet_bind fun _ => (Follows.onModel _).quiet_bind fun special => ?_
  refine (Follows.onModel _).quiet_bind fun returnType => (Follows.onModel _).quiet_bind ?_
  rintro ⟨d, created⟩
  dsimp -zeta only
  extract_lets finished
  have hfinished : Follows (finished ()) (itemFiles (children node)) :=
    Follows.model.quiet_bind fun _ => (Follows.onModel _).quiet_bind fun _ =>
      (passOver_follows node).bind_quiet fun _ => Follows.pure d
  exact Follows.ite (fun _ => (Follows.onModel _).quiet_bind fun _ => hfinished) fun _ => hfinished

theorem functionTemplateMember_follows (ho : Ordered node) (source : Source) (parent : DeclId)
    (access : Access) (template : DeclId) (pattern : Option DeclId) :
    Follows (functionTemplateMember source parent access template pattern node)
      (namedFiles node) := by
  rw [ho.files]
  refine (observe_follows node).bind fun _ => Follows.ite (fun _ => ?_) fun _ => ?_
  · cases pattern with
    | none =>
        exact (functionDecl_follows source node parent access _).bind_quiet fun d =>
          (Follows.onModel _).quiet_bind fun _ => Follows.pure _
    | some pattern =>
        refine (Follows.onModel _).quiet_bind fun args => Follows.model.quiet_bind fun _ => ?_
        exact (functionDecl_follows source node parent access _).bind_quiet fun d =>
          (Follows.onModel _).quiet_bind fun _ => (Follows.onModel _).quiet_bind fun _ =>
            Follows.pure _
  · exact (passOver_follows node).bind_quiet fun _ => Follows.pure _

theorem functionTemplateDecl_follows (ho : Ordered node) (source : Source) (parent : DeclId)
    (access : Access) :
    Follows (functionTemplateDecl source node parent access) (itemFiles (children node)) := by
  refine (Follows.onModel _).quiet_bind fun params => (Follows.onModel _).quiet_bind ?_
  rintro ⟨template, created⟩
  refine Follows.bind_quiet (Follows.foldlM (fun child hchild pattern => ?_) none) fun pattern =>
    Follows.onModel _
  exact functionTemplateMember_follows (ho.inner child hchild) source parent access template pattern

theorem fieldDecl_follows (node : Json) (record : DeclId) (access : Access) :
    Follows (fieldDecl node record access) [] := by
  unfold fieldDecl
  extract_lets name declared
  have hdeclared : ∀ key, Follows (declared key) [] := fun key =>
    (Follows.onModel _).quiet_bind fun _ => Follows.pure _
  refine Follows.ite (fun _ => ?_) fun _ => ?_
  · exact (unnamedKey_follows record "field").quiet_bind hdeclared
  · exact (Follows.pure _).quiet_bind hdeclared

theorem varDecl_follows (node : Json) (scope : DeclId) (access : Access) :
    Follows (varDecl node scope access) [] := by
  refine (ownerOf_follows node scope).quiet_bind fun owner => (Follows.onModel _).quiet_bind ?_
  rintro ⟨d, created⟩
  dsimp only
  split
  · exact Follows.onModel _
  · exact Follows.pure _

theorem enumeratorDecl_follows (ho : Ordered node) (enum : DeclId) (type : TypeId)
    (r : EnumeratorRange) : Follows (enumeratorDecl enum type r node) (namedFiles node) := by
  rw [ho.files]
  refine (observe_follows node).bind fun _ => Follows.ite (fun _ => ?_) fun _ => ?_
  · refine (Follows.onModel _).quiet_bind ?_
    rintro ⟨d, created⟩
    exact (Follows.onModel _).quiet_bind fun _ => (passOver_follows node).bind_quiet fun _ =>
      Follows.pure _
  · exact (passOver_follows node).bind_quiet fun _ => Follows.pure _

theorem enumDecl_follows (ho : Ordered node) (parent : DeclId) (access : Access) :
    Follows (enumDecl node parent access) (itemFiles (children node)) := by
  unfold enumDecl
  extract_lets name isScoped declared
  have hdeclared : ∀ key, Follows (declared key) (itemFiles (children node)) := by
    intro key
    refine (Follows.onModel _).quiet_bind ?_
    rintro ⟨d, created⟩
    refine (Follows.onModel _).quiet_bind fun type => ?_
    refine Follows.bind_quiet (Follows.foldlM (fun child hchild r => ?_) _) fun range => ?_
    · exact enumeratorDecl_follows (ho.inner child hchild) d type r
    · extract_lets completed
      have hcompleted : ∀ integerType, Follows (completed integerType) [] := fun _ =>
        Follows.onModel _
      split
      · exact (Follows.onModel _).quiet_bind hcompleted
      · exact (Follows.onModel _).quiet_bind hcompleted
  refine Follows.ite (fun _ => ?_) fun _ => ?_
  · exact (unnamedKey_follows parent "enum").quiet_bind hdeclared
  · exact (Follows.pure _).quiet_bind hdeclared

theorem typedefDecl_follows (node : Json) (parent : DeclId) (access : Access)
    (unnamed : Option DeclId) : Follows (typedefDecl node parent access unnamed) [] := by
  unfold typedefDecl
  extract_lets name spelling namesUnnamed
  exact (Follows.onModel _).quiet_bind fun _ => Follows.pure _

/-! ## Visiting -/

theorem recordMember_follows (hvisit : visit.Follows depth) (hdepth : node.depth < depth)
    (ho : Ordered node) (hf : Followed node) (scope : DeclId) (s : MemberState) :
    Follows (recordMember visit scope s node) (itemFiles (children node)) := by
  refine Follows.ite (fun _ => ?_) fun _ => ?_
  · exact (passOver_follows node).bind_quiet fun _ => Follows.pure s
  · exact (recordDecl_follows hvisit hdepth ho hf scope s.access none).bind_quiet fun d =>
      Follows.ite (fun _ => Follows.pure _) fun _ => Follows.pure s

theorem declare_follows (hvisit : visit.Follows depth) (hdepth : node.depth < depth)
    (ho : Ordered node) (hf : Followed node) (source : Source) (scope : DeclId) (s : MemberState) :
    Follows (declare visit source scope s node) (itemFiles (children node)) := by
  unfold declare
  extract_lets finished
  have hthen : ∀ {x : IngestM PUnit} {files : List String}, Follows x files →
      Follows (x >>= finished) files := fun hx => hx.bind_quiet fun _ => Follows.pure s
  have hskip : Follows (passOver node >>= finished) (itemFiles (children node)) :=
    hthen (passOver_follows node)
  have hvisited : Follows (visit node scope s.access >>= finished) (itemFiles (children node)) :=
    hthen (hvisit node scope s.access hdepth ho hf)
  split
  next hkind =>
    rw [hf.access hkind]
    exact Follows.pure _
  next => exact hvisited
  next => exact hvisited
  next => exact hthen (namespaceDecl_follows hvisit hdepth ho hf scope)
  next => exact (Follows.onModel _).quiet_bind fun _ => hskip
  next => exact recordMember_follows hvisit hdepth ho hf scope s
  next => exact recordMember_follows hvisit hdepth ho hf scope s
  next hkind =>
    exact hthen (classTemplateDecl_follows hvisit hdepth ho hf hkind source scope s.access)
  next =>
    refine Follows.model.quiet_bind fun m => ?_
    extract_lets found
    clear_value found
    cases found with
    | some template => exact hthen (specializationDecl_follows hvisit hdepth ho hf template s.access)
    | none => exact hskip
  next => exact hthen (functionTemplateDecl_follows ho source scope s.access)
  next => exact hthen (enumDecl_follows ho scope s.access)
  next => exact (typedefDecl_follows node scope s.access s.unnamed).quiet_bind fun _ => hskip
  next => exact (typedefDecl_follows node scope s.access s.unnamed).quiet_bind fun _ => hskip
  next => exact (fieldDecl_follows node scope s.access).quiet_bind fun _ => hskip
  next => exact (varDecl_follows node scope s.access).quiet_bind fun _ => hskip
  next =>
    refine Follows.ite (fun _ => ?_) fun _ => hskip
    exact (functionDecl_follows source node scope s.access none).bind_quiet fun _ => Follows.pure s

/-- A member is followed, whether it is declared or passed over. -/
theorem visitMember_follows (hvisit : visit.Follows depth) (hdepth : node.depth < depth)
    (ho : Ordered node) (hf : Followed node) (source : Source) (scope : DeclId) (s : MemberState) :
    Follows (visitMember visit source scope s node) (namedFiles node) := by
  rw [ho.files]
  refine (observe_follows node).bind fun _ => Follows.progress.quiet_bind fun p => ?_
  refine Follows.ite (fun _ => ?_) fun _ => ?_
  · exact declare_follows hvisit hdepth ho hf source scope s
  · exact (passOver_follows node).bind_quiet fun _ => Follows.pure s

/-- The visitor that is tied to the handlers follows every node that is less deep than it goes. -/
theorem visitMembers_follows (source : Source) (fuel : Nat) :
    Visitor.Follows (visitMembers source fuel) fuel := by
  induction fuel with
  | zero => exact fun node _ _ hdepth => absurd hdepth (Nat.not_lt_zero _)
  | succ fuel ih =>
      intro node scope access hdepth ho hf
      refine Follows.bind_quiet (Follows.foldlM (fun child hchild s => ?_) _) fun _ =>
        Follows.pure _
      have hdepth' := Nat.lt_of_lt_of_le (depth_of_mem_children hchild) (Nat.le_of_lt_succ hdepth)
      exact visitMember_follows ih hdepth' (ho.inner child hchild) (hf.inner child hchild) source
        scope s

end CppReflect.Ast
