import CppReflect.Proofs.Ast.Noted

/-!
# The file at every decision

Whenever it is decided whether a node is in the main file, the file is the last one that the document
names up to the location and the range of the node. A visit that is watched for this comes to the
same as one that is not, whatever is visited, passed over or belongs to a template in front of the
node.
-/

namespace CppReflect.Ast

variable {α β : Type} {p : Progress}

theorem lastFile_getLast? (before named : List String) :
    lastFile before.getLast? named = (before ++ named).getLast? := by
  rw [List.getLast?_append, lastFile]

/-- Behind a step that leaves the file alone, two steps come to the same on that file. -/
theorem run_quiet_congr {x : IngestM α} {f g : α → IngestM β} (hx : Follows x [])
    (hf : ∀ a (p' : Progress), p'.file = p.file → (f a).run.run p' = (g a).run.run p') :
    (x >>= f).run.run p = (x >>= g).run.run p :=
  run_bind_congr rfl fun a p' hrun => hf a p' (hx p a p' hrun)

/-! ## Handlers with two visitors -/

/-- The visitors come to the same on the node, in any scope, from any state with that file. -/
def AgreeOn (node : Json) (file : Option String) (visit visit' : Visitor) : Prop :=
  ∀ scope access (p : Progress), p.file = file →
    (visit node scope access).run.run p = (visit' node scope access).run.run p

variable {visit visit' : Visitor} {node : Json}

theorem namespaceDecl_congr (h : AgreeOn node p.file visit visit') (parent : DeclId) :
    (namespaceDecl visit node parent).run.run p = (namespaceDecl visit' node parent).run.run p :=
  run_quiet_congr (Follows.onModel _) fun r p' hp' => h r.1 .none p' hp'

theorem recordDecl_congr (h : AgreeOn node p.file visit visit') (parent : DeclId) (access : Access)
    (detached : Option Detached) :
    (recordDecl visit node parent access detached).run.run p =
      (recordDecl visit' node parent access detached).run.run p := by
  unfold recordDecl
  extract_lets name tag data declared declared'
  have hdeclared : ∀ key (q : Progress), q.file = p.file →
      (declared key).run.run q = (declared' key).run.run q := by
    intro key q hq
    refine run_quiet_congr (Follows.onModel _) ?_
    rintro ⟨d, created⟩ q₁ hq₁
    dsimp -zeta only
    extract_lets finished completed completed'
    have hcompleted : ∀ q' : Progress, q'.file = p.file →
        (completed ()).run.run q' = (completed' ()).run.run q' := by
      intro q' hq'
      change (ite _ _ _ : IngestM DeclId).run.run q' = (ite _ _ _ : IngestM DeclId).run.run q'
      split
      · refine run_quiet_congr (Follows.onModel _) fun bases q₂ hq₂ => ?_
        refine run_quiet_congr (Follows.onModel _) fun _ q₃ hq₃ => ?_
        exact run_bind_congr (h d _ q₃ (hq₃.trans (hq₂.trans hq'))) fun _ _ _ => rfl
      · rfl
    split
    · refine run_quiet_congr (Follows.note fun _ => (by rfl)) fun _ q₂ hq₂ => ?_
      exact hcompleted q₂ (hq₂.trans (hq₁.trans hq))
    · exact hcompleted q₁ (hq₁.trans hq)
  split
  · exact hdeclared _ p rfl
  · split
    · exact run_quiet_congr (unnamedKey_follows parent "rec") hdeclared
    · exact hdeclared _ p rfl

theorem specializationDecl_congr (h : AgreeOn node p.file visit visit') (template : DeclId)
    (access : Access) :
    (specializationDecl visit node template access).run.run p =
      (specializationDecl visit' node template access).run.run p := by
  refine run_quiet_congr Follows.model fun _ p₁ hp₁ => ?_
  refine run_quiet_congr (Follows.onModel _) fun args p₂ hp₂ => ?_
  refine run_quiet_congr Follows.model fun _ p₃ hp₃ => ?_
  refine run_bind_congr (recordDecl_congr ?_ _ access _) fun _ _ _ => rfl
  rw [hp₃, hp₂, hp₁]
  exact h

/-! ## Handlers on nodes with the files noted -/

theorem namespaceDecl_noted (visit : Visitor) {before : List String} (parent : DeclId) :
    namespaceDecl visit (noted before node) parent =
      namespaceDecl (fun _ => visit (noted before node)) node parent := by
  simp (disch := decide) only [namespaceDecl, text_noted, flag_noted]

theorem recordDecl_noted (visit : Visitor) {before : List String} (parent : DeclId) (access : Access)
    (detached : Option Detached) :
    recordDecl visit (noted before node) parent access detached =
      recordDecl (fun _ => visit (noted before node)) node parent access detached := by
  unfold recordDecl
  simp (disch := decide) only [text_noted, tagOf_noted, get?_noted, flag_noted,
    baseSpecifiers_noted, passOver_noted]

theorem specializationDecl_noted (visit : Visitor) {before : List String} (template : DeclId)
    (access : Access) :
    specializationDecl visit (noted before node) template access =
      specializationDecl (fun _ => visit (noted before node)) node template access := by
  simp only [specializationDecl, templateArgs_noted, recordDecl_noted visit]

/-- Steps on nodes that stand side by side, of which the files are noted behind those that are named
before. -/
theorem foldlM_noted_congr {f g : β → Json → IngestM β} {items : List Json} {before : List String}
    (hp : p.file = before.getLast?)
    (hsame : ∀ child ∈ items, ∀ before b (p' : Progress), p'.file = before.getLast? →
      (f b (noted before child)).run.run p' = (g b child).run.run p')
    (hfollows : ∀ child ∈ items, ∀ b, Follows (g b child) (namedFiles child)) (b : β) :
    ((notedItems before items).foldlM f b).run.run p = (items.foldlM g b).run.run p := by
  induction items generalizing before p b with
  | nil => rw [notedItems]; rfl
  | cons child rest ih =>
      rw [notedItems, List.foldlM_cons, List.foldlM_cons]
      refine run_bind_congr (hsame child List.mem_cons_self before b p hp) fun b' p' hrun => ?_
      refine ih ?_ (fun c hc => hsame c (List.mem_cons_of_mem child hc))
        (fun c hc => hfollows c (List.mem_cons_of_mem child hc)) b'
      rw [hfollows child List.mem_cons_self b p b' p' hrun, hp, lastFile_getLast?]

theorem forM_noted_congr {f g : Json → IngestM PUnit} {items : List Json} {before : List String}
    (hp : p.file = before.getLast?)
    (hsame : ∀ child ∈ items, ∀ before (p' : Progress), p'.file = before.getLast? →
      (f (noted before child)).run.run p' = (g child).run.run p')
    (hfollows : ∀ child ∈ items, Follows (g child) (namedFiles child)) :
    ((notedItems before items).forM f).run.run p = (items.forM g).run.run p := by
  induction items generalizing before p with
  | nil =>
      rw [notedItems]
      rfl
  | cons child rest ih =>
      rw [notedItems]
      change (f (noted before child) >>= fun _ => (notedItems _ rest).forM f).run.run p =
        (g child >>= fun _ => rest.forM g).run.run p
      refine run_bind_congr (hsame child List.mem_cons_self before p hp) fun _ p' hrun => ?_
      refine ih ?_ (fun c hc => hsame c (List.mem_cons_of_mem child hc))
        fun c hc => hfollows c (List.mem_cons_of_mem child hc)
      rw [hfollows child List.mem_cons_self p _ p' hrun, hp, lastFile_getLast?]

/-- The first visitor does with the files noted what the second one does without. -/
def Visitor.Agrees (visit visit' : Visitor) (depth : Nat) : Prop :=
  ∀ node before, node.depth < depth → Ordered node → Followed node →
    AgreeOn node (before ++ headFiles node).getLast? (fun _ => visit (noted before node)) visit'

variable {depth : Nat} {before : List String}

theorem classTemplateMember_congr (h : visit.Agrees visit' depth) (hdepth : node.depth < depth)
    (ho : Ordered node) (hf : Followed node) (source : Source) (parent : DeclId) (access : Access)
    (template : DeclId) (hp : p.file = before.getLast?) :
    (classTemplateMember visit source parent access template (noted before node)).run.run p =
      (classTemplateMember visit' source parent access template node).run.run p := by
  unfold classTemplateMember
  simp (disch := decide) only [observe_noted, has_noted, kind_noted, flag_noted, passOver_noted,
    recordDecl_noted visit, specializationDecl_noted visit]
  refine run_bind_congr rfl fun _ p₁ hrun => ?_
  have hhere : p₁.file = (before ++ headFiles node).getLast? := by
    rw [observe_follows node p _ p₁ hrun, hp, lastFile_getLast?]
  have hagree : AgreeOn node p₁.file (fun _ => visit (noted before node)) visit' :=
    hhere ▸ h node before hdepth ho hf
  split
  · split
    · exact run_bind_congr (recordDecl_congr hagree parent access _) fun _ _ _ => rfl
    · refine run_quiet_congr Follows.progress fun q p₂ hp₂ => ?_
      split
      · exact specializationDecl_congr (hp₂ ▸ hagree) template access
      · rfl
  · rfl

theorem classTemplateDecl_congr (hvisit : visit'.Follows depth) (h : visit.Agrees visit' depth)
    (hdepth : node.depth < depth) (ho : Ordered node) (hf : Followed node)
    (hkind : kind node = "ClassTemplateDecl") (source : Source) (parent : DeclId) (access : Access)
    (hp : p.file = (before ++ headFiles node).getLast?) :
    (classTemplateDecl visit source (noted before node) parent access).run.run p =
      (classTemplateDecl visit' source node parent access).run.run p := by
  rw [classTemplateDecl_eq, classTemplateDecl_eq]
  simp (disch := decide) only [templateParams_noted, text_noted, children_noted]
  refine run_quiet_congr (Follows.onModel _) fun params p₁ hp₁ => ?_
  refine run_quiet_congr (Follows.onModel _) ?_
  rintro ⟨template, created⟩ p₂ hp₂
  have hdepth' : ∀ child ∈ children node, child.depth < depth := fun child hchild =>
    Nat.lt_trans (depth_of_mem_children hchild) hdepth
  refine forM_noted_congr (hp₂.trans (hp₁.trans hp)) ?_ ?_
  · intro child hchild before' p' hp'
    exact classTemplateMember_congr h (hdepth' child hchild) (ho.inner child hchild)
      (hf.inner child hchild) source parent access template hp'
  · intro child hchild
    exact classTemplateMember_follows hvisit (hdepth' child hchild) (ho.inner child hchild)
      (hf.inner child hchild) (hf.template hkind child hchild) source parent access template

theorem declare_congr (hvisit : visit'.Follows depth) (h : visit.Agrees visit' depth)
    (hdepth : node.depth < depth) (ho : Ordered node) (hf : Followed node) (source : Source)
    (scope : DeclId) (s : MemberState) (hp : p.file = (before ++ headFiles node).getLast?) :
    (declare visit source scope s (noted before node)).run.run p =
      (declare visit' source scope s node).run.run p := by
  have hagree : AgreeOn node p.file (fun _ => visit (noted before node)) visit' :=
    hp ▸ h node before hdepth ho hf
  unfold declare
  simp (disch := decide) only [kind_noted, text_noted, flag_noted, passOver_noted,
    namespaceDecl_noted visit, recordDecl_noted visit,
    specializationDecl_noted visit, usingDirective_noted, functionTemplateDecl_noted,
    enumDecl_noted, typedefDecl_noted, fieldDecl_noted, varDecl_noted, functionDecl_noted]
  have hrecord : ∀ f : DeclId → IngestM MemberState,
      ((if flag node "isImplicit" = true then passOver node >>= fun _ => pure s
        else recordDecl (fun _ => visit (noted before node)) node scope s.access none >>= f) :
          IngestM MemberState).run.run p =
      ((if flag node "isImplicit" = true then passOver node >>= fun _ => pure s
        else recordDecl visit' node scope s.access none >>= f) :
          IngestM MemberState).run.run p := by
    intro f
    split
    · rfl
    · exact run_bind_congr (recordDecl_congr hagree scope s.access none) fun _ _ _ => rfl
  split
  next => rfl
  next => exact run_bind_congr (hagree scope s.access p rfl) fun _ _ _ => rfl
  next => exact run_bind_congr (hagree scope s.access p rfl) fun _ _ _ => rfl
  next => exact run_bind_congr (namespaceDecl_congr hagree scope) fun _ _ _ => rfl
  next => rfl
  next => exact hrecord _
  next => exact hrecord _
  next hkind =>
    exact run_bind_congr (classTemplateDecl_congr hvisit h hdepth ho hf hkind source scope s.access
      hp) fun _ _ _ => rfl
  next =>
    refine run_quiet_congr Follows.model fun m p₁ hp₁ => ?_
    split
    · exact run_bind_congr (specializationDecl_congr (hp₁ ▸ hagree) _ s.access) fun _ _ _ => rfl
    · rfl
  all_goals rfl

/-! ## Watched decisions -/

/-- The file in the state is the one that is noted at the node. -/
def FileNoted : MemberTest := fun _ node p => ∀ file, notedFile? node = some file → p.file = file

theorem visitMember_congr (hvisit : visit'.Follows depth) (h : visit.Agrees visit' depth)
    (hdepth : node.depth < depth) (ho : Ordered node) (hf : Followed node) (e : IngestError)
    (source : Source) (scope : DeclId) (s : MemberState) (hp : p.file = before.getLast?) :
    (visitMemberWatched FileNoted e visit source scope s (noted before node)).run.run p =
      (visitMember visit' source scope s node).run.run p := by
  unfold visitMemberWatched visitMember
  rw [observe_noted]
  refine run_bind_congr rfl fun _ p₁ hrun => ?_
  have hhere : p₁.file = (before ++ headFiles node).getLast? := by
    rw [observe_follows node p _ p₁ hrun, hp, lastFile_getLast?]
  refine run_bind_congr rfl fun q p₂ hq => ?_
  obtain ⟨rfl, rfl⟩ : p₁ = q ∧ p₁ = p₂ := by cases hq; exact ⟨rfl, rfl⟩
  -- the watched decision
  have hpasses : FileNoted scope (noted before node) p₁ := fun file hfile =>
    hhere.trans (notedFile?_noted hfile).symm
  rw [if_pos hpasses, has_noted (by decide), passOver_noted]
  split
  · exact declare_congr hvisit h hdepth ho hf source scope s hhere
  · rfl

/-- The watched visitor does with the files noted what the visitor does without. -/
theorem visitMembers_agrees (e : IngestError) (source : Source) (fuel : Nat) :
    Visitor.Agrees (visitMembersWatched FileNoted e source fuel) (visitMembers source fuel) fuel := by
  induction fuel with
  | zero => exact fun node _ hdepth => absurd hdepth (Nat.not_lt_zero _)
  | succ fuel ih =>
      intro node before hdepth ho hf scope access p hp
      have hdepth' : ∀ child ∈ children node, child.depth < fuel := fun child hchild =>
        Nat.lt_of_lt_of_le (depth_of_mem_children hchild) (Nat.le_of_lt_succ hdepth)
      have hvisit := visitMembers_follows source fuel
      change (visitMembersWatched FileNoted e source (fuel + 1) (noted before node) scope
        access).run.run p = _
      unfold visitMembersWatched visitMembers
      rw [children_noted]
      refine run_bind_congr (foldlM_noted_congr hp ?_ ?_ _) fun _ _ _ => rfl
      · intro child hchild before' s p' hp'
        exact visitMember_congr hvisit ih (hdepth' child hchild) (ho.inner child hchild)
          (hf.inner child hchild) e source scope s hp'
      · intro child hchild s
        exact visitMember_follows hvisit (hdepth' child hchild) (ho.inner child hchild)
          (hf.inner child hchild) source scope s

/-- In a dump whose nodes list their locations in the order of the document, the file at every
decision is the last one that is named up to there, if nothing is left out on the way: a visit that
is given up where it is not, whatever with, is never given up for that. -/
theorem file_at_decisions {dump : Json} (ho : Ordered dump) (hf : Followed dump) (source : Source)
    (m : Model) (e : IngestError) :
    (visitDumpWatched FileNoted e source (noted [] dump)).run.run (start m) =
      (visitDump source dump).run.run (start m) := by
  unfold visitDumpWatched visitDump
  rw [observe_noted, depth_noted]
  refine run_bind_congr rfl fun _ p' hrun => ?_
  refine visitMembers_agrees e source _ dump [] (Nat.lt_succ_self _) ho hf Model.root .none p' ?_
  rw [observe_follows dump (start m) _ p' hrun]
  exact lastFile_getLast? [] _

/-- A namespace of a header in which a macro of the main file declares a variable. -/
def headerDump : Json :=
  .obj [("kind", .str "TranslationUnitDecl"), ("inner", .arr [
    .obj [("kind", .str "NamespaceDecl"), ("loc", .obj [("file", .str "a.h")]),
      ("name", .str "N"), ("inner", .arr [
        .obj [("kind", .str "VarDecl"), ("loc", .obj [
            ("spellingLoc", .obj [("file", .str "b.h")]),
            ("expansionLoc", .obj [("file", .str "a.cpp")])]),
          ("name", .str "x")]])],
    .obj [("kind", .str "VarDecl"), ("loc", .obj [("line", .int 7)]), ("name", .str "y")]])]

theorem file_at_decisions_header :
    Ordered headerDump ∧ Followed headerDump ∧
      (visitDumpWatched FileNoted .malformed ⟨"", "a.cpp"⟩ (noted [] headerDump)).run.run
          (start .empty) =
        (visitDump ⟨"", "a.cpp"⟩ headerDump).run.run (start .empty) := by
  have ho : Ordered headerDump := by
    refine .mk rfl (List.forall_mem_cons.mpr ⟨?_, List.forall_mem_singleton.mpr ?_⟩)
    · exact .mk rfl (List.forall_mem_singleton.mpr (.mk rfl (List.forall_mem_nil _)))
    · exact .mk rfl (List.forall_mem_nil _)
  have hf : Followed headerDump := by
    have hother : ∀ {node : Json}, kind node ≠ "AccessSpecDecl" → kind node ≠ "ClassTemplateDecl" →
        (∀ child ∈ children node, Followed child) → Followed node := fun ha ht hinner =>
      .mk (absurd · ha) (absurd · ht) hinner
    refine hother (by decide) (by decide)
      (List.forall_mem_cons.mpr ⟨?_, List.forall_mem_singleton.mpr ?_⟩)
    · refine hother (by decide) (by decide) (List.forall_mem_singleton.mpr ?_)
      exact hother (by decide) (by decide) (List.forall_mem_nil _)
    · exact hother (by decide) (by decide) (List.forall_mem_nil _)
  exact ⟨ho, hf, file_at_decisions ho hf ⟨"", "a.cpp"⟩ .empty .malformed⟩

end CppReflect.Ast
