import CppReflect.Proofs.Instances
import CppReflect.Proofs.Operation.Conversions
import CppReflect.Proofs.Operation.Handles

/-!
# The best of some overloads

The candidates are gone through one by one, and so are the functions that they stand for, while
types are put into the table all the time. None of that matters for the answer: it is the one
function among those that the candidates stand for that costs strictly less than every other one,
and there is no answer if there is no such function. So the order of the candidates does not matter
either, nor how often each is there.
-/

namespace CppReflect

namespace Overload

open Model (Keeps)

variable {m m' : Model}

/-! ## Standings -/

/-- The standing tells of the functions that were compared, with their costs, one that costs least
and whether another one costs the same. -/
inductive Standing.Tells (seen : DeclId → Nat → Prop) : Standing → Prop
  | nothing {tied : Bool} (hnone : ∀ f c, ¬seen f c) : Tells seen ⟨none, tied⟩
  | best {c : Nat} {f : DeclId} {tied : Bool} (hseen : seen f c)
    (hleast : ∀ g c', seen g c' → c ≤ c') (htied : tied = true ↔ ∃ g, g ≠ f ∧ seen g c) :
    Tells seen ⟨some (c, f), tied⟩

namespace Standing.Tells

variable {s : Standing} {seen : DeclId → Nat → Prop}

theorem congr {seen' : DeclId → Nat → Prop} (h : Tells seen s)
    (hsame : ∀ f c, seen f c ↔ seen' f c) : Tells seen' s := by
  obtain rfl : seen = seen' := funext fun f => funext fun c => propext (hsame f c)
  exact h

/-- A function that costs less than all others is the only best one. -/
theorem ahead {cost : Nat} {func : DeclId} (hless : ∀ g c, seen g c → cost < c) :
    Tells (fun f c => seen f c ∨ f = func ∧ c = cost) ⟨some (cost, func), false⟩ := by
  refine .best (.inr ⟨rfl, rfl⟩) ?_ ⟨nofun, ?_⟩
  · rintro g c (hg | ⟨-, rfl⟩)
    · exact Nat.le_of_lt (hless g c hg)
    · exact Nat.le_refl _
  · rintro ⟨g, hne, hg | ⟨rfl, -⟩⟩
    · exact absurd (hless g cost hg) (Nat.lt_irrefl _)
    · exact absurd rfl hne

theorem add (h : Tells seen s) (cost : Nat) (func : DeclId) :
    Tells (fun f c => seen f c ∨ f = func ∧ c = cost) (s.add cost func) := by
  cases h with
  | nothing hnone => exact ahead fun g c hg => absurd hg (hnone g c)
  | @best c f tied hseen hleast htied =>
      have hleast' (hle : c ≤ cost) (g : DeclId) (c' : Nat)
          (hg : seen g c' ∨ g = func ∧ c' = cost) : c ≤ c' := by
        rcases hg with hg | ⟨-, rfl⟩
        · exact hleast g c' hg
        · exact hle
      dsimp only [Standing.add]
      split
      next heq =>
        -- another function at the least cost so far
        exact .best (.inl hseen) (hleast' (Nat.le_of_eq heq.1.symm))
          ⟨fun _ => ⟨func, heq.2.symm, .inr ⟨rfl, heq.1.symm⟩⟩, fun _ => rfl⟩
      next hother =>
        split
        next hle =>
          -- a function that costs more, or the best one once more
          refine .best (.inl hseen) (hleast' hle) (htied.trans ?_)
          refine exists_congr fun g => and_congr_right fun hne => ⟨.inl, ?_⟩
          rintro (hg | ⟨rfl, rfl⟩)
          · exact hg
          · exact absurd ⟨rfl, hne.symm⟩ hother
        next hlt =>
          exact ahead fun g c' hg => Nat.lt_of_lt_of_le (Nat.lt_of_not_le hlt) (hleast g c' hg)

/-- The winner costs strictly less than every other function. -/
theorem winner?_eq_some_iff (h : Tells seen s) (f : DeclId) :
    s.winner? = some f ↔ ∃ c, seen f c ∧ ∀ g c', seen g c' → g ≠ f → c < c' := by
  unfold Standing.winner?
  cases h with
  | nothing hnone =>
      refine ⟨fun hf => ?_, fun ⟨c, hc, _⟩ => absurd hc (hnone f c)⟩
      split at hf <;> cases hf
  | @best c best tied hseen hleast htied =>
      constructor
      · intro hf
        split at hf
        next => cases hf
        next hfree =>
          obtain rfl : best = f := Option.some.inj hf
          refine ⟨c, hseen, fun g c' hg hne => Nat.lt_of_le_of_ne (hleast g c' hg) ?_⟩
          rintro rfl
          exact hfree (htied.mpr ⟨g, hne, hg⟩)
      · rintro ⟨c', hf, hless⟩
        obtain rfl : best = f := by
          by_contra hne
          exact absurd (hleast f c' hf) (Nat.not_le_of_lt (hless best c hseen hne))
        have hfree : ¬tied = true := fun ht => by
          obtain ⟨g, hne, hg⟩ := htied.mp ht
          exact absurd (hleast best c' hf) (Nat.not_le_of_lt (hless g c hg hne))
        rw [if_neg hfree]
        rfl

end Standing.Tells

/-- Comparing functions goes by the costs in the model that one starts with, and ends with a
standing that tells of all of them. -/
theorem cheapest?_keeps (h : m.WellFormed) {args : List TypeId} (hargs : ∀ a ∈ args, m.HasType a)
    {functions : List DeclId} {s : Standing} {seen : DeclId → Nat → Prop}
    (hs : Standing.Tells seen s) :
    m.Keeps (cheapest? args functions s) fun f _ => ∃ s', f = Standing.winner? s' ∧
      Standing.Tells (fun f c => seen f c ∨ f ∈ functions ∧ callCost? m args f = some c) s' := by
  induction functions generalizing m s seen with
  | nil => exact Keeps.pure h ⟨s, rfl, by simpa using hs⟩
  | cons func functions ih =>
      refine ((cost?_keeps h hargs func).interned (cost?_interns args func)).bind
        fun cost m₁ hwf₁ hgrow₁ ⟨hcost, hi₁⟩ => ?_
      have hargs₁ : ∀ a ∈ args, m₁.HasType a := fun a ha => hgrow₁.hasType (hargs a ha)
      have hsame := callCost?_eq hi₁ h hwf₁ hargs
      cases cost with
      | none =>
          refine (ih hwf₁ hargs₁ hs).weaken fun f _ _ _ ⟨s', hf, hs'⟩ => ⟨s', hf, hs'.congr ?_⟩
          intro g c
          rw [hsame, List.mem_cons]
          refine or_congr_right ⟨fun hg => ⟨.inr hg.1, hg.2⟩, ?_⟩
          rintro ⟨rfl | hg, hc⟩
          · cases hcost.trans hc
          · exact ⟨hg, hc⟩
      | some cost =>
          refine (ih hwf₁ hargs₁ (hs.add cost func)).weaken fun f _ _ _ ⟨s', hf, hs'⟩ =>
            ⟨s', hf, hs'.congr ?_⟩
          intro g c
          rw [hsame, List.mem_cons, or_assoc]
          refine or_congr_right ⟨?_, ?_⟩
          · rintro (⟨rfl, rfl⟩ | hg)
            · exact ⟨.inl rfl, hcost.symm⟩
            · exact ⟨.inr hg.1, hg.2⟩
          · rintro ⟨rfl | hg, hc⟩
            · exact .inl ⟨rfl, Option.some.inj (hc.symm.trans hcost.symm)⟩
            · exact .inr ⟨hg, hc⟩

/-! ## Deduced arguments -/

theorem forall_mem_of_mapM {α β : Type} {f : α → Option β} {P : β → Prop}
    (hf : ∀ a b, f a = some b → P b) {l : List α} {k : List β} (h : l.mapM f = some k) :
    ∀ b ∈ k, P b := by
  induction l generalizing k with
  | nil =>
      obtain rfl := Option.some.inj h
      exact fun _ hb => absurd hb List.not_mem_nil
  | cons a l ih =>
      rw [List.mapM_cons] at h
      obtain ⟨b, hb, htail⟩ := Option.bind_eq_some_iff.mp h
      obtain ⟨rest, hrest, heq⟩ := Option.bind_eq_some_iff.mp htail
      obtain rfl := Option.some.inj heq
      exact List.forall_mem_cons.mpr ⟨hf a b hb, ih hrest⟩

/-- A type without reference and qualifiers. -/
def strippedNode (m : Model) (t : TypeId) : TypeNode :=
  ⟨(m.node (m.nonReference t)).kind, (m.node (m.nonReference t)).quals.without .all⟩

theorem strippedNode_parts (h : m.WellFormed) (t : TypeId) :
    ∀ p ∈ (strippedNode m t).kind.parts, m.HasType p := fun _ hp => (h.node_parts hp).2

theorem strippedNode_eq (hi : m.Interned m') (h : m.WellFormed) (h' : m'.WellFormed) {t : TypeId}
    (ht : m.HasType t) : strippedNode m' t = strippedNode m t := by
  unfold strippedNode
  rw [h.nonReference_grows hi.growsTo h' ht, hi.growsTo.node (h.nonReference_hasType ht)]

theorem stripped_keeps (h : m.WellFormed) {t : TypeId} (ht : m.HasType t) :
    m.Keeps (stripped t) fun u m' => m'.types.get? u = some (strippedNode m t) := by
  refine (Model.askAlong_keeps h _ _).bind fun r m₁ hwf₁ hgrow₁ hr => ?_
  subst hr
  have hkeeps := Model.withoutQuals_keeps hwf₁ (m.nonReference t) .all
  rw [hgrow₁.node (h.nonReference_hasType ht)] at hkeeps
  exact hkeeps

/-- What is deduced for a template parameter. -/
def deducedNode? (m : Model) (name : String) : List TypeId → List TypeId → Option TypeNode
  | param :: params, arg :: args =>
    if m.nodeText (strippedNode m param) = name then some (strippedNode m arg)
    else deducedNode? m name params args
  | _, _ => none

theorem deducedNode?_parts (h : m.WellFormed) {name : String} {params args : List TypeId}
    {n : TypeNode} (hn : deducedNode? m name params args = some n) :
    ∀ p ∈ n.kind.parts, m.HasType p := by
  induction params generalizing args with
  | nil => cases hn
  | cons param params ih =>
      cases args with
      | nil => cases hn
      | cons arg args =>
          unfold deducedNode? at hn
          split at hn
          · obtain rfl := Option.some.inj hn
            exact strippedNode_parts h arg
          · exact ih hn

theorem deducedNode?_eq (hi : m.Interned m') (h : m.WellFormed) (h' : m'.WellFormed) (name : String)
    {params args : List TypeId} (hparams : ∀ p ∈ params, m.HasType p)
    (hargs : ∀ a ∈ args, m.HasType a) :
    deducedNode? m' name params args = deducedNode? m name params args := by
  induction params generalizing args with
  | nil => rfl
  | cons param params ih =>
      cases args with
      | nil => rfl
      | cons arg args =>
          rw [List.forall_mem_cons] at hparams hargs
          unfold deducedNode?
          rw [strippedNode_eq hi h h' hparams.1, strippedNode_eq hi h h' hargs.1,
            hi.nodeText_eq h (strippedNode_parts h param), ih hparams.2 hargs.2]

theorem deduce?_keeps (h : m.WellFormed) (name : String) {params args : List TypeId}
    (hparams : ∀ p ∈ params, m.HasType p) (hargs : ∀ a ∈ args, m.HasType a) :
    m.Keeps (deduce? name params args) fun t? m' =>
      Option.Rel (fun n t => m'.types.get? t = some n) (deducedNode? m name params args) t? := by
  induction params generalizing m args with
  | nil => exact Keeps.pure h .none
  | cons param params ih =>
      cases args with
      | nil => exact Keeps.pure h .none
      | cons arg args =>
          rw [List.forall_mem_cons] at hparams hargs
          refine ((stripped_keeps h hparams.1).interned (stripped_interns param)).bind
            fun spelled m₁ hwf₁ hgrow₁ ⟨hspelled, hi₁⟩ => Keeps.get_bind ?_
          rw [hi₁.typeText_eq_nodeText h (strippedNode_parts h param) hspelled, deducedNode?]
          split
          · refine (stripped_keeps hwf₁ (hgrow₁.hasType hargs.1)).bind fun t m₂ hwf₂ _ ht => ?_
            rw [strippedNode_eq hi₁ h hwf₁ hargs.1] at ht
            exact Keeps.pure hwf₂ (.some ht)
          · rw [← deducedNode?_eq hi₁ h hwf₁ name hparams.2 hargs.2]
            exact ih hwf₁ (fun p hp => hgrow₁.hasType (hparams.2 p hp))
              fun a ha => hgrow₁.hasType (hargs.2 a ha)

/-- The argument is the type with a node. -/
def IsNodeArg (m : Model) (n : TypeNode) (a : TemplateArg) : Prop :=
  a.value = none ∧ m.types.get? a.type = some n

theorem deduceAll?_keeps (h : m.WellFormed) {params args : List TypeId}
    (hparams : ∀ p ∈ params, m.HasType p) (hargs : ∀ a ∈ args, m.HasType a) (names : List String) :
    m.Keeps (deduceAll? params args names) fun as? m' =>
      Option.Rel (List.Forall₂ (IsNodeArg m'))
        (names.mapM fun name => deducedNode? m name params args) as? := by
  induction names generalizing m with
  | nil => exact Keeps.pure h (.some .nil)
  | cons name names ih =>
      refine ((deduce?_keeps h name hparams hargs).interned
        (deduce?_interns name params args)).bind fun t? m₁ hwf₁ hgrow₁ ⟨ht?, hi₁⟩ => ?_
      rw [List.mapM_cons]
      revert ht?
      generalize deducedNode? m name params args = n?
      intro ht?
      cases ht? with
      | none => exact Keeps.pure hwf₁ .none
      | @some n t ht =>
          have hsame := funext fun name => deducedNode?_eq hi₁ h hwf₁ name hparams hargs
          refine (ih hwf₁ (fun p hp => hgrow₁.hasType (hparams p hp))
            fun a ha => hgrow₁.hasType (hargs a ha)).bind fun as? m₂ hwf₂ hgrow₂ has? => ?_
          rw [hsame] at has?
          refine Keeps.pure hwf₂ ?_
          revert has?
          generalize names.mapM (fun name => deducedNode? m name params args) = ns?
          intro has?
          cases has? with
          | none => exact .none
          | some has => exact .some (.cons ⟨rfl, hgrow₂.types _ _ ht⟩ has)

/-! ## What candidates stand for -/

/-- The types that a candidate is instantiated with are those of the model. -/
def Candidate.Placed (m : Model) : Candidate → Prop
  | .function _ => True
  | .template _ args => ∀ a ∈ args, m.HasType a.type

theorem Candidate.Placed.grows {c : Candidate} (hc : c.Placed m) (hgrow : m.GrowsTo m') :
    c.Placed m' := by
  cases c with
  | function d => trivial
  | template d args => exact fun a ha => hgrow.hasType (hc a ha)

/-- The function that a candidate stands for. -/
def Candidate.standsFor? (m : Model) : Candidate → Option DeclId
  | .function d => some d
  | .template d args => m.instanceSpelled? d (args.map m.argText)

theorem instanceSpelled?_eq (hi : m.Interned m') (h : m.WellFormed) (h' : m'.WellFormed)
    (template : DeclId) (texts : List String) :
    m'.instanceSpelled? template texts = m.instanceSpelled? template texts := by
  rw [Model.instanceSpelled?, Model.instanceText, hi.sameDecls.qualifiedName_eq,
    hi.lookupNamed_eq h h', Model.instanceSpelled?, Model.instanceText]

theorem argText_eq (hi : m.Interned m') (h : m.WellFormed) {a : TemplateArg}
    (ha : m.HasType a.type) : m'.argText a = m.argText a := by
  rw [Model.argText, hi.typeText_grows h ha, Model.argText]

theorem Candidate.standsFor?_eq (hi : m.Interned m') (h : m.WellFormed) (h' : m'.WellFormed)
    {c : Candidate} (hc : c.Placed m) : c.standsFor? m' = c.standsFor? m := by
  cases c with
  | function d => rfl
  | template d args =>
      change m'.instanceSpelled? d _ = m.instanceSpelled? d _
      rw [instanceSpelled?_eq hi h h', List.map_congr_left fun a ha => argText_eq hi h (hc a ha)]

/-- An instantiation that fails leaves nothing to choose from, unless it is given up. -/
theorem run_tried {x : ServiceM DeclId} {w w' : Workbench} {e : CompilerError}
    {found : Option DeclId} (he : e ≠ .excessive)
    (hx : x.run.run w = (found.elim (.error e) .ok, w')) :
    (tryCatch (some <$> x) fun e => if e = .excessive then throw e else return none :
      ServiceM (Option DeclId)).run.run w = (.ok found, w') := by
  unfold ExceptT.run StateT.run at *
  simp only [tryCatch, tryCatchThe, MonadExceptOf.tryCatch, ExceptT.tryCatch, ExceptT.mk,
    Functor.map, ExceptT.map, bind, StateT.bind]
  rw [hx]
  cases found with
  | none =>
      change (if e = .excessive then throw e else return none : ServiceM (Option DeclId)) w' = _
      rw [if_neg he]
      rfl
  | some d => rfl

/-- On a rehearsed interpreter an instantiation is looked up, and nothing is changed. -/
theorem Candidate.run_function? {w : Workbench} {r : Rehearsal}
    (hr : w.interpreter.backend = .rehearsed r) (c : Candidate) :
    c.function?.run.run w = (.ok (c.standsFor? w.interpreter.model), w) := by
  cases c with
  | function d => rfl
  | template d args =>
      refine run_tried (e := .unsupported "no such specialization in the model") (by decide) ?_
      rw [Service.instantiateFunction, run_bind_ok run_backend, hr]
      exact run_instantiate d args

theorem run_functions {w : Workbench} {r : Rehearsal} (hr : w.interpreter.backend = .rehearsed r)
    (cs : List Candidate) : (filterMapM Candidate.function? cs).run.run w =
      (.ok (cs.filterMap (Candidate.standsFor? w.interpreter.model)), w) := by
  induction cs with
  | nil => rfl
  | cons c cs ih =>
      rw [filterMapM, run_bind_ok (Candidate.run_function? hr c), run_bind_ok ih,
        List.filterMap_cons]
      cases c.standsFor? w.interpreter.model <;> rfl

/-- The instance of a function template with arguments that are given and others that are
deduced. -/
def deducedInstance? (m : Model) (given : List TemplateArg) (args : List TypeId) (template : DeclId)
    (info : TemplateInfo) : Option DeclId :=
  info.pattern.bind fun pattern =>
    let names := (info.params.drop given.length).map TemplateParam.name
    let params := ((m.function? pattern).elim [] FunctionInfo.params).map ParamInfo.type
    (names.mapM fun name => deducedNode? m name params args).bind fun nodes =>
      m.instanceSpelled? template (given.map m.argText ++ nodes.map m.nodeText)

/-- The function that a handle among the candidates stands for. -/
def offered? (m : Model) (given : List TemplateArg) (args : List TypeId) (h : Handle) :
    Option DeclId :=
  (m.declOfHandle? h).bind fun d =>
    match (m.decl d).kind with
    | .function _ => some d
    | .functionTemplate info => deducedInstance? m given args d info
    | _ => none

theorem patternParams_hasType (h : m.WellFormed) (pattern : DeclId) :
    ∀ p ∈ ((m.function? pattern).elim [] FunctionInfo.params).map ParamInfo.type, m.HasType p := by
  cases hinfo : m.function? pattern with
  | none => exact fun _ hp => absurd hp List.not_mem_nil
  | some info => exact param_hasType h hinfo

section Candidates

variable {given : List TemplateArg} {args : List TypeId}

theorem deducedNodes_parts (h : m.WellFormed) {params : List TypeId} {names : List String}
    {nodes : List TypeNode}
    (hnodes : (names.mapM fun name => deducedNode? m name params args) = some nodes) :
    ∀ n ∈ nodes, ∀ p ∈ n.kind.parts, m.HasType p :=
  forall_mem_of_mapM (fun _ _ hn => deducedNode?_parts h hn) hnodes

/-- Arguments that are deduced have the texts of their nodes. -/
theorem argTexts_of_nodes (hi : m.Interned m') (h : m.WellFormed) {nodes : List TypeNode}
    (hnodes : ∀ n ∈ nodes, ∀ p ∈ n.kind.parts, m.HasType p) {as : List TemplateArg}
    (has : List.Forall₂ (IsNodeArg m') nodes as) :
    as.map m'.argText = nodes.map m.nodeText := by
  induction has with
  | nil => rfl
  | @cons n a nodes as ha _ ih =>
      rw [List.forall_mem_cons] at hnodes
      rw [List.map_cons, List.map_cons, ih hnodes.2, Model.argText, ha.1, Option.getD_none,
        hi.typeText_eq_nodeText h hnodes.1 ha.2]

theorem candidate?_keeps (h : m.WellFormed) (hgiven : ∀ a ∈ given, m.HasType a.type)
    (hargs : ∀ a ∈ args, m.HasType a) (x : Handle) :
    m.Keeps (candidate? given args x) fun c? m' =>
      c?.bind (Candidate.standsFor? m') = offered? m given args x ∧ ∀ c ∈ c?, c.Placed m' := by
  refine Keeps.get_bind ?_
  unfold offered?
  cases hd : m.declOfHandle? x with
  | none => exact Keeps.pure h ⟨rfl, nofun⟩
  | some d =>
      dsimp only [Option.bind_some]
      cases hkind : (m.decl d).kind with
      | function info => exact Keeps.pure h ⟨rfl, fun c hc => by cases hc; trivial⟩
      | functionTemplate info =>
          dsimp only
          unfold deducedInstance?
          cases info.pattern with
          | none => exact Keeps.pure h ⟨rfl, nofun⟩
          | some pattern =>
              have hparams := patternParams_hasType h pattern
              dsimp only [Option.bind_some]
              generalize ((m.function? pattern).elim [] FunctionInfo.params).map ParamInfo.type =
                params at hparams
              generalize (info.params.drop given.length).map TemplateParam.name = names
              refine ((deduceAll?_keeps h hparams hargs names).interned
                (deduceAll?_interns params args names)).bind
                  fun rest? m₁ hwf₁ hgrow₁ ⟨hrest?, hi₁⟩ => Keeps.pure hwf₁ ?_
              generalize hnodes : (names.mapM fun name => deducedNode? m name params args) =
                nodes? at hrest?
              cases hrest? with
              | none => exact ⟨rfl, nofun⟩
              | @some nodes rest hrest =>
                  rw [Option.map_some, Option.bind_some, Option.bind_some, Candidate.standsFor?,
                    instanceSpelled?_eq hi₁ h hwf₁, List.map_append,
                    List.map_congr_left fun a ha => argText_eq hi₁ h (hgiven a ha),
                    argTexts_of_nodes hi₁ h (deducedNodes_parts h hnodes) hrest]
                  refine ⟨rfl, ?_⟩
                  rintro _ ⟨rfl⟩
                  refine List.forall_mem_append.mpr ⟨fun a ha => hgrow₁.hasType (hgiven a ha), ?_⟩
                  exact Model.forall_mem_of_forall₂ hrest fun _ _ ha => Model.hasType_of_get? ha.2
      | _ => exact Keeps.pure h ⟨rfl, nofun⟩

theorem deducedInstance?_eq (hi : m.Interned m') (h : m.WellFormed) (h' : m'.WellFormed)
    (hgiven : ∀ a ∈ given, m.HasType a.type) (hargs : ∀ a ∈ args, m.HasType a) :
    deducedInstance? m' given args = deducedInstance? m given args := by
  funext template info
  refine congrArg (Option.bind _) (funext fun pattern => ?_)
  have hparams := patternParams_hasType h pattern
  dsimp only
  rw [hi.function?_eq]
  generalize ((m.function? pattern).elim [] FunctionInfo.params).map ParamInfo.type =
    params at hparams
  rw [funext fun name => deducedNode?_eq hi h h' name hparams hargs]
  cases hnodes : ((info.params.drop given.length).map TemplateParam.name).mapM fun name =>
      deducedNode? m name params args with
  | none => rw [Option.bind_none, Option.bind_none]
  | some nodes =>
      rw [Option.bind_some, Option.bind_some, instanceSpelled?_eq hi h h',
        List.map_congr_left fun a ha => argText_eq hi h (hgiven a ha),
        List.map_congr_left fun n hn => hi.nodeText_eq h (deducedNodes_parts h hnodes n hn)]

theorem offered?_eq (hi : m.Interned m') (h : m.WellFormed) (h' : m'.WellFormed)
    (hgiven : ∀ a ∈ given, m.HasType a.type) (hargs : ∀ a ∈ args, m.HasType a) (x : Handle) :
    offered? m' given args x = offered? m given args x := by
  have hhandle : m'.declOfHandle? x = m.declOfHandle? x := by
    rw [Model.declOfHandle?, hi.decls, Model.declOfHandle?]
  unfold offered?
  rw [hhandle, deducedInstance?_eq hi h h' hgiven hargs]
  simp only [hi.sameDecls.decl_eq]

theorem candidates_keeps (h : m.WellFormed) (hgiven : ∀ a ∈ given, m.HasType a.type)
    (hargs : ∀ a ∈ args, m.HasType a) (xs : List Handle) :
    m.Keeps (filterMapM (candidate? given args) xs) fun cs m' =>
      cs.filterMap (Candidate.standsFor? m') = xs.filterMap (offered? m given args) ∧
        ∀ c ∈ cs, c.Placed m' := by
  induction xs generalizing m with
  | nil => exact Keeps.pure h ⟨rfl, nofun⟩
  | cons x xs ih =>
      refine ((candidate?_keeps h hgiven hargs x).interned (candidate?_interns given args x)).bind
        fun c? m₁ hwf₁ hgrow₁ ⟨⟨hc, hplaced⟩, hi₁⟩ => ?_
      refine ((ih hwf₁ (fun a ha => hgrow₁.hasType (hgiven a ha))
        fun a ha => hgrow₁.hasType (hargs a ha)).interned (candidates_interns given args xs)).bind
          fun cs m₂ hwf₂ hgrow₂ ⟨⟨hcs, hplaced'⟩, hi₂⟩ => Keeps.pure hwf₂ ?_
      rw [List.filterMap_cons, ← hc,
        ← List.filterMap_congr fun x _ => offered?_eq hi₁ h hwf₁ hgiven hargs x, ← hcs]
      cases c? with
      | none => exact ⟨rfl, hplaced'⟩
      | some c =>
          have hc' := hplaced c rfl
          refine ⟨?_, List.forall_mem_cons.mpr ⟨hc'.grows hgrow₂, hplaced'⟩⟩
          rw [Option.bind_some, ← Candidate.standsFor?_eq hi₂ hwf₁ hwf₂ hc']
          exact List.filterMap_cons

end Candidates

/-! ## The best one -/

/-- The function that a handle stands for when it is the only candidate. -/
def functionOf? (given : List TemplateArg) (args : List TypeId) (h : Handle) :
    ServiceM (Option DeclId) := do
  match ← Service.onModel (candidate? given args h) with
  | none => return none
  | some c => c.function?

/-- One of the candidates stands for the function, and it can be called at the cost. Each question
is asked of the interpreter as it is at the start. -/
def Viable (w : Workbench) (given : List TemplateArg) (args : List TypeId)
    (candidates : List Handle) (f : DeclId) (c : Nat) : Prop :=
  (∃ h ∈ candidates, ((functionOf? given args h).run.run w).1 = .ok (some f)) ∧
    ((cost? args f).run w.interpreter.model).1 = some c

/-- The workbench with another model. -/
def onModelOf (w : Workbench) (m : Model) : Workbench :=
  { w with interpreter := { w.interpreter with model := m } }

theorem run_onModel {α : Type} (x : ModelM α) (w : Workbench) : (Service.onModel x).run.run w =
    (.ok (x.run w.interpreter.model).1, onModelOf w (x.run w.interpreter.model).2) := rfl

section Best

variable {w : Workbench} {r : Rehearsal} (hr : w.interpreter.backend = .rehearsed r)
  (h : w.interpreter.model.WellFormed) {given : List TemplateArg} {args : List TypeId}
  (hgiven : ∀ a ∈ given, w.interpreter.model.HasType a.type)
  (hargs : ∀ a ∈ args, w.interpreter.model.HasType a)

include hr h hgiven hargs

theorem run_functionOf? (x : Handle) : ((functionOf? given args x).run.run w).1 =
    .ok (offered? w.interpreter.model given args x) := by
  have hkeeps := candidate?_keeps h hgiven hargs x
  rw [functionOf?, run_bind_ok (run_onModel _ w), ← hkeeps.answer.1]
  cases ((candidate? given args x).run w.interpreter.model).1 with
  | none => rfl
  | some c =>
      have hrun (m : Model) := Candidate.run_function? (show (onModelOf w m).interpreter.backend = _
        from hr) c
      exact congrArg Prod.fst (hrun _)

theorem viable_iff (candidates : List Handle) (f : DeclId) (c : Nat) :
    Viable w given args candidates f c ↔
      f ∈ candidates.filterMap (offered? w.interpreter.model given args) ∧
        callCost? w.interpreter.model args f = some c := by
  unfold Viable
  rw [List.mem_filterMap, (cost?_keeps h hargs f).answer]
  simp only [run_functionOf? hr h hgiven hargs, Except.ok.injEq]

/-- The choice is made among the functions that the candidates stand for at the start, by what they
cost at the start. -/
theorem run_choice (candidates : List Handle) : ∃ answer,
    ((do
      let prepared ← Service.onModel (filterMapM (candidate? given args) candidates)
      let functions ← filterMapM Candidate.function? prepared
      Service.onModel (cheapest? args functions {}) : ServiceM (Option DeclId)).run.run w).1 =
        .ok answer ∧
      ∀ f, answer = some f ↔ ∃ c, Viable w given args candidates f c ∧
        ∀ g c', Viable w given args candidates g c' → g ≠ f → c < c' := by
  obtain ⟨hwf, hgrow, ⟨hoffered, -⟩, hi⟩ := (candidates_keeps h hgiven hargs candidates).interned
    (candidates_interns given args candidates)
  rw [run_bind_ok (run_onModel _ w)]
  generalize (filterMapM (candidate? given args) candidates).run w.interpreter.model = prepared at *
  obtain ⟨prepared, m⟩ := prepared
  rw [run_bind_ok (run_functions (show (onModelOf w m).interpreter.backend = _ from hr) prepared),
    run_onModel]
  have hnothing : Standing.Tells (fun _ _ => False) {} := .nothing fun _ _ => id
  obtain ⟨s, hanswer, hs⟩ := (cheapest?_keeps hwf (fun a ha => hgrow.hasType (hargs a ha))
    hnothing).answer
  refine ⟨_, rfl, fun f => ?_⟩
  change ((cheapest? args (prepared.filterMap (Candidate.standsFor? m)) {}).run m).1 = some f ↔ _
  rw [hanswer, hs.winner?_eq_some_iff]
  simp only [viable_iff hr h hgiven hargs, ← hoffered, callCost?_eq hi h hwf hargs, false_or]

end Best

theorem templateArg_hasType {requests : List Query.ArgRequest} {given : List TemplateArg}
    (hgiven : Query.templateArgs? m requests = some given) :
    ∀ a ∈ given, m.HasType a.type := by
  refine forall_mem_of_mapM (fun request a ha => ?_) hgiven
  obtain ⟨t, ht, rfl⟩ := Option.map_eq_some_iff.mp ha
  have hasType := (m.guardsHandles.type _ t ht).2
  cases request.value <;> exact hasType

/-- On a rehearsed interpreter the answer is the one function that costs strictly less than every
other function that the candidates stand for, and none if there is no such function. Each function
and its cost are those that one gets when nothing else is asked for, so only which candidates there
are matters. -/
theorem best?_is_cheapest {w : Workbench} {r : Rehearsal}
    (hr : w.interpreter.backend = .rehearsed r)
    (h : w.interpreter.model.WellFormed) {given args : List Query.ArgRequest}
    {templateArgs : List TemplateArg} {types : List TypeId}
    (hgiven : Query.templateArgs? w.interpreter.model given = some templateArgs)
    (hargs : (args.mapM fun a => w.interpreter.model.typeOfHandle? a.type) = some types)
    (candidates : List Handle) :
    ∃ answer, ((best? candidates given args).run.run w).1 = .ok answer ∧
      (∀ f, answer = some f ↔ ∃ c, Viable w templateArgs types candidates f c ∧
        ∀ g c', Viable w templateArgs types candidates g c' → g ≠ f → c < c') ∧
      ∀ candidates', (∀ x, x ∈ candidates' ↔ x ∈ candidates) →
        ((best? candidates' given args).run.run w).1 = .ok answer := by
  have hrun (candidates : List Handle) : ∃ answer,
      ((best? candidates given args).run.run w).1 = .ok answer ∧
        ∀ f, answer = some f ↔ ∃ c, Viable w templateArgs types candidates f c ∧
          ∀ g c', Viable w templateArgs types candidates g c' → g ≠ f → c < c' := by
    rw [best?, run_bind_ok run_model]
    rw [hgiven, hargs]
    have htypes := forall_mem_of_mapM (fun a t ht => ((Model.guardsHandles _).type a.type t ht).2)
      hargs
    exact run_choice hr h (templateArg_hasType hgiven) htypes candidates
  obtain ⟨answer, hanswer, hiff⟩ := hrun candidates
  refine ⟨answer, hanswer, hiff, fun candidates' hsame => ?_⟩
  obtain ⟨answer', hanswer', hiff'⟩ := hrun candidates'
  have hviable : Viable w templateArgs types candidates' =
      Viable w templateArgs types candidates := by
    funext f c
    simp only [Viable, hsame]
  rw [hviable] at hiff'
  rw [hanswer', Option.ext fun f => (hiff' f).trans (hiff f).symm]

/-- Of a function for `double` and a function template that has an instance for `int`, the instance
takes an `int` at the least cost. A handle that names nothing makes no difference. -/
theorem best?_is_cheapest_instance :
    let intern (k : TypeKind) (m : Model) := ((Request.intern ⟨k, .none⟩).perform.run m).2
    let declare (f : Drafting) (type : TypeId) (m : Model) :=
      ((Request.declareFunction f [.params [⟨"x", type, none⟩]]).perform.run m).2
    let types := intern (.named "T") (intern (.builtin .double) (intern (.builtin .int)
      (intern .void .empty)))
    let double := declare (.function Model.root "f" ⟨0⟩) ⟨2⟩ types
    let template := declare (.functionTemplate Model.root "f" ["T"] ⟨0⟩) ⟨3⟩ double
    let m := declare (.functionSpecialization ⟨2⟩ [.ofType ⟨1⟩] ⟨0⟩) ⟨1⟩ template
    let w : Workbench := ⟨.rehearsed m, default⟩
    Viable w [] [⟨1⟩] [2, 3, 99] ⟨1⟩ 1 ∧ Viable w [] [⟨1⟩] [2, 3, 99] ⟨4⟩ 0 ∧
      ((best? [2, 3, 99] [] [⟨2, none⟩]).run.run w).1 = .ok (some ⟨4⟩) := by
  intro intern declare types double template m w
  have hintern {n : Model} (hn : n.Reachable) (k : TypeKind) (hparts : k.parts = [])
      (hdecl : k.decl? = none) : (intern k n).Reachable :=
    .step hn (.intern ⟨k, .none⟩) ⟨by simp [hparts], by simp [hdecl]⟩
  have htypes : types.Reachable :=
    hintern (hintern (hintern (hintern .empty _ rfl rfl) _ rfl rfl) _ rfl rfl) _ rfl rfl
  have hdouble : double.Reachable := .step htypes (.declareFunction _ _)
    ⟨⟨by decide +kernel, by decide +kernel⟩, by simpa [DraftEdit.Valid] using by decide +kernel⟩
  have htemplate : template.Reachable := .step hdouble (.declareFunction _ _)
    ⟨⟨by decide +kernel, by decide +kernel⟩, by simpa [DraftEdit.Valid] using by decide +kernel⟩
  have hm : m.Reachable := .step htemplate (.declareFunction _ _)
    ⟨⟨by decide +kernel, by decide +kernel⟩, by simpa [DraftEdit.Valid] using by decide +kernel⟩
  have hoffered : [2, 3, 99].filterMap (offered? m [] [⟨1⟩]) = [⟨1⟩, ⟨4⟩] := by decide +kernel
  have hint : m.typeOfHandle? 2 = some ⟨1⟩ := by decide +kernel
  have hargs : ∀ a ∈ [(⟨1⟩ : TypeId)], m.HasType a :=
    List.forall_mem_singleton.mpr (m.guardsHandles.type 2 ⟨1⟩ hint).2
  have hcost (f : DeclId) := (cost?_keeps hm.wellFormed hargs f).answer
  have hdoubleCost : callCost? m [⟨1⟩] ⟨1⟩ = some 1 := (hcost _).symm.trans (by decide +kernel)
  have hintCost : callCost? m [⟨1⟩] ⟨4⟩ = some 0 := (hcost _).symm.trans (by decide +kernel)
  have hgiven : ∀ a ∈ ([] : List TemplateArg), m.HasType a.type := by simp
  clear_value m
  have hviable (f : DeclId) (c : Nat) : Viable w [] [⟨1⟩] [2, 3, 99] f c ↔
      f ∈ [⟨1⟩, ⟨4⟩] ∧ callCost? m [⟨1⟩] f = some c := by
    rw [← hoffered]
    exact viable_iff (w := w) rfl hm.wellFormed hgiven hargs [2, 3, 99] f c
  have hgivenNone : Query.templateArgs? w.interpreter.model [] = some [] := rfl
  have hasked : ([⟨2, none⟩] : List Query.ArgRequest).mapM
      (fun a => w.interpreter.model.typeOfHandle? a.type) = some [⟨1⟩] := by
    simp [w, Interpreter.rehearsed, hint]
  obtain ⟨answer, hanswer, hbest, -⟩ :=
    best?_is_cheapest (w := w) rfl hm.wellFormed hgivenNone hasked [2, 3, 99]
  have hdoubleViable : Viable w [] [⟨1⟩] [2, 3, 99] ⟨1⟩ 1 :=
    (hviable _ _).mpr ⟨by decide, hdoubleCost⟩
  have hintViable : Viable w [] [⟨1⟩] [2, 3, 99] ⟨4⟩ 0 := (hviable _ _).mpr ⟨by decide, hintCost⟩
  refine ⟨hdoubleViable, hintViable, ?_⟩
  rw [hanswer, (hbest ⟨4⟩).mpr ⟨0, hintViable, fun g c hg hne => ?_⟩]
  obtain ⟨hg, hc⟩ := (hviable g c).mp hg
  obtain rfl | rfl := List.mem_pair.mp hg
  · cases hdoubleCost.symm.trans hc
    decide
  · exact absurd rfl hne

end Overload

end CppReflect
