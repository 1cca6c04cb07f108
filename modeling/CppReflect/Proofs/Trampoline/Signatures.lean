import CppReflect.Proofs.Trampoline.Arguments

/-!
# The types of functions in trampolines

A free function that gets all its arguments is called through a cast to a reference to its type. The
text of this type is put together from a spelling of the result and the texts of the parameters, two
on a line. It denotes the type of references to the function's type, unless the spelling of the
result has lost something: an rvalue reference is spelled as an lvalue reference, and pointers,
references and `void` are spelled without qualifiers at their top.
-/

namespace CppReflect

open Spelling (textTokens joinTokens OpSound OpsSound scan_lone_append scan_append_lone
  scan_append_blank)
open Spelling.Token (scan)

/-- Nothing of the type is lost where it is spelled as a result. What is taken off before is a
pointer, unless that is one to a function, or a reference. -/
def TypeTree.keptInCast : TypeTree → Bool
  | .node .void q _ => q = .none
  | .node (.pointer _) q [T] => q = .none ∨ T.shape.isFunction = true
  | .node (.lvalueReference _) q _ => q = .none
  | .node (.rvalueReference _) _ _ => false
  | _ => true

/-- A type without qualifiers at its top is kept, unless it is a reference. -/
theorem Model.WellFormed.keptInCast_canonTree {m : Model} (h : m.WellFormed) {t : TypeId}
    (ht : m.HasType t) (hquals : (m.desugared t).quals = .none)
    (hvalue : (m.kindOf t).referee?.isSome = false) : (m.canonTree t).keptInCast = true := by
  rw [h.canonTree_eq ht, hquals]
  cases hkind : m.kindOf t with
  | lvalueReference p | rvalueReference p => simp [hkind, TypeKind.referee?] at hvalue
  | _ => rfl

namespace Trampoline

/-! ## Lists that are spread over lines -/

theorem scan_indentation (level : Nat) (cs : List Char) :
    scan ((indentation level).toList ++ cs) = scan cs := by
  induction level with
  | zero => rfl
  | succ level ih =>
      have hblanks : (indentation (level + 1)).toList =
          ' ' :: ' ' :: ' ' :: (indentation level).toList := by
        rw [indentation, List.replicate_succ, String.join_cons, String.toList_append]
        rfl
      rw [hblanks]
      simpa only [List.cons_append, Spelling.scan_blank] using ih

/-- A separator is a comma, whatever blanks follow it. -/
theorem scan_separator {level index : Nat} (hindex : index ≠ 0) (a b : List Char) :
    scan (a ++ ((separator level index).toList ++ b)) = scan a ++ .punct "," :: scan b := by
  have hcomma (cs : List Char) : scan (a ++ ',' :: cs) = scan a ++ .punct "," :: scan cs :=
    (scan_append_lone (f := ',') (by decide) a cs).trans
      (congrArg (scan a ++ ·) (scan_lone_append (l := ',') (by decide) [] cs))
  unfold separator
  rw [if_neg hindex]
  split
  · change scan (a ++ ',' :: ' ' :: b) = _
    rw [hcomma, Spelling.scan_blank]
  · have hblanks : (",\n" ++ indentation (level + 1)).toList =
        ',' :: '\n' :: (indentation (level + 1)).toList := String.toList_append
    rw [hblanks, List.cons_append, hcomma, List.cons_append, Spelling.Token.scan_cons,
      if_pos (by decide), scan_indentation]

/-- What follows the last parameter of a function. -/
def ellipsis (variadic isFirst : Bool) : String :=
  if variadic then if isFirst then "..." else ", ..." else ""

/-- Items behind others, from a place on. -/
def spreadFrom (level index : Nat) (items : List String) : String :=
  String.join ((items.zipIdx index).map fun (item, i) => separator level i ++ item)

theorem spreadFrom_cons (level index : Nat) (item : String) (items : List String) :
    spreadFrom level index (item :: items) =
      separator level index ++ (item ++ spreadFrom level (index + 1) items) := by
  simp [spreadFrom, String.join_cons, String.append_assoc]

theorem scan_spreadFrom {level index : Nat} (hindex : index ≠ 0) (items : List String)
    (variadic : Bool) (a : List Char) :
    scan (a ++ (spreadFrom level index items ++ ellipsis variadic false).toList) =
      scan a ++ if items.isEmpty && !variadic then []
        else .punct "," :: joinTokens (items.map textTokens) variadic := by
  induction items generalizing index a with
  | nil =>
      cases variadic with
      | false => simp [spreadFrom, ellipsis]
      | true =>
          have htext : (spreadFrom level index [] ++ ellipsis true false).toList =
              [',', ' ', '.', '.', '.'] := by simp [spreadFrom, ellipsis]
          rw [htext, scan_append_lone (by decide)]
          exact congrArg (scan a ++ ·) (by decide)
  | cons item items ih =>
      have htexts : (spreadFrom level index (item :: items) ++ ellipsis variadic false).toList =
          (separator level index).toList ++ (item.toList ++
            (spreadFrom level (index + 1) items ++ ellipsis variadic false).toList) := by
        simp [spreadFrom_cons]
      rw [htexts, scan_separator hindex, ih (Nat.succ_ne_zero index)]
      simp [joinTokens, textTokens]

/-- Parameters that are spread over lines are cut into those that are written on one. -/
theorem scan_spread (level : Nat) (items : List String) (variadic : Bool) :
    scan (spread level items ++ ellipsis variadic items.isEmpty).toList =
      joinTokens (items.map textTokens) variadic := by
  cases items with
  | nil =>
      have htext : spread level [] ++ ellipsis variadic true = ellipsis variadic true := by
        simp [spread]
      rw [List.isEmpty_nil, htext]
      cases variadic <;> decide
  | cons item items =>
      have htexts : (spread level (item :: items) ++ ellipsis variadic false).toList =
          item.toList ++ (spreadFrom level 1 items ++ ellipsis variadic false).toList := by
        have hspread : spread level (item :: items) = spreadFrom level 0 (item :: items) := rfl
        rw [hspread, spreadFrom_cons]
        simp [separator]
      rw [List.isEmpty_cons, htexts, scan_spreadFrom one_ne_zero]
      simp [joinTokens, textTokens]

/-! ## The text of a type -/

/-- The type in a cast to a reference to the type of a function. -/
def Signature.text (level : Nat) (s : Signature) : String :=
  s.ret ++ " (&)(" ++ spread level s.params ++ ellipsis s.variadic s.params.isEmpty ++ ")"

/-- The cast is the type in parentheses. -/
theorem Signature.render_eq (level : Nat) (s : Signature) :
    s.render level = "(" ++ s.text level ++ ")" := by
  unfold Signature.render Signature.text
  simp only [String.append_assoc]
  rfl

theorem Signature.textTokens_text (level : Nat) (s : Signature) :
    textTokens (s.text level) = textTokens s.ret ++
      .punct "(" :: .punct "&" :: .punct ")" :: .punct "(" ::
        (joinTokens (s.params.map textTokens) s.variadic ++ [.punct ")"]) := by
  have htext : (s.text level).toList = s.ret.toList ++ ' ' :: (['(', '&'] ++ [')'] ++
      ("(" ++ (spread level s.params ++ ellipsis s.variadic s.params.isEmpty) ++ ")").toList) := by
    simp [Signature.text]
  unfold textTokens
  rw [htext, scan_append_blank, scan_lone_append (by decide), Spelling.scan_parens, scan_spread]
  rfl

/-! ## What the text denotes -/

variable {m scope : Model}

/-- A text that goes on with a reference to a function denotes the type of such references. -/
theorem denotes_called {ret text : String} {R : TypeTree} (h : scope.Fronts Model.root ret R)
    {params : List Spelling} {trees : List TypeTree} {variadic : Bool}
    (hparams : List.Forall₂ (fun s T => scope.Denotes (Model.resolve Model.root s) T) params trees)
    (hsound : OpSound Spelling.Local (.function params variadic .none .none))
    (htext : textTokens text = textTokens ret ++ .punct "(" :: .punct "&" :: .punct ")" ::
      .punct "(" :: (Spelling.paramTokens params variadic ++ [.punct ")"])) :
    scope.Denotes (Model.parseType text Model.root)
      ((R.called trees variadic .none .none).referenced .lvalueReference) := by
  -- behind the result stand the operators of a reference to a function, none of them in front
  set ops : List DeclaratorOp := [.function params variadic .none .none, .lvalueReference]
  have htokens : .punct "(" :: .punct "&" :: .punct ")" :: .punct "(" ::
      (Spelling.paramTokens params variadic ++ [.punct ")"]) = Spelling.opTokens ops [] := by
    simp only [ops, Spelling.opTokens, Spelling.suffixTokens]
    rfl
  rw [htokens] at htext
  have hops : OpsSound Spelling.Local ops := ⟨hsound, trivial, trivial⟩
  have hclosed : Spelling.Closed [] := trivial
  have hlegible : Spelling.LegibleOps ops [] [] :=
    Spelling.legibleOps_of_not_glued ops (Spelling.opsSound_mono (fun _ hn => hn.1) hops)
      (Spelling.gluedOps_of_local ops (Spelling.opsSound_mono (fun _ hn => hn.2) hops)) trivial
      hclosed nofun
  have hnone : Spelling.ReadsOps (Spelling.opTokens ops []) [] (Spelling.opTokens ops []) :=
    fun fuel _ => Spelling.pointerOpsFrom_stop (htokens ▸ ⟨by decide, nofun⟩)
  have hhalts : Spelling.Halts (Spelling.opTokens ops []) := htokens ▸ ⟨rfl, rfl⟩
  have hmore : ∀ fuel, 6 * (Spelling.opTokens ops []).length + 1 ≤ fuel →
      Spelling.readBehind fuel (Spelling.opTokens ops []) = .ok (ops, []) := by
    intro fuel hfuel
    have hread := Spelling.readBehind_opTokens ops fuel
      (Spelling.opsSound_mono (fun _ _ => trivial) hops) hlegible hclosed
      (Spelling.readsSuffixes_stop trivial)
    rw [List.append_nil] at hread
    exact hread hfuel
  have hfunction := Model.Makes.function hparams variadic .none .none R
  exact h.denotes_append htext hhalts hnone hmore
    (hfunction.append (.lvalueReference scope Model.root _))

/-! ## Results -/

/-- The spelling of a result from which nothing is lost denotes its type. -/
theorem Operand.Names.castName_fronts {o : Operand} {R : TypeTree} (h : o.Names scope R)
    (hkept : R.keptInCast = true) : scope.Fronts Model.root o.castName R := by
  cases h with
  | none hR hname => exact hname
  | @pointer name T q hname hT =>
      have hq : q = .none := (of_decide_eq_true hkept).resolve_right (by simp [hT])
      exact hq ▸ hname.star
  | @lvalueReference name T q hname hT hends =>
      have hq : q = .none := of_decide_eq_true hkept
      exact hq ▸ hname.ampersand hends
  | rvalueReference => cases hkept

/-- The call of the block goes through a cast that has the texts of the parameters and a spelling of
the result. -/
def Block.Casts (m : Model) (t : Target) (b : Block) : Prop :=
  ∃ ret, b.call.cast = some ⟨ret, t.params.map m.typeText, t.variadic⟩ ∧
    ∀ scope, Declared m scope b.typedefs → Speakable m scope t.returnType →
      (m.canonTree t.returnType).keptInCast = true →
        scope.Fronts Model.root ret (m.canonTree t.returnType)

section Blocks

variable {t : Target} {n : Nat} (h : m.WellFormed) (hret : m.HasType t.returnType)
  (hcast : t.isCast n = true)

include hcast

theorem call_cast (m : Model) (ret : String) : Yields (call m t ret n) fun r =>
    r.1.cast = some ⟨ret, t.params.map m.typeText, t.variadic⟩ :=
  Yields.bind_any fun _ => Yields.pure (by rw [hcast]; rfl)

include h hret

theorem voidBlock_casts (hvoid : m.isVoid t.returnType = true) :
    Yields (voidBlock m t n) (Block.Casts m t) := by
  refine (call_cast hcast m "void").bind fun _ hr =>
    Yields.pure ⟨"void", hr, fun scope _ _ hkept => ?_⟩
  have hkind : m.kindOf t.returnType = .void := by simpa [Model.isVoid] using hvoid
  rw [h.canonTree_eq hret, hkind] at hkept ⊢
  have hq : (m.desugared t.returnType).quals = .none := of_decide_eq_true hkept
  rw [hq]
  exact .void scope Model.root

theorem storingBlock_casts : Yields (storingBlock m t n) (Block.Casts m t) := by
  refine (operand_names h hret false).bind fun result hresult => ?_
  refine (call_cast hcast m result.1.castName).bind fun _ hr => Yields.pure ⟨_, hr, ?_⟩
  intro scope hdeclared hspeakable hkept
  have hnames := hresult scope (hdeclared.sublist (List.subset_append_left _ _)) hspeakable
  exact hnames.castName_fronts hkept

theorem droppingBlock_casts (hfree : t.isMember = false) :
    Yields (droppingBlock m t n) (Block.Casts m t) := by
  unfold droppingBlock
  extract_lets finished
  rw [if_neg (by simp [hfree])]
  refine (operand_names h hret false).bind fun ⟨result, typedefs⟩ hresult => ?_
  change Yields (finished (result.castName, typedefs)) _
  refine (call_cast hcast m result.castName).bind fun _ hr => Yields.pure ⟨_, hr, ?_⟩
  intro scope hdeclared hspeakable hkept
  have hnames := hresult scope (hdeclared.sublist (List.subset_append_left _ _)) hspeakable
  exact hnames.castName_fronts hkept

theorem body_casts (hfree : t.isMember = false) (hconstructor : t.constructor = false) :
    Yields (body m t n) fun b => ∀ block ∈ b.blocks, block.Casts m t := by
  unfold body
  rw [if_neg (by simp [hconstructor])]
  split_ifs with hvoid
  · refine (voidBlock_casts h hret hcast hvoid).bind fun block hblock => ?_
    exact Yields.pure (by simpa [Body.blocks] using hblock)
  · refine (storingBlock_casts h hret hcast).bind fun storing hstoring => ?_
    refine (droppingBlock_casts h hret hcast hfree).bind fun dropping hdropping => ?_
    exact Yields.pure (by simp [Body.blocks, hstoring, hdropping])

end Blocks

theorem wrapperOf_casts (h : m.WellFormed) {t : Target} (hret : m.HasType t.returnType)
    (hfree : t.isMember = false) (hconstructor : t.constructor = false) (required : Nat) :
    Yields (wrapperOf m t required) fun w => ∀ c ∈ w.clauses,
      c.count.getD t.params.length = t.params.length → ∀ b ∈ c.body.blocks, b.Casts m t := by
  have hbody : ∀ n ≤ t.params.length, Yields (body m t n) fun b =>
      n = t.params.length → ∀ block ∈ b.blocks, block.Casts m t := by
    intro n _ serial hn
    have hcast : t.isCast n = true := by simp [Target.isCast, hfree, hn]
    exact body_casts h hret hcast hfree hconstructor serial
  exact Yields.bind_any fun _ => (clauses_bodies hbody required).bind
    fun cs hcs => Yields.pure fun c hc hall b hb => hcs.2 c hc hall b hb

/-! ## Parameters -/

/-- The text of the type tells it. -/
def Tellable (m scope : Model) (P : TypeTree) : Prop := ∃ s t, m.Written P t ∧ m.Tells scope s t

theorem exists_told (h : m.WellFormed) {ts : List TypeId} {trees : List TypeTree}
    (hwritten : List.Forall₂ m.Written trees ts) (htellable : ∀ P ∈ trees, Tellable m scope P) :
    ∃ params, List.Forall₂ (m.Told scope) params ts := by
  induction hwritten with
  | nil => exact ⟨[], .nil⟩
  | cons ht _ ih =>
      obtain ⟨⟨s, u, hu, hs⟩, hrest⟩ := List.forall_mem_cons.mp htellable
      obtain ⟨params, hparams⟩ := ih hrest
      obtain rfl := (hu.eq_iff ht h).mpr rfl
      exact ⟨s :: params, .cons (hs.told h) hparams⟩

theorem paramTokens_eq (params : List Spelling) (variadic : Bool) :
    Spelling.paramTokens params variadic =
      joinTokens (params.map (Spelling.tokens · [])) variadic := by
  induction params with
  | nil => cases variadic <;> simp [Spelling.paramTokens, joinTokens]
  | cons s params ih => simp [Spelling.paramTokens, joinTokens, ih]

/-- The texts of types that are told are cut into the tokens of their spellings. -/
theorem textTokens_told {params : List Spelling} {ts : List TypeId}
    (htold : List.Forall₂ (m.Told scope) params ts) :
    (ts.map m.typeText).map textTokens = params.map (Spelling.tokens · []) := by
  induction htold with
  | nil => rfl
  | @cons s t _ _ hs _ ih =>
      have htokens : textTokens (m.typeText t) = Spelling.tokens s [] := by
        rw [Model.typeText, hs.printed]
        exact Spelling.scan_print (by simp) _ hs.tidy
      rw [List.map_cons, List.map_cons, List.map_cons, ih, htokens]

/-- A lone parameter of type `void` is no parameter. -/
theorem withoutLoneVoid_eq {params : List Spelling} {trees : List TypeTree}
    (hscope : scope.WellFormed)
    (hparams : List.Forall₂ (fun s T => scope.Denotes (Model.resolve Model.root s) T) params trees)
    (hvoid : ∀ q, trees ≠ [.node .void q []]) : Spelling.withoutLoneVoid params = params := by
  unfold Spelling.withoutLoneVoid
  split
  next q =>
    -- a spelling denotes one type only, and that of `void` is excluded
    have hbase : scope.Denotes (Model.resolve Model.root (.mk .void q [])) (.node .void q []) := by
      rw [Model.resolve_base]
      have hvoid : scope.Denotes (Model.resolveBase .void Model.root) (.node .void .none []) :=
        Model.denotes_internKind scope rfl rfl
      have hqualified := hvoid.qualified q
      rwa [TypeTree.qualified, Quals.none_union] at hqualified
    cases hparams with
    | cons hs hrest =>
        cases hrest
        exact absurd (by rw [hs.unique hbase hscope]) (hvoid q)
  next => rfl

/-! ## Trampolines -/

/-- The call of the block goes through a cast whose text, in parentheses, denotes the references to
functions with this result and these parameters: in whatever scope has the typedefs of the block and
in which the texts of the types tell them, unless something of the result is lost. -/
def Block.CastsExactly (m : Model) (R : TypeTree) (params : List TypeTree) (variadic : Bool)
    (b : Block) : Prop :=
  ∃ s, b.call.cast = some s ∧ ∀ scope, Declared m scope b.typedefs →
    Spoken m scope R → R.keptInCast = true →
    (∀ P ∈ params, Tellable m scope P) → (∀ q, params ≠ [.node .void q []]) →
    ∀ level, s.render level = "(" ++ s.text level ++ ")" ∧
      scope.Denotes (Model.parseType (s.text level) Model.root)
        ((R.called params variadic .none .none).referenced .lvalueReference)

theorem Block.Casts.exactly (h : m.WellFormed) {t : Target} {b : Block} (hb : b.Casts m t)
    {R : TypeTree} (hR : m.Written R t.returnType) {params : List TypeTree}
    (hparams : List.Forall₂ m.Written params t.params) :
    b.CastsExactly m R params t.variadic := by
  obtain ⟨ret, hcast, hret⟩ := hb
  refine ⟨_, hcast, fun scope hdeclared hspoken hkept htellable hvoid level =>
    ⟨Signature.render_eq level _, ?_⟩⟩
  obtain ⟨u, hu, hspeakable⟩ := hspoken
  obtain rfl := (hu.eq_iff hR h).mpr rfl
  rw [← hR.canonTree] at hkept ⊢
  obtain ⟨spellings, htold⟩ := exists_told h hparams htellable
  have hdenotes : List.Forall₂ (fun s T => scope.Denotes (Model.resolve Model.root s) T)
      spellings params := by
    have htrees : params = t.params.map m.canonTree :=
      List.forall₂_eq_eq_eq ▸ List.forall₂_map_right_iff.mpr
        (hparams.imp fun _ _ hP => hP.canonTree.symm)
    exact htrees ▸ List.forall₂_map_right_iff.mpr (htold.imp fun _ _ hs => hs.denotes)
  have hforall {P : Spelling → Prop} (hP : ∀ s u, m.Told scope s u → P s) : ∀ s ∈ spellings, P s :=
    Model.forall_mem_of_forall₂ htold.flip fun _ _ hs => hP _ _ hs
  refine denotes_called (hret scope hdeclared hspeakable hkept) hdenotes
    ⟨Spelling.allSound_iff.mpr (hforall fun _ _ hs => hs.sound),
      withoutLoneVoid_eq hdeclared.wellFormed hdenotes hvoid, by decide⟩ ?_
  rw [Signature.textTokens_text, textTokens_told htold, paramTokens_eq]

/-- Every free function of a reachable model has a trampoline, and each call in it that passes all
arguments goes through a cast to the exact type of the function, unless something of the result is
lost. -/
theorem signatures_exact (hm : m.Reachable) {func : DeclId} {info : FunctionInfo}
    (hfunc : m.function? func = some info) (hfree : info.method = none)
    (hplain : info.isConstructor = false) (serial : UInt64) :
    ∃ w next, ((wrapper? func serial).run m).1 = some (w, next) ∧
      ∀ c ∈ w.clauses, c.count.getD info.params.length = info.params.length →
        ∀ b ∈ c.body.blocks, b.CastsExactly ((wrapper? func serial).run m).2
          (m.canonTree info.returnType) (info.params.map (m.canonTree ·.type)) info.variadic := by
  have hdescribes := target_describes hm.wellFormed hfunc
  have hwf := hdescribes.wellFormed
  have htarget := hdescribes.answer
  have hcasts := wrapperOf_casts hwf htarget.returnType.hasType
    (by rw [htarget.isMember, hfree]; rfl) (by rw [htarget.constructor, hplain])
    info.minRequiredArgs serial
  rw [run_wrapper? hfunc]
  refine ⟨_, _, rfl, fun c hc hall b hb => ?_⟩
  rw [htarget.params.length_eq] at hall
  rw [← htarget.variadic]
  exact (hcasts c hc hall b hb).exactly hwf htarget.returnType
    (List.forall₂_map_left_iff.mpr htarget.params)

/-- What is known of `int (*pick(const char *, int, ...))(int)`. -/
def pickInfo : FunctionInfo where
  returnType := ⟨5⟩
  params := [⟨"key", ⟨2⟩, none⟩, ⟨"count", ⟨3⟩, none⟩]
  variadic := true

/-- A model with the types that the function is declared with. -/
def pickTypes : Model := withTypes ["const char *", "int", "int (*)(int)"]

/-- A model with that function. -/
def pickModel : Model :=
  ((Request.declareFunction (.function Model.root "pick" ⟨5⟩)
    [.params pickInfo.params, .word "variadic"]).perform.run pickTypes).2

theorem pickModel_reachable : pickModel.Reachable := by
  refine .step (withTypes_reachable _) (.declareFunction _ _)
    ⟨⟨by decide +kernel, by decide +kernel⟩, ?_⟩
  rintro _ (_ | ⟨_, _ | ⟨_, ⟨⟩⟩⟩)
  · change ∀ p ∈ pickInfo.params, pickTypes.HasType p.type
    decide +kernel
  · trivial

/-- Both calls of `pick`, of which one drops the result, go through a cast to its exact type where
the typedef of the block is declared. -/
theorem signatures_exact_pick :
    (pickModel.Reachable ∧ pickModel.function? ⟨1⟩ = some pickInfo ∧ pickInfo.method = none ∧
      pickInfo.isConstructor = false) ∧
      ∃ w next, ((wrapper? ⟨1⟩ 1).run pickModel).1 = some (w, next) ∧
        ∀ c ∈ w.clauses, ∀ b ∈ c.body.blocks, ∃ s scope, b.call.cast = some s ∧
          Declared ((wrapper? ⟨1⟩ 1).run pickModel).2 scope b.typedefs ∧ ∀ level,
            scope.Denotes (Model.parseType (s.text level) Model.root)
              (((pickModel.canonTree ⟨5⟩).called ([⟨2⟩, ⟨3⟩].map pickModel.canonTree) true .none
                .none).referenced .lvalueReference) := by
  have hreachable := pickModel_reachable
  have hpick : pickModel.function? ⟨1⟩ = some pickInfo := by decide +kernel
  refine ⟨⟨hreachable, hpick, rfl, by decide⟩, ?_⟩
  obtain ⟨w, next, hrun, hblocks⟩ := signatures_exact hreachable hpick rfl (by decide) 1
  refine ⟨w, next, hrun, fun c hc b hb => ?_⟩
  have hdrafted : ∀ c ∈ (((wrapper? ⟨1⟩ 1).run pickModel).1.getD default).1.clauses,
      c.count = none ∧ ∀ b ∈ c.body.blocks, ∃ name ∈ ["FP2", "FP3"],
        b.typedefs = [⟨name, ⟨5⟩⟩] := by decide +kernel
  rw [hrun] at hdrafted
  obtain ⟨hcount, htypedefs⟩ := hdrafted c hc
  obtain ⟨name, hname, htypedef⟩ := htypedefs b hb
  obtain ⟨s, hcast, hexact⟩ := hblocks c hc (by rw [hcount]; rfl) b hb
  have hanswer : ((target ⟨1⟩ pickInfo).run pickModel).1.params = [⟨2⟩, ⟨3⟩] ∧
      ((target ⟨1⟩ pickInfo).run pickModel).1.returnType = ⟨5⟩ := by decide +kernel
  have hkept : (pickModel.canonTree ⟨5⟩).keptInCast = true :=
    hreachable.wellFormed.keptInCast_canonTree (by decide +kernel) (by decide +kernel)
      (by decide +kernel)
  have hdescribes := target_describes hreachable.wellFormed hpick
  have hmodel : ((wrapper? ⟨1⟩ 1).run pickModel).2 = ((target ⟨1⟩ pickInfo).run pickModel).2 := by
    rw [run_wrapper? hpick]
  rw [hmodel] at hexact ⊢
  have hwf := hdescribes.wellFormed
  have hresult := hdescribes.answer.returnType
  have hwritten := hdescribes.answer.params
  rw [hanswer.2] at hresult
  rw [hanswer.1] at hwritten
  have hfresh : ∀ i < ((target ⟨1⟩ pickInfo).run pickModel).2.decls.size,
      (((target ⟨1⟩ pickInfo).run pickModel).2.decl ⟨i⟩).name ∉ ["FP2", "FP3"] := by decide +kernel
  have hpointer : ((target ⟨1⟩ pickInfo).run pickModel).2.isFunctionPointer ⟨5⟩ = true := by
    decide +kernel
  have hnodes : ∀ p ∈ [((⟨1⟩ : TypeId), (⟨.builtin .char, .const⟩ : TypeNode)),
      (⟨2⟩, ⟨.pointer ⟨1⟩, .none⟩), (⟨3⟩, ⟨.builtin .int, .none⟩)],
      ((target ⟨1⟩ pickInfo).run pickModel).2.types.get? p.1 = some p.2 := by decide +kernel
  generalize ((target ⟨1⟩ pickInfo).run pickModel).2 = drafted at *
  obtain ⟨scope, hscope⟩ := exists_declared (d := ⟨name, ⟨5⟩⟩) hwf hresult.hasType
    fun d hd heq => hfresh d.index hd (heq ▸ hname)
  rw [← htypedef] at hscope
  refine ⟨s, scope, hcast, hscope, fun level => ?_⟩
  simp only [List.forall_mem_cons, List.not_mem_nil, false_imp_iff, implies_true, and_true] at hnodes
  obtain ⟨hchar, hkey, hint⟩ := hnodes
  simp only [pickInfo, List.forall₂_cons] at hwritten
  have htellable : ∀ P ∈ pickInfo.params.map (pickModel.canonTree ·.type),
      Tellable drafted scope P := by
    refine List.forall_mem_cons.mpr ⟨?_, List.forall_mem_singleton.mpr ?_⟩
    · exact ⟨_, _, hwritten.1, .pointer (.builtin hwf scope hchar (by decide) (by decide)) hkey
        (by decide)⟩
    · exact ⟨_, _, hwritten.2.1, .builtin hwf scope hint (by decide) (by decide)⟩
  exact (hexact scope hscope ⟨_, hresult, .inl hpointer⟩ hkept htellable (by simp [pickInfo])
    level).2

end Trampoline

end CppReflect
