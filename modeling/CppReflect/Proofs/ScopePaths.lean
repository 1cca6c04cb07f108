import CppReflect.Proofs.Instances

/-!
# Paths to scopes

A path such as `A::B<int>::C` is looked up in one piece, or from scope to scope by handles, one
segment after the other. The two ways part at a segment without text, which starts over at the
global scope by handles and means nothing in one piece; at a typedef of a pointer, a reference or an
array, which stands for the class behind it by handles and for itself in one piece; and at what
opens no scope by handles but holds scopes. Where a path meets none of these the two ways agree.
-/

namespace CppReflect

/-! ## Segments of paths -/

namespace Query

/-- The segments of a path from the global scope on. A `::` in front of it belongs to none. -/
def pathSegments (path : String) : List String :=
  let cs := Text.trim path.toList
  (Name.segments ((Text.afterStart? [':', ':'] cs).getD cs)).map String.ofList

/-- A text that is read as one segment, as it stands. -/
def IsOneSegment (segment : String) : Prop :=
  Name.segments segment.toList = [segment.toList]

theorem isOneSegment_of_mem {path segment : String} (h : segment ∈ pathSegments path) :
    IsOneSegment segment := by
  obtain ⟨cs, hcs, rfl⟩ := List.mem_map.mp h
  rw [IsOneSegment, String.toList_ofList]
  exact Name.segments_of_mem hcs

theorem pathSegments_ne_nil (path : String) : pathSegments path ≠ [] := fun h =>
  Name.segmentsFrom_ne_nil _ _ _ (List.map_eq_nil_iff.mp h)

theorem trim_colons (rest : List Char) :
    Text.trim (':' :: ':' :: rest) = ':' :: ':' :: Text.trimRight rest := by
  have hleft : Text.trimLeft (':' :: ':' :: rest) = ':' :: ':' :: rest :=
    Name.dropWhile_of_head fun c hc => Option.some.inj hc ▸ by decide
  rw [Text.trim, hleft, Text.trimRight, List.reverse_cons, List.reverse_cons, List.append_assoc,
    List.dropWhile_append, Text.trimRight]
  split
  next hempty => rw [List.isEmpty_iff.mp hempty]; rfl
  next => simp

theorem withoutGlobalMarks_of_none {cs : List Char}
    (h : Text.afterStart? [':', ':'] cs = none) : withoutGlobalMarks cs = cs := by
  rw [withoutGlobalMarks.eq_def]
  split
  next rest => exact absurd h (by simp [Text.afterStart?])
  next => rfl

/-- From the global scope on, a path is cut into the same segments for both ways, but that blanks in
front of a `::` are a segment without text when it is looked up segment by segment. -/
theorem globalSegments_eq {path : String} (h : ∀ segment ∈ pathSegments path, segment ≠ "") :
    globalSegments path = pathSegments path ∨ globalSegments path = "" :: pathSegments path := by
  unfold globalSegments
  cases hmark : Text.afterStart? [':', ':'] path.toList with
  | some rest =>
      obtain hpath := Text.afterStart?_eq_some_iff.mp hmark
      have hsegments : pathSegments path = (Name.segments rest).map String.ofList := by
        rw [pathSegments, hpath, List.cons_append, List.cons_append, List.nil_append, trim_colons]
        exact congrArg _ (Name.segments_trimRight rest)
      -- a second `::` would leave no text between the two
      have hrest : Text.afterStart? [':', ':'] rest = none := by
        refine Option.eq_none_iff_forall_ne_some.mpr fun behind hbehind => ?_
        rw [hsegments, Text.afterStart?_eq_some_iff.mp hbehind] at h
        exact h "" List.mem_cons_self rfl
      left
      rw [hsegments, hpath]
      exact congrArg (fun cs => (Name.segments cs).map String.ofList)
        (withoutGlobalMarks_of_none hrest)
  | none =>
      rw [withoutGlobalMarks_of_none hmark, ← Name.segments_trim, pathSegments]
      cases htrim : Text.afterStart? [':', ':'] (Text.trim path.toList) with
      | none => exact .inl rfl
      | some rest =>
          right
          rw [Text.afterStart?_eq_some_iff.mp htrim]
          rfl

end Query

/-! ## Where paths lead -/

namespace Model

variable {m : Model} {s d : DeclId}

/-- What the segments of a path in front of the last one mean. -/
def waypoints (m : Model) (scope : DeclId) : List String → List DeclId
  | [] | [_] => []
  | segment :: rest =>
    (m.lookupSegment scope segment).found?.elim [] fun d =>
      d :: m.waypoints (m.scopeTarget d) rest

theorem waypoints_cons {scope : DeclId} {segment : String} {rest : List String} (hrest : rest ≠ [])
    (hd : (m.lookupSegment scope segment).found? = some d) :
    m.waypoints scope (segment :: rest) = d :: m.waypoints (m.scopeTarget d) rest := by
  cases rest with
  | nil => exact absurd rfl hrest
  | cons next rest => simp [waypoints, hd]

/-- What opens a scope is declared. -/
theorem hasDecl_of_opensScope (h : Query.opensScope m d = true) : m.HasDecl d :=
  hasDecl_of_ne_rootDecl fun heq => by simp [Query.opensScope, heq, rootDecl] at h

theorem scopeTarget_of_underlying_none (h : (m.decl d).underlying? = none) :
    m.scopeTarget d = d := by
  unfold Decl.underlying? at h
  unfold scopeTarget
  cases hkind : (m.decl d).kind <;> simp_all

/-- A segment of a path means what it means on its own. -/
theorem lookupNamed_of_isOneSegment {segment : String} (h : Query.IsOneSegment segment)
    (scope : DeclId) : m.lookupNamed segment scope = m.lookupSegment scope segment := by
  have hsegments : Name.segments (Text.trim segment.toList) = [segment.toList] :=
    (Name.segments_trim _).trans h
  have hmark : Text.afterStart? [':', ':'] (Text.trim segment.toList) = none := by
    refine Option.eq_none_iff_forall_ne_some.mpr fun rest hrest => ?_
    rw [Text.afterStart?_eq_some_iff.mp hrest] at hsegments
    exact Name.segmentsFrom_ne_nil 0 [] rest (List.cons.inj hsegments).2
  rw [lookupNamed, hmark]
  simp only [hsegments, List.map_cons, List.map_nil, String.ofList_toList, lookupSegments]

/-- In the translation unit, a path means what its segments lead to. -/
theorem lookupNamed_root (path : String) :
    m.lookupNamed path root = m.lookupSegments root (Query.pathSegments path) := by
  rw [lookupNamed, Query.pathSegments]
  cases Text.afterStart? [':', ':'] (Text.trim path.toList) <;> rfl

/-- What a segment finds in a scope is among what its name means there, or is a specialization of
one of these. -/
theorem mem_of_found?_lookupSegment {segment : String}
    (h : (m.lookupSegment s segment).found? = some d) :
    ∃ name, d ∈ m.lookupIn s name ∨ d ∈ m.specializationsOf (m.lookupIn s name) := by
  refine ⟨(Name.templateId segment).1, ?_⟩
  unfold lookupSegment at h
  dsimp only at h
  split at h
  next args hargs =>
    right
    cases hfind : (m.specializationsOf (m.lookupIn s (Name.templateId segment).1)).find? fun c =>
        Text.squashed (m.argsText ((m.templateArgs? c).getD [])) == Text.squashed args with
    | none => rw [hfind] at h; cases h
    | some c =>
        rw [hfind] at h
        obtain rfl : c = d := Option.some.inj h
        exact List.mem_of_find?_eq_some hfind
  next =>
    left
    cases hcandidates : m.lookupIn s (Name.templateId segment).1 with
    | nil => rw [hcandidates] at h; cases h
    | cons first rest =>
        rw [hcandidates] at h
        dsimp only at h
        split at h
        next =>
          obtain rfl : first = d := Option.some.inj h
          exact List.mem_cons_self
        next => cases h

/-- What a name finds among members that hide no others is one of them. -/
theorem mem_members_of_mem_membersNamed {name : String}
    (h : ∀ c ∈ (m.decl s).members, (m.decl c).isTransparent = false)
    (hd : d ∈ m.membersNamed s name) : d ∈ (m.decl s).members := by
  rw [membersNamed, declFuel, mem_membersNamedFrom_succ] at hd
  rcases hd with ⟨hd, -⟩ | ⟨c, hc, htransparent, -⟩
  · exact hd
  · exact absurd htransparent (by simp [h c hc])

end Model

namespace Query

variable {m : Model} {s d : DeclId}

/-- No path from the declaration on leads to a scope. -/
def Barren (m : Model) (s : DeclId) : Prop :=
  ∀ segments, (m.lookupSegments s segments).found?.filter (opensScope m) = none

/-- A path goes on behind the declaration in the same way by handles as in one piece: in the same
scope, or to no scope at all. -/
structure Passable (m : Model) (d : DeclId) : Prop where
  target : ∀ s, scopeFor? m d.handle = some s → m.scopeTarget d = s
  barren : opensScope m d = false ∨ scopeFor? m d.handle = none → Barren m (m.scopeTarget d)

/-! ## The walk by handles -/

theorem scopeNamed?_of_isOneSegment {segment : String} (hne : segment ≠ "")
    (h : IsOneSegment segment) (parent : Handle) :
    scopeNamed? m segment parent = (scopeFor? m parent).bind fun scope =>
      (m.lookupSegment scope segment).found?.filter (opensScope m) := by
  have hempty : ¬segment.isEmpty = true := by simpa using hne
  rw [scopeNamed?, if_neg hempty, named?]
  cases scopeFor? m parent with
  | none => rfl
  | some scope =>
      change (m.lookupNamed segment scope).found?.filter _ = _
      rw [Model.lookupNamed_of_isOneSegment h]
      rfl

/-- A handle that stands for no scope leads nowhere. -/
theorem scopeBySegments?_of_none {parent : Handle} {segments : List String}
    (hscope : scopeFor? m parent = none) (hne : segments ≠ [])
    (htexts : ∀ segment ∈ segments, segment ≠ "" ∧ IsOneSegment segment) :
    scopeBySegments? m parent segments = none := by
  cases segments with
  | nil => exact absurd rfl hne
  | cons segment rest =>
      obtain ⟨hsegment, hone⟩ := htexts segment List.mem_cons_self
      rw [scopeBySegments?, scopeNamed?_of_isOneSegment hsegment hone, hscope]
      rfl

/-- What a path of segments leads to in a scope, one after the other and by handles, is what it
leads to in one piece. -/
theorem scopeBySegments?_eq {parent : Handle} {scope : DeclId} {segments : List String}
    (hscope : scopeFor? m parent = some scope) (hne : segments ≠ [])
    (htexts : ∀ segment ∈ segments, segment ≠ "" ∧ IsOneSegment segment)
    (hway : ∀ d ∈ m.waypoints scope segments, Passable m d) :
    scopeBySegments? m parent segments =
      ((m.lookupSegments scope segments).found?.filter (opensScope m)).map DeclId.handle := by
  induction segments generalizing parent scope with
  | nil => exact absurd rfl hne
  | cons segment rest ih =>
      obtain ⟨⟨hsegment, hone⟩, hrest⟩ := List.forall_mem_cons.mp htexts
      rw [scopeBySegments?, scopeNamed?_of_isOneSegment hsegment hone, hscope, Option.bind_some]
      by_cases hlast : rest = []
      · subst hlast
        exact Option.map_eq_bind.symm
      rw [Model.found?_lookupSegments_cons hlast]
      cases hfound : (m.lookupSegment scope segment).found? with
      | none => rfl
      | some d =>
          rw [Model.waypoints_cons hlast hfound] at hway
          obtain ⟨hd, hway⟩ := List.forall_mem_cons.mp hway
          rw [Option.filter_some, Option.bind_some]
          by_cases hopens : opensScope m d = true
          · rw [if_pos hopens]
            cases hnext : scopeFor? m d.handle with
            | none =>
                rw [hd.barren (.inr hnext)]
                exact scopeBySegments?_of_none hnext hlast hrest
            | some next =>
                have htarget := hd.target next hnext
                rw [htarget] at hway ⊢
                exact ih hnext hlast hrest hway
          · rw [if_neg hopens, hd.barren (.inl (Bool.eq_false_iff.mpr hopens))]
            rfl

theorem scopeBySegments?_append (parent : Handle) (front rest : List String) :
    scopeBySegments? m parent (front ++ rest) =
      (scopeBySegments? m parent front).bind fun reached => scopeBySegments? m reached rest := by
  induction front generalizing parent with
  | nil => rfl
  | cons segment front ih =>
      simp only [List.cons_append, scopeBySegments?]
      cases scopeNamed? m segment parent with
      | none => rfl
      | some d => exact ih d.handle

/-- A segment without text starts over at the global scope, whatever was reached in front of it. -/
theorem scopeBySegments?_restart (parent : Handle) (front rest : List String) :
    scopeBySegments? m parent (front ++ "" :: rest) =
      (scopeBySegments? m parent front).bind fun _ =>
        scopeBySegments? m Model.root.handle rest := by
  rw [scopeBySegments?_append]
  rfl

theorem declOfHandle?_handle (hd : m.HasDecl d) (hsize : d.handle ≤ UInt32.size) :
    m.declOfHandle? d.handle = some d := by
  have hplaces : d.index < m.decls.size := hd
  rw [Model.declOfHandle?, placeOfHandle?, if_pos ⟨Nat.succ_pos _, hsize, hplaces⟩]
  rfl

theorem scopeFor?_handle (hd : m.declOfHandle? d.handle = some d) :
    scopeFor? m d.handle =
      (m.decl d).underlying?.elim (some d) fun _ => m.recordOfDecl? d := by
  have hnull : d.handle ≠ 0 := Nat.succ_ne_zero _
  rw [scopeFor?, if_neg hnull, hd]
  cases h : (m.decl d).underlying? <;> simp [h]

/-! ## What a path can meet -/

theorem Passable.of_scopeFor? (hopens : opensScope m d = true)
    (hscope : scopeFor? m d.handle = some s) (htarget : m.scopeTarget d = s) : Passable m d where
  target r hr := htarget.trans (Option.some.inj (hscope.symm.trans hr))
  barren h := by simp [hopens, hscope] at h

/-- What opens a scope of its own is passed. -/
theorem Passable.of_scope (hsize : d.handle ≤ UInt32.size) (hopens : opensScope m d = true)
    (hown : (m.decl d).underlying? = none) : Passable m d := by
  have hd := declOfHandle?_handle (Model.hasDecl_of_opensScope hopens) hsize
  have hscope : scopeFor? m d.handle = some d := by rw [scopeFor?_handle hd, hown]; rfl
  exact .of_scopeFor? hopens hscope (Model.scopeTarget_of_underlying_none hown)

/-- A typedef of a class is passed: both ways go on in the class. -/
theorem Passable.of_typedef_class (hsize : d.handle ≤ UInt32.size) {t : TypeId}
    (hkind : (m.decl d).kind = .typedef t) {r : DeclId} (hr : m.kindOf t = .record r) :
    Passable m d := by
  have hopens : opensScope m d = true := by rw [opensScope, hkind]
  have hd := declOfHandle?_handle (Model.hasDecl_of_opensScope hopens) hsize
  have hscope : scopeFor? m d.handle = some r := by
    simp [scopeFor?_handle hd, Decl.underlying?, hkind, Model.recordOfDecl?, Model.recordOfType?,
      hr]
  have htarget : m.scopeTarget d = r := by simp [Model.scopeTarget, hkind, hr]
  exact .of_scopeFor? hopens hscope htarget

/-- What stands for no other scope by handles is passed if no path goes on behind it. -/
theorem Passable.of_barren (hd : m.declOfHandle? d.handle = some d)
    (hclass : (m.decl d).underlying? = none ∨ m.recordOfDecl? d = none)
    (hbarren : Barren m (m.scopeTarget d)) : Passable m d := by
  refine ⟨fun s hs => ?_, fun _ => hbarren⟩
  rw [scopeFor?_handle hd] at hs
  cases hown : (m.decl d).underlying? with
  | none =>
      rw [hown] at hs
      rw [Model.scopeTarget_of_underlying_none hown]
      exact Option.some.inj hs
  | some t =>
      rcases hclass with hclass | hclass
      · exact absurd (hown.symm.trans hclass) (by simp)
      · rw [hown] at hs
        exact absurd (hclass.symm.trans hs) (by simp)

/-- No path leads to a scope from where names mean nothing that opens one, is a template, or leads
on to one. -/
theorem Barren.of_lookupIn (h : ∀ name, ∀ d ∈ m.lookupIn s name,
    opensScope m d = false ∧ (m.decl d).template? = none ∧ Barren m d) : Barren m s := by
  have hfound {segment : String} {d : DeclId}
      (hd : (m.lookupSegment s segment).found? = some d) :
      opensScope m d = false ∧ Barren m d := by
    obtain ⟨name, hd | hd⟩ := Model.mem_of_found?_lookupSegment hd
    · exact ⟨(h name d hd).1, (h name d hd).2.2⟩
    · obtain ⟨c, hc, hd⟩ := List.mem_flatMap.mp hd
      rw [(h name c hc).2.1] at hd
      exact absurd hd List.not_mem_nil
  intro segments
  cases segments with
  | nil => rfl
  | cons segment rest =>
      by_cases hrest : rest = []
      · subst hrest
        change (m.lookupSegment s segment).found?.filter _ = none
        cases hd : (m.lookupSegment s segment).found? with
        | none => rfl
        | some d => rw [Option.filter_some, if_neg (by simp [(hfound hd).1])]
      · rw [Model.found?_lookupSegments_cons hrest]
        cases hd : (m.lookupSegment s segment).found? with
        | none => rfl
        | some d =>
            have hown : (m.decl d).underlying? = none := by
              have hcloses := (hfound hd).1
              unfold opensScope at hcloses
              unfold Decl.underlying?
              split <;> simp_all
            rw [Option.bind_some, Model.scopeTarget_of_underlying_none hown]
            exact (hfound hd).2 rest

/-- What has no bases and nominates no namespace, as an enumeration, leads to no scope if none of
its members does. -/
theorem Barren.of_members (hrecord : m.record? s = none)
    (husing : (m.decl s).usingDirectives = [])
    (hmembers : ∀ c ∈ (m.decl s).members, (m.decl c).isTransparent = false ∧
      opensScope m c = false ∧ (m.decl c).template? = none ∧ Barren m c) : Barren m s := by
  refine Barren.of_lookupIn fun name d hd => ?_
  have hbases : m.baseRecords s = [] := by rw [Model.baseRecords, hrecord]; rfl
  have hdirect : m.lookupIn s name = m.membersNamed s name := by
    rw [Model.lookupIn, Model.declFuel, Model.lookupInFrom]
    simp +contextual [hbases, husing, Model.firstNonempty]
  rw [hdirect] at hd
  exact (hmembers d (Model.mem_members_of_mem_membersNamed (fun c hc => (hmembers c hc).1) hd)).2

/-! ## Whole paths -/

/-- In every reachable model, the path to a scope means the same looked up segment by segment as in
one piece, with or without `::` in front, if it is empty or no segment of it is, and goes on in the
same way behind everything that it meets. -/
theorem scopeByCompleteName_eq (h : m.Reachable) {path : String}
    (htexts : path = "" ∨ ∀ segment ∈ pathSegments path, segment ≠ "")
    (hway : ∀ d ∈ m.waypoints Model.root (pathSegments path), Passable m d) :
    scopeByCompleteName m path = handleOf (scopeNamed? m path 0) := by
  rcases htexts with rfl | htexts
  · rfl
  have hone : ∀ segment ∈ pathSegments path, segment ≠ "" ∧ IsOneSegment segment :=
    fun segment hsegment => ⟨htexts segment hsegment, isOneSegment_of_mem hsegment⟩
  have hwalk {parent : Handle} (hroot : scopeFor? m parent = some Model.root) :
      scopeBySegments? m parent (pathSegments path) =
        ((m.lookupNamed path Model.root).found?.filter (opensScope m)).map DeclId.handle := by
    rw [Model.lookupNamed_root]
    exact scopeBySegments?_eq hroot (pathSegments_ne_nil path) hone hway
  have hnull : scopeFor? m 0 = some Model.root := rfl
  have hglobal : scopeFor? m Model.root.handle = some Model.root := by
    obtain ⟨hroot, hunit, -⟩ := h.wellFormed.translationUnit
    rw [scopeFor?_handle (declOfHandle?_handle hroot (by decide))]
    simp [Decl.underlying?, hunit]
  have hpath : ¬path.isEmpty = true := by
    intro hempty
    obtain rfl : path = "" := by simpa using hempty
    exact htexts "" List.mem_cons_self rfl
  have hdirect : scopeNamed? m path 0 =
      (m.lookupNamed path Model.root).found?.filter (opensScope m) := by
    rw [scopeNamed?, if_neg hpath]
    rfl
  have hsegments : scopeBySegments? m 0 (globalSegments path) =
      (scopeNamed? m path 0).map DeclId.handle := by
    rcases globalSegments_eq htexts with heq | heq
    · rw [heq, hwalk hnull, hdirect]
    · -- the segment without text in front starts over where the path starts
      rw [heq, hdirect, ← hwalk hglobal]
      exact scopeBySegments?_restart 0 [] _
  rw [scopeByCompleteName, hsegments, handleOf]
  cases scopeNamed? m path 0 <;> rfl

/-- Paths through typedefs in a namespace: of a class, in which they go on, and of an enumeration,
in which they end. -/
theorem scopeByCompleteName_typedefs :
    let space := ((Request.declareNamespace Model.root "N").perform.run Model.empty).2
    let klass := ((Request.declareRecord ⟨1⟩ "C" .struct true).perform.run space).2
    let inner := ((Request.declareRecord ⟨2⟩ "D" .struct true).perform.run klass).2
    let classType := ((Request.typeOfDecl ⟨2⟩).perform.run inner).2
    let classAlias := ((Request.declareTypedef ⟨1⟩ "A" ⟨0⟩).perform.run classType).2
    let enumeration := ((Request.declareEnum ⟨1⟩ "E" false [("e", 0)]).perform.run classAlias).2
    let enumType := ((Request.typeOfDecl ⟨5⟩).perform.run enumeration).2
    let m := ((Request.declareTypedef ⟨1⟩ "T" ⟨2⟩).perform.run enumType).2
    scopeByCompleteName m "N::A::D" = 4 ∧
      scopeByCompleteName m "N::A::D" = handleOf (scopeNamed? m "N::A::D" 0) ∧
      scopeByCompleteName m " ::N::T::e" = handleOf (scopeNamed? m " ::N::T::e" 0) := by
  intro space klass inner classType classAlias enumeration enumType m
  have hspace : space.Reachable := .step .empty (.declareNamespace Model.root "N")
    (by change Model.empty.HasDecl Model.root; decide)
  have hklass : klass.Reachable := .step hspace (.declareRecord ⟨1⟩ "C" .struct true)
    (by change space.HasDecl ⟨1⟩; decide +kernel)
  have hinner : inner.Reachable := .step hklass (.declareRecord ⟨2⟩ "D" .struct true)
    (by change klass.HasDecl ⟨2⟩; decide +kernel)
  have hclassType : classType.Reachable := .step hinner (.typeOfDecl ⟨2⟩)
    (by change inner.HasDecl ⟨2⟩; decide +kernel)
  have halias : classAlias.Reachable := .step hclassType (.declareTypedef ⟨1⟩ "A" ⟨0⟩)
    ⟨by decide +kernel, by decide +kernel⟩
  have henum : enumeration.Reachable := .step halias (.declareEnum ⟨1⟩ "E" false [("e", 0)])
    (by change classAlias.HasDecl ⟨1⟩; decide +kernel)
  have henumType : enumType.Reachable := .step henum (.typeOfDecl ⟨5⟩)
    (by change enumeration.HasDecl ⟨5⟩; decide +kernel)
  have hm : m.Reachable := .step henumType (.declareTypedef ⟨1⟩ "T" ⟨2⟩)
    ⟨by decide +kernel, by decide +kernel⟩
  have hN : Passable m ⟨1⟩ := .of_scope (by decide) (by decide +kernel) (by decide +kernel)
  have hA : Passable m ⟨4⟩ := .of_typedef_class (t := ⟨0⟩) (r := ⟨2⟩) (by decide)
    (by decide +kernel) (by decide +kernel)
  have he : Barren m ⟨6⟩ := .of_members (by decide +kernel) (by decide +kernel)
    (by rw [show (m.decl ⟨6⟩).members = [] by decide +kernel]; simp)
  have hE : Barren m ⟨5⟩ := by
    refine .of_members (by decide +kernel) (by decide +kernel) ?_
    rw [show (m.decl ⟨5⟩).members = [⟨6⟩] by decide +kernel]
    simp only [List.mem_singleton, forall_eq]
    exact ⟨by decide +kernel, by decide +kernel, by decide +kernel, he⟩
  have hT : Passable m ⟨7⟩ := by
    refine .of_barren (by decide +kernel) (.inr (by decide +kernel)) ?_
    rw [show m.scopeTarget ⟨7⟩ = ⟨5⟩ by decide +kernel]
    exact hE
  refine ⟨by decide +kernel, scopeByCompleteName_eq hm (.inr (by decide +kernel)) ?_,
    scopeByCompleteName_eq hm (.inr (by decide +kernel)) ?_⟩
  · rw [show m.waypoints Model.root (pathSegments "N::A::D") = [⟨1⟩, ⟨4⟩] by decide +kernel]
    simp only [List.mem_cons, List.not_mem_nil, or_false, forall_eq_or_imp, forall_eq]
    exact ⟨hN, hA⟩
  · rw [show m.waypoints Model.root (pathSegments " ::N::T::e") = [⟨1⟩, ⟨7⟩] by decide +kernel]
    simp only [List.mem_cons, List.not_mem_nil, or_false, forall_eq_or_imp, forall_eq]
    exact ⟨hN, hT⟩

end Query

end CppReflect
