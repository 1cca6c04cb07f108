import CppReflect.Proofs.Ast.Tracking
import CppReflect.Proofs.Ast.Watched

/-!
# Dumps with the files noted in them

At every node of a dump the last file is noted that the document names up to there, the location and
the range of the node included. The note stands under a key that nothing reads, so that the dump
means what it meant before; but a visit can be watched by it.
-/

namespace CppReflect.Ast

/-- The key of the note. -/
def noteKey : String := "documentFile"

/-- What stands under the key is the same with the files noted. -/
def Kept (key : String) : Prop := key ≠ noteKey ∧ key ≠ "inner"

instance (key : String) : Decidable (Kept key) := inferInstanceAs (Decidable (_ ∧ _))

/-- The last of the files, as a value. -/
def note (files : List String) : Json := files.getLast?.elim .null .str

/-- The file that is noted at a node, if one is noted there. -/
def notedFile? (node : Json) : Option (Option String) := (node.get? noteKey).map Json.str?

mutual

/-- The node with the file noted in it and in the nodes inside, behind the files named before. -/
def noted (before : List String) : Json → Json
  | .obj fields =>
    let here := before ++ headFiles (.obj fields)
    .obj ((noteKey, note here) :: notedFields here fields)
  | v => v

/-- The fields of a node with the files noted in the nodes inside. -/
def notedFields (before : List String) : List (String × Json) → List (String × Json)
  | [] => []
  | (key, v) :: rest =>
    (key, if key = "inner" then notedInner before v else v) :: notedFields before rest

/-- The nodes inside a node, as the value of its field, with the files noted in them. -/
def notedInner (before : List String) : Json → Json
  | .arr items => .arr (notedItems before items)
  | v => v

/-- Nodes side by side with the files noted in them. -/
def notedItems (before : List String) : List Json → List Json
  | [] => []
  | v :: rest => noted before v :: notedItems (before ++ namedFiles v) rest

end

/-! ## What is read of a node -/

theorem lookup_notedFields (before : List String) (key : String) (fields : List (String × Json)) :
    (notedFields before fields).lookup key =
      if key = "inner" then (fields.lookup key).map (notedInner before) else fields.lookup key := by
  induction fields with
  | nil => simp [notedFields]
  | cons field rest ih =>
      obtain ⟨k, v⟩ := field
      rw [notedFields, List.lookup_cons, List.lookup_cons, ih]
      cases hk : key == k with
      | false => rfl
      | true =>
          obtain rfl := beq_iff_eq.mp hk
          by_cases hinner : key = "inner"
          · simp [hinner]
          · simp [hinner]

variable {before : List String} {node : Json}

/-- Nothing but the note and the nodes inside has changed. -/
theorem get?_noted {key : String} (h : Kept key) :
    (noted before node).get? key = node.get? key := by
  cases node with
  | obj fields =>
      rw [noted]
      simp only [Json.get?]
      rw [List.lookup_cons, beq_eq_false_iff_ne.mpr h.1, lookup_notedFields, if_neg h.2]
  | null | bool | int | float | str | arr => rw [noted]; rintro _ ⟨⟩

theorem children_noted (before : List String) (node : Json) :
    children (noted before node) = notedItems (before ++ headFiles node) (children node) := by
  have hinner : "inner" ≠ noteKey := by decide
  cases node with
  | obj fields =>
      rw [noted]
      unfold children
      simp only [Json.get?]
      rw [List.lookup_cons, beq_eq_false_iff_ne.mpr hinner, lookup_notedFields, if_pos rfl]
      cases hfield : fields.lookup "inner" with
      | none => simp [notedItems]
      | some v =>
          cases v with
          | arr items => simp [notedInner, Json.items?]
          | null | bool | int | float | str | obj => simp [notedInner, Json.items?, notedItems]
  | null | bool | int | float | str | arr =>
      rw [noted]
      · simp [children, Json.get?, notedItems]
      · rintro _ ⟨⟩

/-- The file that is noted is the last one up to there. -/
theorem notedFile?_noted {file : Option String} (h : notedFile? (noted before node) = some file) :
    file = (before ++ headFiles node).getLast? := by
  cases node with
  | obj fields =>
      rw [noted] at h
      simp only [notedFile?, Json.get?, List.lookup_cons_self, Option.map_some,
        Option.some.injEq] at h
      rw [← h, note]
      cases (before ++ headFiles (.obj fields)).getLast? <;> rfl
  | null | bool | int | float | str | arr =>
      rw [noted] at h
      · simp [notedFile?, Json.get?] at h
      · rintro _ ⟨⟩

/-! ## Notes name no files and take no room -/

theorem namedFiles_note (files : List String) : namedFiles (note files) = [] := by
  unfold note
  cases files.getLast? <;> simp [namedFiles]

mutual

theorem namedFiles_noted (before : List String) : (v : Json) →
    namedFiles (noted before v) = namedFiles v
  | .obj fields => by
    rw [noted, namedFiles, fieldFiles, namedFiles_note, fieldFiles_noted, namedFiles]
    simp [noteKey]
  | .null | .bool _ | .int _ | .float _ | .str _ | .arr _ => by
    rw [noted]
    rintro _ ⟨⟩

theorem fieldFiles_noted (before : List String) : (fields : List (String × Json)) →
    fieldFiles (notedFields before fields) = fieldFiles fields
  | [] => by rw [notedFields]
  | (key, v) :: rest => by
    rw [notedFields, fieldFiles, fieldFiles, fieldFiles_noted before rest]
    congr 1
    by_cases hinner : key = "inner"
    · simp [hinner, namedFiles_notedInner before v]
    · simp [hinner]

theorem namedFiles_notedInner (before : List String) : (v : Json) →
    namedFiles (notedInner before v) = namedFiles v
  | .arr items => by rw [notedInner, namedFiles, namedFiles, itemFiles_noted before items]
  | .null | .bool _ | .int _ | .float _ | .str _ | .obj _ => by
    rw [notedInner]
    rintro _ ⟨⟩

theorem itemFiles_noted (before : List String) : (items : List Json) →
    itemFiles (notedItems before items) = itemFiles items
  | [] => by rw [notedItems]
  | v :: rest => by
    rw [notedItems, itemFiles, itemFiles, namedFiles_noted before v, itemFiles_noted _ rest]

end

theorem depth_note (files : List String) : (note files).depth = 0 := by
  unfold note
  cases files.getLast? <;> simp [Json.depth]

mutual

theorem depth_noted (before : List String) : (v : Json) → (noted before v).depth = v.depth
  | .obj fields => by
    rw [noted, Json.depth, Json.depthOfFields, depth_note, depthOfFields_noted, Json.depth,
      Nat.zero_max]
  | .null | .bool _ | .int _ | .float _ | .str _ | .arr _ => by
    rw [noted]
    rintro _ ⟨⟩

theorem depthOfFields_noted (before : List String) : (fields : List (String × Json)) →
    Json.depthOfFields (notedFields before fields) = Json.depthOfFields fields
  | [] => by rw [notedFields]
  | (key, v) :: rest => by
    rw [notedFields, Json.depthOfFields, Json.depthOfFields, depthOfFields_noted before rest]
    by_cases hinner : key = "inner"
    · simp [hinner, depth_notedInner before v]
    · simp [hinner]

theorem depth_notedInner (before : List String) : (v : Json) →
    (notedInner before v).depth = v.depth
  | .arr items => by rw [notedInner, Json.depth, Json.depth, depthOfItems_noted before items]
  | .null | .bool _ | .int _ | .float _ | .str _ | .obj _ => by
    rw [notedInner]
    rintro _ ⟨⟩

theorem depthOfItems_noted (before : List String) : (items : List Json) →
    Json.depthOfItems (notedItems before items) = Json.depthOfItems items
  | [] => by rw [notedItems]
  | v :: rest => by
    rw [notedItems, Json.depthOfItems, Json.depthOfItems, depth_noted before v,
      depthOfItems_noted _ rest]

end

/-! ## Readers that see no notes -/

theorem text_noted {key : String} (h : Kept key) : text (noted before node) key = text node key := by
  simp only [text, get?_noted h]

theorem flag_noted {key : String} (h : Kept key) : flag (noted before node) key = flag node key := by
  simp only [flag, get?_noted h]

theorem has_noted {key : String} (h : Kept key) : has (noted before node) key = has node key := by
  simp only [has, get?_noted h]

theorem kind_noted : kind (noted before node) = kind node := text_noted (by decide)

theorem typeUnder?_noted {key : String} (h : Kept key) :
    typeUnder? (noted before node) key = typeUnder? node key := by
  simp only [typeUnder?, get?_noted h]

theorem qualType?_noted : qualType? (noted before node) = qualType? node :=
  typeUnder?_noted (by decide)

theorem tagOf_noted : tagOf (noted before node) = tagOf node := by
  simp (disch := decide) only [tagOf, text_noted]

theorem headFiles_noted : headFiles (noted before node) = headFiles node := by
  simp (disch := decide) only [headFiles, get?_noted]

/-- What is asked of a node has the same answer with the files noted. -/
def Blind {γ : Type} (f : Json → γ) : Prop := ∀ before node, f (noted before node) = f node

section Items

variable {γ δ : Type} {f : Json → γ}

/-- Nodes side by side, read one by one. -/
theorem map_notedItems (hf : Blind f) (before : List String) (items : List Json) :
    (notedItems before items).map f = items.map f := by
  induction items generalizing before with
  | nil => simp [notedItems]
  | cons v rest ih => rw [notedItems, List.map_cons, List.map_cons, hf, ih]

theorem any_notedItems {f : Json → Bool} (hf : Blind f) (before : List String) (items : List Json) :
    (notedItems before items).any f = items.any f := by
  have hmap := congrArg (List.any · id) (map_notedItems hf before items)
  simpa [List.any_map] using hmap

theorem findSome?_notedItems {f : Json → Option γ} (hf : Blind f) (before : List String)
    (items : List Json) : (notedItems before items).findSome? f = items.findSome? f := by
  induction items generalizing before with
  | nil => simp [notedItems]
  | cons v rest ih => rw [notedItems, List.findSome?_cons, List.findSome?_cons, hf, ih]

theorem find?_notedItems {q : Json → Bool} {f : Json → Option γ} (hq : Blind q) (hf : Blind f)
    (before : List String) (items : List Json) :
    ((notedItems before items).find? q).bind f = (items.find? q).bind f := by
  induction items generalizing before with
  | nil => simp [notedItems]
  | cons v rest ih =>
      rw [notedItems, List.find?_cons, List.find?_cons, hq]
      split
      · exact hf _ _
      · exact ih _

theorem mapM_notedItems {M : Type → Type} [Monad M] [LawfulMonad M] {f : Json → M γ}
    (hf : Blind f) (before : List String) (items : List Json) :
    (notedItems before items).mapM f = items.mapM f := by
  induction items generalizing before with
  | nil => simp [notedItems]
  | cons v rest ih => rw [notedItems, List.mapM_cons, List.mapM_cons, hf, ih]

theorem mapM_filter_notedItems {M : Type → Type} [Monad M] [LawfulMonad M] {q : Json → Bool}
    {f : Json → M γ} (hq : Blind q) (hf : Blind f) (before : List String) (items : List Json) :
    ((notedItems before items).filter q).mapM f = (items.filter q).mapM f := by
  induction items generalizing before with
  | nil => simp [notedItems]
  | cons v rest ih =>
      rw [notedItems, List.filter_cons, List.filter_cons, hq]
      split
      · rw [List.mapM_cons, List.mapM_cons, hf, ih]
      · exact ih _

theorem foldlM_notedItems {M : Type → Type} [Monad M] [LawfulMonad M] {f : δ → Json → M δ}
    (hf : ∀ b, Blind (f b)) (before : List String) (items : List Json) (b : δ) :
    (notedItems before items).foldlM f b = items.foldlM f b := by
  induction items generalizing before b with
  | nil => simp [notedItems]
  | cons v rest ih =>
      rw [notedItems, List.foldlM_cons, List.foldlM_cons, hf]
      exact congrArg _ (funext fun b' => ih _ b')

end Items

theorem observe_noted : observe (noted before node) = observe node := by
  simp only [observe, fileAfterNode_eq, headFiles_noted]

theorem passOver_noted : passOver (noted before node) = passOver node := by
  simp only [passOver, fileAfterItems_eq, children_noted, itemFiles_noted]

/-! ## Handlers that do not visit -/

theorem constantValueFrom_blind (fuel : Nat) : Blind (constantValueFrom fuel) := by
  induction fuel with
  | zero => exact fun _ _ => rfl
  | succ fuel ih =>
      intro before node
      unfold constantValueFrom
      simp (disch := decide) only [kind_noted, get?_noted, children_noted, findSome?_notedItems ih]

theorem constantValue?_noted : constantValue? (noted before node) = constantValue? node := by
  simp only [constantValue?, depth_noted, constantValueFrom_blind _ before node]

theorem defaultArgument_blind (text : String) : Blind (defaultArgument text) := by
  intro before node
  -- of the nodes inside, only the range of the first one is read
  have hdefault : defaultRange? (noted before node) = defaultRange? node := by
    unfold defaultRange?
    rw [get?_noted (by decide), children_noted]
    cases children node with
    | nil => simp [notedItems]
    | cons v rest =>
        simp (disch := decide) only [notedItems, List.head?_cons, Option.bind_eq_bind,
          Option.bind_some, get?_noted]
  simp only [defaultArgument, hdefault]

theorem functionParams_noted (source : Source) (context : DeclId) :
    functionParams source (noted before node) context = functionParams source node context := by
  unfold functionParams
  rw [children_noted]
  refine mapM_filter_notedItems ?_ ?_ _ _
  · exact fun _ _ => by simp only [kind_noted]
  · intro b child
    simp (disch := decide) only [defaultArgument_blind _ b child, qualType?_noted, text_noted]

theorem baseSpecifiers_noted (context : DeclId) :
    baseSpecifiers (noted before node) context = baseSpecifiers node context := by
  simp (disch := decide) only [baseSpecifiers, get?_noted]

theorem templateParams_noted (context : DeclId) :
    templateParams (noted before node) context = templateParams node context := by
  unfold templateParams
  rw [children_noted, mapM_notedItems]
  intro b child
  simp (disch := decide) only [kind_noted, text_noted, flag_noted, qualType?_noted]

theorem templateArgFrom_blind (context : DeclId) (fuel : Nat) :
    Blind (templateArgFrom context fuel) := by
  induction fuel with
  | zero => exact fun _ _ => rfl
  | succ fuel ih =>
      intro before node
      unfold templateArgFrom
      simp (disch := decide) only [qualType?_noted, get?_noted, flag_noted, children_noted,
        mapM_notedItems ih]

theorem templateArgs_noted (context : DeclId) :
    templateArgs (noted before node) context = templateArgs node context := by
  unfold templateArgs
  dsimp only
  rw [children_noted, depth_noted, mapM_filter_notedItems ?_ (templateArgFrom_blind context _)]
  exact fun _ _ => by simp only [kind_noted]

theorem usingDirective_noted (scope : DeclId) :
    usingDirective (noted before node) scope = usingDirective node scope := by
  simp (disch := decide) only [usingDirective, get?_noted]

theorem ownerOf_noted (scope : DeclId) : ownerOf (noted before node) scope = ownerOf node scope := by
  simp (disch := decide) only [ownerOf, get?_noted]

theorem specialOf_noted (owner : DeclId) (params : List ParamInfo) :
    specialOf (noted before node) owner params = specialOf node owner params := by
  simp (disch := decide) only [specialOf, kind_noted, text_noted]

theorem methodOf_noted (proto : Option FunctionProto) :
    methodOf (noted before node) proto = methodOf node proto := by
  simp (disch := decide) only [methodOf, text_noted, flag_noted]

theorem functionDecl_noted (source : Source) (scope : DeclId) (access : Access)
    (detachedKey : Option String) :
    functionDecl source (noted before node) scope access detachedKey =
      functionDecl source node scope access detachedKey := by
  have hbody : ((children (noted before node)).any fun c => kind c == "CompoundStmt") =
      (children node).any fun c => kind c == "CompoundStmt" := by
    rw [children_noted]
    exact any_notedItems (fun _ _ => by simp only [kind_noted]) _ _
  unfold functionDecl
  simp (disch := decide) only [ownerOf_noted, qualType?_noted, functionParams_noted, methodOf_noted,
    specialOf_noted, text_noted, flag_noted, has_noted, get?_noted, passOver_noted, hbody]

theorem functionTemplateMember_blind (source : Source) (parent : DeclId) (access : Access)
    (template : DeclId) (pattern : Option DeclId) :
    Blind (functionTemplateMember source parent access template pattern) := by
  intro before node
  unfold functionTemplateMember
  simp (disch := decide) only [observe_noted, has_noted, kind_noted, functionDecl_noted,
    templateArgs_noted, passOver_noted]

theorem functionTemplateDecl_noted (source : Source) (parent : DeclId) (access : Access) :
    functionTemplateDecl source (noted before node) parent access =
      functionTemplateDecl source node parent access := by
  have hpattern := find?_notedItems (q := fun c => isFunctionKind (kind c)) (f := qualType?)
    (fun _ _ => by simp only [kind_noted]) (fun _ _ => qualType?_noted) (before ++ headFiles node)
    (children node)
  unfold functionTemplateDecl
  simp (disch := decide) only [text_noted, hpattern, templateParams_noted, children_noted,
    foldlM_notedItems (functionTemplateMember_blind source parent access _)]

theorem fieldDecl_noted (record : DeclId) (access : Access) :
    fieldDecl (noted before node) record access = fieldDecl node record access := by
  simp (disch := decide) only [fieldDecl, text_noted, qualType?_noted]

theorem varDecl_noted (scope : DeclId) (access : Access) :
    varDecl (noted before node) scope access = varDecl node scope access := by
  simp (disch := decide) only [varDecl, text_noted, qualType?_noted, ownerOf_noted, get?_noted]

theorem enumeratorDecl_blind (enum : DeclId) (type : TypeId) (r : EnumeratorRange) :
    Blind (enumeratorDecl enum type r) := by
  intro before node
  unfold enumeratorDecl
  simp (disch := decide) only [observe_noted, kind_noted, constantValue?_noted, text_noted,
    passOver_noted]

theorem enumDecl_noted (parent : DeclId) (access : Access) :
    enumDecl (noted before node) parent access = enumDecl node parent access := by
  unfold enumDecl
  simp (disch := decide) only [text_noted, has_noted, typeUnder?_noted, children_noted,
    foldlM_notedItems (enumeratorDecl_blind _ _)]

theorem typedefDecl_noted (parent : DeclId) (access : Access) (unnamed : Option DeclId) :
    typedefDecl (noted before node) parent access unnamed =
      typedefDecl node parent access unnamed := by
  simp (disch := decide) only [typedefDecl, text_noted, qualType?_noted]

end CppReflect.Ast
