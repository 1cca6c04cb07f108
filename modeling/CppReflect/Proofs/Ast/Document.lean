import CppReflect.Ast.Location
import CppReflect.Ast.Node

/-!
# The files that a dump names, in the order of the document

The files are listed without following the dump: those that the locations in a value name, in the
order in which they stand in the document. Following the locations comes to the last of them.
-/

namespace CppReflect.Ast

mutual

/-- The files that a location names: in the place of the spelling, in the place of the expansion,
and by itself. -/
def locationFiles : Json → List String
  | .obj fields =>
    filesUnder "spellingLoc" fields ++ filesUnder "expansionLoc" fields ++
      ((fields.lookup "file").bind Json.str?).toList
  | _ => []

/-- The files that the location under a key names. -/
def filesUnder (key : String) : List (String × Json) → List String
  | [] => []
  | (k, v) :: rest => if key = k then locationFiles v else filesUnder key rest

end

mutual

/-- The files that the locations in a value name. -/
def namedFiles : Json → List String
  | .arr items => itemFiles items
  | .obj fields => fieldFiles fields
  | _ => []

/-- The files that the locations in the items name. -/
def itemFiles : List Json → List String
  | [] => []
  | v :: rest => namedFiles v ++ itemFiles rest

/-- The files that the locations in the fields name. The chain of includes that a location carries
is not a location of the dump. -/
def fieldFiles : List (String × Json) → List String
  | [] => []
  | (key, v) :: rest =>
    (if key = "loc" ∨ key = "begin" ∨ key = "end" then locationFiles v
      else if key = "includedFrom" then [] else namedFiles v) ++ fieldFiles rest

end

/-- The files that the location of a node and the two ends of its range name. -/
def headFiles (node : Json) : List String :=
  (node.get? "loc").elim [] locationFiles ++
    (node.get? "range").elim [] fun range =>
      (range.get? "begin").elim [] locationFiles ++ (range.get? "end").elim [] locationFiles

/-- The file behind the files that are named. -/
def lastFile (file : Option String) (named : List String) : Option String :=
  named.getLast?.or file

theorem lastFile_append (file : Option String) (named more : List String) :
    lastFile file (named ++ more) = lastFile (lastFile file named) more := by
  simp only [lastFile, List.getLast?_append]
  exact Option.or_assoc

/-! ## Following locations -/

theorem filesUnder_eq (key : String) (fields : List (String × Json)) :
    filesUnder key fields = (fields.lookup key).elim [] locationFiles := by
  induction fields with
  | nil => simp [filesUnder]
  | cons field rest ih =>
      obtain ⟨k, v⟩ := field
      unfold filesUnder
      rw [List.lookup_cons, ih]
      split
      next heq => simp [heq]
      next hne => simp [beq_eq_false_iff_ne.mpr hne]

theorem depth_of_lookup {key : String} {fields : List (String × Json)} {v : Json}
    (h : fields.lookup key = some v) : v.depth ≤ Json.depthOfFields fields := by
  induction fields with
  | nil => simp at h
  | cons field rest ih =>
      obtain ⟨k, w⟩ := field
      rw [List.lookup_cons] at h
      unfold Json.depthOfFields
      split at h
      · exact Option.some.inj h ▸ Nat.le_max_left _ _
      · exact Nat.le_trans (ih h) (Nat.le_max_right _ _)

/-- A location is followed to the last of its files, if it is followed down to its depth. -/
theorem fileAfterFrom_eq {fuel : Nat} {loc : Json} (h : loc.depth < fuel) (file : Option String) :
    fileAfterFrom fuel loc file = lastFile file (locationFiles loc) := by
  induction fuel generalizing loc file with
  | zero => exact absurd h (Nat.not_lt_zero _)
  | succ fuel ih =>
      cases loc with
      | obj fields =>
          have hunder : ∀ key file, (fields.lookup key).elim file (fun l => fileAfterFrom fuel l file) =
              lastFile file (filesUnder key fields) := by
            intro key file
            rw [filesUnder_eq]
            cases hkey : fields.lookup key with
            | none => rfl
            | some l => exact ih (Nat.lt_of_le_of_lt (depth_of_lookup hkey) (Nat.lt_of_succ_lt_succ h)) file
          unfold fileAfterFrom locationFiles
          simp only [Json.get?, hunder, lastFile_append]
          cases (fields.lookup "file").bind Json.str? <;> rfl
      | null | bool | int | float | str | arr => rfl

theorem fileAfter_eq (loc : Json) (file : Option String) :
    fileAfter loc file = lastFile file (locationFiles loc) :=
  fileAfterFrom_eq (Nat.lt_succ_self _) file

/-- The location and the range of a node are followed to the last of their files. -/
theorem fileAfterNode_eq (node : Json) (file : Option String) :
    fileAfterNode node file = lastFile file (headFiles node) := by
  have helim : ∀ (v : Option Json) file, v.elim file (fun l => fileAfter l file) =
      lastFile file (v.elim [] locationFiles) := by
    intro v file
    cases v with
    | none => rfl
    | some l => exact fileAfter_eq l file
  unfold fileAfterNode headFiles
  simp only [helim, lastFile_append]
  cases node.get? "range" with
  | none => rfl
  | some range => simp only [Option.elim_some, lastFile_append]

mutual

/-- Everything in a value is followed to the last of its files. -/
theorem fileAfterAll_eq : (v : Json) → (file : Option String) →
    fileAfterAll v file = lastFile file (namedFiles v)
  | .arr items, file => by
    unfold fileAfterAll namedFiles
    exact fileAfterItems_eq items file
  | .obj fields, file => by
    unfold fileAfterAll namedFiles
    exact fileAfterFields_eq fields file
  | .null, _ | .bool _, _ | .int _, _ | .float _, _ | .str _, _ => by
    unfold fileAfterAll namedFiles
    rfl

theorem fileAfterItems_eq : (items : List Json) → (file : Option String) →
    fileAfterItems items file = lastFile file (itemFiles items)
  | [], file => by
    unfold fileAfterItems itemFiles
    rfl
  | v :: rest, file => by
    unfold fileAfterItems itemFiles
    rw [fileAfterAll_eq v file, fileAfterItems_eq rest, lastFile_append]

theorem fileAfterFields_eq : (fields : List (String × Json)) → (file : Option String) →
    fileAfterFields fields file = lastFile file (fieldFiles fields)
  | [], file => by
    unfold fileAfterFields fieldFiles
    rfl
  | (key, v) :: rest, file => by
    unfold fileAfterFields fieldFiles
    rw [fileAfterFields_eq rest, lastFile_append]
    congr 1
    split
    · exact fileAfter_eq v file
    · split
      · rfl
      · exact fileAfterAll_eq v file

end

/-! ## Dumps in the order of the document -/

/-- A node names files in its location and range, and then in the nodes inside, which are listed
behind them; no other field names one. -/
inductive Ordered : Json → Prop
  | mk {node : Json} (files : namedFiles node = headFiles node ++ itemFiles (children node))
      (inner : ∀ child ∈ children node, Ordered child) : Ordered node

theorem Ordered.files {node : Json} (h : Ordered node) :
    namedFiles node = headFiles node ++ itemFiles (children node) := by
  obtain ⟨hfiles, _⟩ := h
  exact hfiles

theorem Ordered.inner {node : Json} (h : Ordered node) : ∀ child ∈ children node, Ordered child := by
  obtain ⟨_, hinner⟩ := h
  exact hinner

/-! ## Fields in the order of the document -/

/-- The fields that name files stand under the given keys and in their order. -/
structure ListsFiles (keys : List String) (fields : List (String × Json)) : Prop where
  nodup : (fields.map Prod.fst).Nodup
  sublist : ((fields.filter fun f => !(fieldFiles [f]).isEmpty).map Prod.fst).Sublist keys

/-- The files that the value under a key names there. -/
def filesOfKey (fields : List (String × Json)) (key : String) : List String :=
  (fields.lookup key).elim [] fun v => fieldFiles [(key, v)]

theorem filesOfKey_location {fields : List (String × Json)} {key : String}
    (h : key = "loc" ∨ key = "begin" ∨ key = "end") :
    filesOfKey fields key = (fields.lookup key).elim [] locationFiles := by
  unfold filesOfKey
  cases fields.lookup key with
  | none => rfl
  | some v => simp [fieldFiles, h]

theorem filesOfKey_value {fields : List (String × Json)} {key : String}
    (h : key ∉ ["loc", "begin", "end", "includedFrom"]) :
    filesOfKey fields key = (fields.lookup key).elim [] namedFiles := by
  unfold filesOfKey
  simp only [List.mem_cons, List.not_mem_nil, or_false, not_or] at h
  cases fields.lookup key with
  | none => rfl
  | some v => simp [fieldFiles, h]

theorem filesOfKey_eq_nil {keys : List String} {fields : List (String × Json)}
    (h : ListsFiles keys fields) {key : String} (hkey : key ∉ keys) : filesOfKey fields key = [] := by
  unfold filesOfKey
  cases hlookup : fields.lookup key with
  | none => rfl
  | some v =>
      by_cases hfiles : fieldFiles [(key, v)] = []
      · exact hfiles
      · obtain ⟨before, after, rfl, _⟩ := List.lookup_eq_some_iff.mp hlookup
        refine absurd (h.sublist.subset (List.mem_map.mpr ⟨(key, v), ?_, rfl⟩)) hkey
        exact List.mem_filter.mpr ⟨by simp, by simpa using hfiles⟩

theorem flatMap_filesOfKey_eq_nil {keys others : List String} {fields : List (String × Json)}
    (h : ListsFiles keys fields) (hothers : ∀ key ∈ others, key ∉ keys) :
    others.flatMap (filesOfKey fields) = [] :=
  List.flatMap_eq_nil_iff.mpr fun key hkey => filesOfKey_eq_nil h (hothers key hkey)

/-- The files that the fields name are those under the keys, one key after the other. -/
theorem fieldFiles_eq_flatMap {keys : List String} {fields : List (String × Json)}
    (h : ListsFiles keys fields) (hkeys : keys.Nodup) :
    fieldFiles fields = keys.flatMap (filesOfKey fields) := by
  induction fields generalizing keys with
  | nil => simp [fieldFiles, filesOfKey]
  | cons field rest ih =>
      obtain ⟨k, v⟩ := field
      obtain ⟨hnodup, hsublist⟩ := h
      obtain ⟨hfresh, hnodup⟩ := List.nodup_cons.mp hnodup
      have hcons : fieldFiles ((k, v) :: rest) = fieldFiles [(k, v)] ++ fieldFiles rest := by
        simp [fieldFiles]
      have hother : ∀ {others : List String}, k ∉ others →
          others.flatMap (filesOfKey ((k, v) :: rest)) = others.flatMap (filesOfKey rest) := by
        intro others hk
        refine congrArg List.flatten (List.map_congr_left fun key hkey => ?_)
        have hne : key ≠ k := fun heq => hk (heq ▸ hkey)
        rw [filesOfKey, filesOfKey, List.lookup_cons, beq_eq_false_iff_ne.mpr hne]
      have hhere : filesOfKey ((k, v) :: rest) k = fieldFiles [(k, v)] := by
        simp [filesOfKey]
      -- a field that names no file may stand anywhere; one that does is the next of the keys
      by_cases hfiles : fieldFiles [(k, v)] = []
      · rw [List.filter_cons_of_neg (by simp [hfiles])] at hsublist
        have hnone : filesOfKey rest k = [] := by
          have hlookup : rest.lookup k = none := List.lookup_eq_none_iff.mpr fun f hf => by
            simpa using fun heq : k = f.1 => hfresh (List.mem_map.mpr ⟨f, hf, heq.symm⟩)
          rw [filesOfKey, hlookup, Option.elim_none]
        rw [hcons, hfiles, List.nil_append, ih ⟨hnodup, hsublist⟩ hkeys]
        refine congrArg List.flatten (List.map_congr_left fun key hkey => ?_)
        by_cases heq : key = k
        · rw [heq, hnone, hhere, hfiles]
        · simpa using (@hother [key] (by simpa using fun h => heq h.symm)).symm
      · rw [List.filter_cons_of_pos (by simpa using hfiles), List.map_cons] at hsublist
        obtain ⟨front, behind, rfl, hk, hbehind⟩ := List.cons_sublist_iff.mp hsublist
        obtain ⟨before, after, rfl⟩ := List.append_of_mem hk
        have hrest : ListsFiles behind rest := ⟨hnodup, hbehind⟩
        obtain ⟨hfront, hnodup', hdisjoint⟩ := List.nodup_append.mp hkeys
        obtain ⟨hbefore, hafter, hdisjoint'⟩ := List.nodup_append.mp hfront
        obtain ⟨hk', hafter⟩ := List.nodup_cons.mp hafter
        have hgone : ∀ {others : List String}, (∀ key ∈ others, key ∈ before ++ k :: after ∧ key ≠ k) →
            others.flatMap (filesOfKey ((k, v) :: rest)) = [] := by
          intro others hothers
          rw [hother fun hmem => (hothers k hmem).2 rfl]
          refine flatMap_filesOfKey_eq_nil hrest fun key hkey hbehind => ?_
          exact hdisjoint key (hothers key hkey).1 key hbehind rfl
        have hnotBehind : k ∉ behind := fun hmem => hdisjoint k hk k hmem rfl
        rw [List.flatMap_append, List.flatMap_append, List.flatMap_cons, hhere, hother hnotBehind,
          ← ih hrest hnodup', hgone, hgone, hcons]
        · simp
        · exact fun key hkey => ⟨by simp [hkey], fun heq => hk' (heq ▸ hkey)⟩
        · exact fun key hkey => ⟨by simp [hkey], fun heq => hdisjoint' key hkey k (by simp) heq⟩

/-- A node is in the order of the document if it lists `loc`, `range` and `inner` in this order, with
the two ends of the range in their order and nodes in an array, and if no other field names a
file. -/
theorem ordered_of_fields {fields : List (String × Json)}
    (hnode : ListsFiles ["loc", "range", "inner"] fields)
    (hrange : ∀ v, fields.lookup "range" = some v →
      ∃ ends, v = .obj ends ∧ ListsFiles ["begin", "end"] ends)
    (hinner : ∀ v, fields.lookup "inner" = some v → ∃ items, v = .arr items)
    (hchildren : ∀ child ∈ children (.obj fields), Ordered child) : Ordered (.obj fields) := by
  refine .mk ?_ hchildren
  have hends : filesOfKey fields "range" = (fields.lookup "range").elim [] fun range =>
      (range.get? "begin").elim [] locationFiles ++ (range.get? "end").elim [] locationFiles := by
    rw [filesOfKey_value (by decide)]
    cases hlookup : fields.lookup "range" with
    | none => rfl
    | some range =>
        obtain ⟨ends, rfl, hends⟩ := hrange range hlookup
        simp only [Option.elim_some, namedFiles, Json.get?]
        rw [fieldFiles_eq_flatMap hends (by decide), ← filesOfKey_location (by simp),
          ← filesOfKey_location (by simp)]
        simp
  have hitems : filesOfKey fields "inner" = itemFiles (children (.obj fields)) := by
    rw [filesOfKey_value (by decide)]
    cases hlookup : fields.lookup "inner" with
    | none => simp [children, Json.get?, hlookup, itemFiles]
    | some inner =>
        obtain ⟨items, rfl⟩ := hinner inner hlookup
        simp [children, Json.get?, hlookup, namedFiles, Json.items?]
  rw [namedFiles, fieldFiles_eq_flatMap hnode (by decide)]
  simp only [List.flatMap_cons, List.flatMap_nil, List.append_nil, headFiles, Json.get?]
  rw [filesOfKey_location (by simp), hends, hitems, List.append_assoc]
  rfl

end CppReflect.Ast
