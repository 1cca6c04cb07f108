import CppReflect.Proofs.Library.Stems

/-!
# Real paths

A path is resolved to a real path, which leads from the root over directories only. Resolved once
more it leads to itself, since no step of it is a link. Where every real path is short enough to be
looked up as a whole, a file therefore has the same content under its real path as under any other.
-/

namespace CppReflect

/-! ## The text of a real path -/

namespace Path

/-- Names with a slash in front of each are the pieces behind what comes before the first slash. -/
theorem pieces_steps {c : List Char} {p : List (List Char)} (hc : '/' ∉ c) (hp : ∀ d ∈ p, '/' ∉ d) :
    pieces (c ++ p.flatMap ('/' :: ·)) = c :: p := by
  induction p generalizing c with
  | nil => rw [List.flatMap_nil, List.append_nil, pieces_of_slashless hc]
  | cons d p ih =>
      obtain ⟨hd, hrest⟩ := List.forall_mem_cons.mp hp
      rw [List.flatMap_cons, List.cons_append, pieces_append_slash, pieces_of_slashless hc,
        ih hd hrest]
      rfl

end Path

namespace FileTree

variable {t : FileTree} {dir p : RealPath} {c : List Char} {comps : List (List Char)}
  {e : FileEntry} {path real : String}

theorem RealPath.toList_text (hne : p ≠ []) : (RealPath.text p).toList = p.flatMap ('/' :: ·) := by
  rw [RealPath.text, if_neg (by simpa using hne), String.toList_join, List.flatMap_map]
  simp

theorem RealPath.exists_toList_text (p : RealPath) :
    ∃ rest, (RealPath.text p).toList = '/' :: rest ∧ ∀ d ∈ rest, d = '/' ∨ ∃ c ∈ p, d ∈ c := by
  cases p with
  | nil => exact ⟨[], rfl, nofun⟩
  | cons c p =>
      refine ⟨_, RealPath.toList_text (List.cons_ne_nil c p), fun d hd => ?_⟩
      rcases List.mem_append.mp hd with hd | hd
      · exact .inr ⟨c, List.mem_cons_self, hd⟩
      · obtain ⟨c', hc', hd⟩ := List.mem_flatMap.mp hd
        rcases List.mem_cons.mp hd with hd | hd
        · exact .inl hd
        · exact .inr ⟨c', List.mem_cons_of_mem c hc', hd⟩

/-! ## Steps -/

/-- The component leads from a directory to what is in it. -/
structure IsStep (c : List Char) : Prop extends Path.IsComponent c where
  notUpwards : c ≠ ['.', '.']
  noZero : ∀ d ∈ c, d.toNat ≠ 0

theorem all_noZero_iff {c : List Char} : (c.all (·.toNat != 0)) = true ↔ ∀ d ∈ c, d.toNat ≠ 0 := by
  simp

-- `all` goes through the characters of the text, while `∀` might be decided over all there are.
instance (c : List Char) : Decidable (IsStep c) :=
  decidable_of_iff
    (c ≠ [] ∧ c ≠ ['.'] ∧ '/' ∉ c ∧ c ≠ ['.', '.'] ∧ (c.all (·.toNat != 0)) = true)
    ⟨fun h => ⟨⟨h.1, h.2.1, h.2.2.1⟩, h.2.2.2.1, all_noZero_iff.mp h.2.2.2.2⟩,
      fun h => ⟨h.nonempty, h.isNoDot, h.slashless, h.notUpwards, all_noZero_iff.mpr h.noZero⟩⟩

/-- The text can be handed on component by component. -/
def Clean (c : List Char) : Prop := '/' ∉ c ∧ ∀ d ∈ c, d.toNat ≠ 0

/-- A real path that leads over directories to a directory. -/
inductive LeadsDown (t : FileTree) : RealPath → Prop
  | root : LeadsDown t []
  | enter {p : RealPath} {c : List Char} (hp : LeadsDown t p) (hc : IsStep c)
    (hentry : t.entry? (p ++ [c]) = some .directory) : LeadsDown t (p ++ [c])

/-- A real path that leads over directories to a directory or a file. -/
inductive Stands (t : FileTree) : RealPath → FileEntry → Prop
  | directory {p : RealPath} (hp : LeadsDown t p) : Stands t p .directory
  | file {p : RealPath} {c : List Char} {bytes : List UInt8} (hp : LeadsDown t p) (hc : IsStep c)
    (hentry : t.entry? (p ++ [c]) = some (.file bytes)) : Stands t (p ++ [c]) (.file bytes)

/-- A tree whose working directory is one, and whose links have targets that a path can have. -/
structure Sound (t : FileTree) : Prop where
  start : LeadsDown t t.workingDirectory
  links : ∀ p target, t.entry? p = some (.link target) → ∀ d ∈ target, d.toNat ≠ 0

theorem LeadsDown.dropLast (h : LeadsDown t p) : LeadsDown t p.dropLast := by
  cases h with
  | root => exact .root
  | enter hp _ _ => rwa [List.dropLast_concat]

theorem clean_pieces {cs : List Char} (h : ∀ d ∈ cs, d.toNat ≠ 0) :
    ∀ c ∈ Path.pieces cs, Clean c := by
  unfold Path.pieces
  induction cs with
  | nil => simp [Text.splitAtAll, Clean]
  | cons d cs ih =>
      obtain ⟨hd, hcs⟩ := List.forall_mem_cons.mp h
      rw [Text.splitAtAll]
      split
      next =>
        have hnil : Clean [] := ⟨List.not_mem_nil, fun _ hd => absurd hd List.not_mem_nil⟩
        exact List.forall_mem_cons.mpr ⟨hnil, ih hcs⟩
      next hslash =>
        have hne : '/' ≠ d := fun heq => hslash (beq_iff_eq.mpr heq.symm)
        cases hpieces : Text.splitAtAll (· == '/') cs with
        | nil => exact absurd hpieces (Text.splitAtAll_ne_nil _ cs)
        | cons piece pieces =>
            rw [hpieces] at ih
            obtain ⟨⟨hslashless, hnozero⟩, hpieces⟩ := List.forall_mem_cons.mp (ih hcs)
            refine List.forall_mem_cons.mpr ⟨⟨?_, ?_⟩, hpieces⟩
            · exact List.not_mem_cons_of_ne_of_not_mem hne hslashless
            · exact List.forall_mem_cons.mpr ⟨hd, hnozero⟩

/-- A component that is not passed over and does not lead upwards is a step. -/
theorem isStep_of_clean (hc : Clean c) (hcounts : ¬(c.isEmpty || decide (c = ['.'])) = true)
    (hup : ¬c = ['.', '.']) : IsStep c where
  nonempty := by rintro rfl; exact hcounts rfl
  isNoDot := by rintro rfl; exact hcounts rfl
  slashless := hc.1
  notUpwards := hup
  noZero := hc.2

/-- Every walk along components ends where a real path leads to. -/
theorem locate_stands (ht : t.Sound) {links : Nat} (hdir : LeadsDown t dir)
    (hcomps : ∀ c ∈ comps, Clean c) (h : t.locate links dir comps = some (p, some e)) :
    Stands t p e := by
  fun_induction locate t links dir comps with
  | case1 =>
      cases h
      exact .directory hdir
  | case2 _ _ _ _ _ ih => exact ih hdir (List.forall_mem_cons.mp hcomps).2 h
  | case3 _ _ _ _ ih => exact ih hdir.dropLast (List.forall_mem_cons.mp hcomps).2 h
  | case4 => exact absurd h (by simp)
  | case5 => cases h
  | case6 _ _ _ _ hcounts hup _ hentry ih =>
      obtain ⟨hc, hrest⟩ := List.forall_mem_cons.mp hcomps
      exact ih (.enter hdir (isStep_of_clean hc hcounts hup) hentry) hrest h
  | case7 _ _ _ _ hcounts hup _ _ hentry =>
      simp only [Option.some.injEq, Prod.mk.injEq] at h
      obtain ⟨rfl, rfl⟩ := h
      have hc := (List.forall_mem_cons.mp hcomps).1
      exact .file hdir (isStep_of_clean hc hcounts hup) hentry
  | case8 => cases h
  | case9 => cases h
  | case10 dir _ _ _ _ _ target hentry _ start ih =>
      -- The target is walked from the root or from the same directory, whatever the link is.
      have hstart : LeadsDown t start := by
        unfold start
        split
        · exact .root
        · exact hdir
      refine ih hstart (fun c hc => ?_) h
      rcases List.mem_append.mp hc with hc | hc
      · exact clean_pieces (ht.links _ _ hentry) c hc
      · exact (List.forall_mem_cons.mp hcomps).2 c hc

theorem resolve?_stands (ht : t.Sound) {r : Resolved} (h : t.resolve? path = some r) :
    Stands t r.path r.entry := by
  unfold resolve? at h
  split at h
  next => cases h
  next hpath =>
    have hclean : ∀ c ∈ Path.pieces path.toList, Clean c := by
      apply clean_pieces
      intro d hd hzero
      have hany : path.toList.any (·.toNat == 0) = true :=
        List.any_eq_true.mpr ⟨d, hd, beq_iff_eq.mpr hzero⟩
      exact hpath (by rw [hany, Bool.or_true])
    have hstart : LeadsDown t (t.startOf path) := by
      unfold startOf
      split
      · exact .root
      · exact ht.start
    unfold walk at h
    split at h
    next p e hlocate =>
      obtain rfl := Option.some.inj h
      exact locate_stands ht hstart hclean hlocate
    next => cases h

/-! ## Resolving once more -/

theorem locate_of_empty (links : Nat) (dir : RealPath) (rest : List (List Char)) :
    t.locate links dir ([] :: rest) = t.locate links dir rest := by
  rw [locate]
  exact if_pos rfl

theorem locate_of_directory (hc : IsStep c) (hentry : t.entry? (dir ++ [c]) = some .directory)
    (links : Nat) (rest : List (List Char)) :
    t.locate links dir (c :: rest) = t.locate links (dir ++ [c]) rest := by
  rw [locate, if_neg (by simp [hc.nonempty, hc.isNoDot]), if_neg hc.notUpwards]
  simp only [hentry]

theorem locate_of_file {bytes : List UInt8} (hc : IsStep c)
    (hentry : t.entry? (dir ++ [c]) = some (.file bytes)) (links : Nat) :
    t.locate links dir [c] = some (dir ++ [c], some (.file bytes)) := by
  rw [locate, if_neg (by simp [hc.nonempty, hc.isNoDot]), if_neg hc.notUpwards]
  simp only [hentry]
  rfl

theorem locate_of_free (hc : IsStep c) (hentry : t.entry? (dir ++ [c]) = none) (links : Nat) :
    t.locate links dir [c] = some (dir ++ [c], none) := by
  rw [locate, if_neg (by simp [hc.nonempty, hc.isNoDot]), if_neg hc.notUpwards]
  simp only [hentry]
  rfl

/-- A walk along a real path to a directory comes to that directory. -/
theorem LeadsDown.locate_append (h : LeadsDown t p) (links : Nat) (rest : List (List Char)) :
    t.locate links [] (p ++ rest) = t.locate links p rest := by
  induction h generalizing rest with
  | root => rfl
  | enter _ hc hentry ih =>
      rw [List.append_assoc, List.singleton_append, ih, locate_of_directory hc hentry]

theorem Stands.locate_eq (h : Stands t p e) (links : Nat) :
    t.locate links [] p = some (p, some e) := by
  cases h with
  | directory hp =>
      have hrest := hp.locate_append links []
      rwa [List.append_nil, locate] at hrest
  | file hp hc hentry => rw [hp.locate_append, locate_of_file hc hentry]

theorem LeadsDown.isStep (h : LeadsDown t p) : ∀ c ∈ p, IsStep c := by
  induction h with
  | root => exact nofun
  | enter _ hc _ ih =>
      exact List.forall_mem_append.mpr ⟨ih, List.forall_mem_singleton.mpr hc⟩

theorem Stands.isStep (h : Stands t p e) : ∀ c ∈ p, IsStep c := by
  cases h with
  | directory hp => exact hp.isStep
  | file hp hc _ =>
      exact List.forall_mem_append.mpr ⟨hp.isStep, List.forall_mem_singleton.mpr hc⟩

/-- The text of a real path is walked along from the root. -/
theorem resolve?_text_eq (h : ∀ c ∈ p, IsStep c) : t.resolve? (RealPath.text p) = t.walk [] p := by
  obtain ⟨rest, htext, hrest⟩ := RealPath.exists_toList_text p
  have hstart : t.startOf (RealPath.text p) = [] := by
    rw [startOf, if_pos]
    simp [Path.isAbsolute, htext]
  have hpassable : ¬((RealPath.text p).isEmpty || (RealPath.text p).toList.any (·.toNat == 0)) := by
    have hnonempty : (RealPath.text p).isEmpty = false := by
      rw [← Bool.not_eq_true, String.isEmpty_iff, ← String.toList_eq_nil_iff, htext]
      exact List.cons_ne_nil _ _
    have hnozero : (RealPath.text p).toList.any (·.toNat == 0) = false := by
      rw [htext, List.any_eq_false]
      intro d hd
      rw [beq_iff_eq]
      rcases List.mem_cons.mp hd with rfl | hd
      · decide
      · rcases hrest d hd with rfl | ⟨c, hc, hd⟩
        · decide
        · exact (h c hc).noZero d hd
    simp [hnonempty, hnozero]
  have hlocate : t.locate maxLinks [] (Path.pieces (RealPath.text p).toList) =
      t.locate maxLinks [] p := by
    by_cases hne : p = []
    · subst hne
      have hpieces : Path.pieces (RealPath.text []).toList = [[], []] := by decide
      rw [hpieces, locate_of_empty, locate_of_empty]
    · have hpieces : Path.pieces (p.flatMap ('/' :: ·)) = [] :: p :=
        Path.pieces_steps (c := []) List.not_mem_nil fun c hc => (h c hc).slashless
      rw [RealPath.toList_text hne, hpieces, locate_of_empty]
  rw [resolve?, if_neg hpassable, walk, walk, hstart, hlocate]

/-- A real path resolves to itself. -/
theorem Stands.resolve?_text (h : Stands t p e) : t.resolve? (RealPath.text p) = some ⟨p, e⟩ := by
  rw [resolve?_text_eq h.isStep, walk, h.locate_eq]

/-- A name that a directory does not have leads nowhere. -/
theorem LeadsDown.resolve?_free (h : LeadsDown t p) (hc : IsStep c)
    (hentry : t.entry? (p ++ [c]) = none) : t.resolve? (RealPath.text (p ++ [c])) = none := by
  have hsteps : ∀ d ∈ p ++ [c], IsStep d :=
    List.forall_mem_append.mpr ⟨h.isStep, List.forall_mem_singleton.mpr hc⟩
  rw [resolve?_text_eq hsteps, walk, h.locate_append, locate_of_free hc hentry]

/-- The real path of a path is its own real path. -/
theorem Sound.realPath?_idem (ht : t.Sound) (h : t.realPath? path = some real) :
    t.realPath? real = some real := by
  obtain ⟨r, hr, rfl⟩ := Option.map_eq_some_iff.mp h
  rw [realPath?, (resolve?_stands ht hr).resolve?_text]
  rfl

/-! ## Files under their real paths -/

/-- Real paths can be trusted: that of a path which leads to something is its own real path, and
leads to the same content. -/
structure RealPathsFaithful (t : FileTree) : Prop where
  idempotent : ∀ path real, t.existingPath? path = some real → t.realPath? real = some real
  contents : ∀ path real, t.existingPath? path = some real → t.content? real = t.content? path

theorem resolve?_of_lookUp? {r : Resolved} (h : t.lookUp? path = some r) :
    t.resolve? path = some r := by
  unfold lookUp? at h
  split at h
  next => exact h
  next => cases h

/-- What exists has a real path. -/
theorem existingPath?_of_lookUp? {r : Resolved} (h : t.lookUp? path = some r) :
    t.existingPath? path = some (RealPath.text r.path) := by
  have hexists : t.pathExists path = true := by rw [pathExists, h, Option.isSome_some]
  rw [existingPath?, if_pos hexists, realPath?, resolve?_of_lookUp? h]
  rfl

theorem realPath?_of_existingPath? (h : t.existingPath? path = some real) :
    t.realPath? path = some real := by
  unfold existingPath? at h
  split at h
  next => exact h
  next => cases h

theorem exists_lookUp?_of_existingPath? (h : t.existingPath? path = some real) :
    ∃ r, t.lookUp? path = some r ∧ RealPath.text r.path = real := by
  have hexists : t.pathExists path = true := by
    unfold existingPath? at h
    split at h
    next hexists => exact hexists
    next => cases h
  obtain ⟨r, hr⟩ := Option.isSome_iff_exists.mp hexists
  have hreal := existingPath?_of_lookUp? hr
  rw [h] at hreal
  exact ⟨r, hr, (Option.some.inj hreal).symm⟩

theorem Stands.entry?_eq (h : Stands t p e) : t.entry? p = some e := by
  cases h with
  | directory hp =>
      cases hp with
      | root => rfl
      | enter _ _ hentry => exact hentry
  | file _ _ hentry => exact hentry

theorem Stands.lookUp?_text (h : Stands t p e)
    (hshort : (RealPath.text p).utf8ByteSize < pathLimit) :
    t.lookUp? (RealPath.text p) = some ⟨p, e⟩ := by
  rw [lookUp?, if_pos hshort, h.resolve?_text]

/-- In a sound tree where no real path is too long to be looked up, real paths can be trusted. -/
theorem Sound.realPathsFaithful (ht : t.Sound)
    (hshort : ∀ p e, t.entry? p = some e → (RealPath.text p).utf8ByteSize < pathLimit) :
    t.RealPathsFaithful where
  idempotent path real h := ht.realPath?_idem (realPath?_of_existingPath? h)
  contents path real h := by
    obtain ⟨r, hr, rfl⟩ := exists_lookUp?_of_existingPath? h
    have hstands := resolve?_stands ht (resolve?_of_lookUp? hr)
    rw [content?, content?, hr, hstands.lookUp?_text (hshort r.path r.entry hstands.entry?_eq)]

theorem mem_of_entry? (h : t.entry? p = some e) : p = [] ∨ (p, e) ∈ t.entries := by
  unfold entry? at h
  split at h
  next hroot => exact .inl (List.isEmpty_iff.mp hroot)
  next =>
    obtain ⟨before, behind, hentries, -⟩ := List.lookup_eq_some_iff.mp h
    exact .inr (hentries ▸ List.mem_append_right _ List.mem_cons_self)

/-- A tree without links that is worked in from the root and whose entries have short real paths. -/
theorem realPathsFaithful_of_entries (hstart : t.workingDirectory = [])
    (hlinks : ∀ entry ∈ t.entries, ∀ target, entry.2 ≠ .link target)
    (hshort : ∀ entry ∈ t.entries, (RealPath.text entry.1).utf8ByteSize < pathLimit) :
    t.RealPathsFaithful := by
  have hsound : t.Sound := by
    refine ⟨hstart ▸ .root, fun p target hentry => ?_⟩
    rcases mem_of_entry? hentry with rfl | hmem
    · cases hentry
    · exact absurd rfl (hlinks _ hmem target)
  refine hsound.realPathsFaithful fun p e hentry => ?_
  rcases mem_of_entry? hentry with rfl | hmem
  · decide
  · exact hshort _ hmem

/-! ## Trees that are built -/

theorem entry?_put (t : FileTree) (p q : RealPath) (e : FileEntry) (hp : p ≠ []) :
    FileTree.entry? (t.put p e) q = if q = p then some e else t.entry? q := by
  have hlookup (entries : List (RealPath × FileEntry)) (hq : q ≠ p) :
      (entries.filter fun other => other.1 != p).lookup q = entries.lookup q := by
    induction entries with
    | nil => rfl
    | cons entry entries ih =>
        by_cases hentry : entry.1 = p
        · have hne : (q == entry.1) = false := beq_false_of_ne (hentry ▸ hq)
          rw [List.filter_cons_of_neg (by simp [hentry]), ih, List.lookup_cons, hne]
        · rw [List.filter_cons_of_pos (by simpa using hentry), List.lookup_cons, List.lookup_cons,
            ih]
  by_cases hq : q = p
  · subst hq
    simp [ entry?, put, hp]
  · have hne : (q == p) = false := beq_false_of_ne hq
    simp only [ entry?, put, List.lookup_cons, hne, hlookup t.entries hq, if_neg hq]

theorem LeadsDown.put (h : LeadsDown t p) {q : RealPath} (hq : q ≠ [])
    (hfree : t.entry? q ≠ some .directory) (e : FileEntry) : LeadsDown (t.put q e) p := by
  induction h with
  | root => exact .root
  | @enter p c _ hc hentry ih =>
      refine .enter ih hc ?_
      rw [entry?_put t q _ e hq, if_neg, hentry]
      rintro rfl
      exact hfree hentry

/-- What is put where no directory stands leaves a tree sound. -/
theorem Sound.put (ht : t.Sound) {q : RealPath} (hq : q ≠ [])
    (hfree : t.entry? q ≠ some .directory)
    (he : ∀ target, e = .link target → ∀ d ∈ target, d.toNat ≠ 0) : (t.put q e).Sound where
  start := ht.start.put hq hfree e
  links p target hentry := by
    rw [entry?_put t q p e hq] at hentry
    split at hentry
    next => exact he target (Option.some.inj hentry)
    next => exact ht.links p target hentry

/-- A walk that does not come to a directory tells what stands at its end. -/
theorem locate_entry {links : Nat} {found : Option FileEntry}
    (h : t.locate links dir comps = some (p, found)) (hfound : found ≠ some .directory) :
    p ≠ [] ∧ t.entry? p = found := by
  fun_induction locate t links dir comps with
  | case1 =>
      simp only [Option.some.injEq, Prod.mk.injEq] at h
      exact absurd h.2.symm hfound
  | case2 _ _ _ _ _ ih => exact ih h
  | case3 _ _ _ _ ih => exact ih h
  | case4 _ _ _ _ _ _ _ hentry | case7 _ _ _ _ _ _ _ _ hentry =>
      simp only [Option.some.injEq, Prod.mk.injEq] at h
      obtain ⟨rfl, rfl⟩ := h
      exact ⟨List.concat_ne_nil _ _, hentry⟩
  | case5 => cases h
  | case6 _ _ _ _ _ _ _ _ ih => exact ih h
  | case8 => cases h
  | case9 => cases h
  | case10 _ _ _ _ _ _ _ _ _ _ ih => exact ih h

theorem freePlace?_free (h : t.freePlace? dir comps = some p) : p ≠ [] ∧ t.entry? p = none := by
  unfold freePlace? at h
  obtain ⟨name, -, h⟩ := Option.bind_eq_some_iff.mp h
  obtain ⟨outer, -, h⟩ := Option.bind_eq_some_iff.mp h
  dsimp only at h
  split at h
  next hfree =>
    obtain rfl := Option.some.inj h
    exact ⟨List.concat_ne_nil _ _, Option.isNone_iff_eq_none.mp hfree.2.2⟩
  next => cases h

theorem Sound.enterAll (ht : t.Sound) (dir : RealPath) (comps : List (List Char)) :
    (t.enterAll dir comps).Sound := by
  induction comps generalizing t with
  | nil => exact ht
  | cons name outer ih =>
      rw [FileTree.enterAll]
      dsimp only
      split
      next => exact ht
      next =>
        split
        next place hplace =>
          obtain ⟨hne, hfree⟩ := freePlace?_free hplace
          exact (ih ht).put hne (by simp [hfree]) nofun
        next => exact ih ht

theorem Sound.addDirectory (ht : t.Sound) (path : String) : (t.addDirectory path).Sound := by
  unfold FileTree.addDirectory
  split
  next => exact ht.enterAll _ _
  next => exact ht

theorem Sound.addFile (ht : t.Sound) (path : String) (bytes : List UInt8) :
    (t.addFile path bytes).Sound := by
  unfold FileTree.addFile
  split
  next place hlocate =>
    obtain ⟨hne, hfree⟩ := locate_entry hlocate nofun
    split
    · exact ht.put hne (by simp [hfree]) nofun
    · exact ht
  next place _ hlocate =>
    obtain ⟨hne, hfile⟩ := locate_entry hlocate (by simp)
    exact ht.put hne (by simp [hfile]) nofun
  next => exact ht

theorem Sound.addLink (ht : t.Sound) (path : String) (target : List Char) :
    (t.addLink path target).Sound := by
  unfold FileTree.addLink
  split
  next place hplace =>
    split
    next => exact ht
    next htarget =>
      obtain ⟨hne, hfree⟩ := freePlace?_free hplace
      refine ht.put hne (by simp [hfree]) fun target' heq d hd => ?_
      obtain rfl := FileEntry.link.inj heq
      have hpassable : isPassable (String.ofList target) = true := by
        cases hpassable : isPassable (String.ofList target) with
        | true => rfl
        | false => exact absurd (by rw [hpassable, Bool.not_false, Bool.or_true]) htarget
      have hall := (Bool.and_eq_true_iff.mp hpassable).2
      rw [String.toList_ofList] at hall
      exact bne_iff_ne.mp (List.all_eq_true.mp hall d hd)
  next => exact ht

/-- Adding to a sound tree leaves it sound. -/
theorem Sound.add (ht : t.Sound) (path : String) (e : FileEntry) : (t.add path e).Sound := by
  unfold FileTree.add
  dsimp only
  have hdir := ht.addDirectory (Path.parent path)
  split
  next =>
    cases e with
    | file bytes => exact hdir.addFile path bytes
    | directory => exact hdir.addDirectory path
    | link target => exact hdir.addLink path target
  next => exact hdir

theorem Sound.addAll (ht : t.Sound) (entries : List (String × FileEntry)) :
    (entries.foldl (fun t entry => t.add entry.1 entry.2) t).Sound := by
  induction entries generalizing t with
  | nil => exact ht
  | cons entry entries ih => exact ih (ht.add entry.1 entry.2)

theorem Sound.empty : FileTree.empty.Sound where
  start := .root
  links p target hentry := by
    rcases mem_of_entry? hentry with rfl | hmem
    · cases hentry
    · exact absurd hmem List.not_mem_nil

/-- Real paths can be trusted in every tree that is built from entries, whatever fails meanwhile,
unless one is too long to be looked up. -/
theorem realPathsFaithful_of_built {entries : List (String × FileEntry)}
    (ht : entries.foldl (fun t entry => t.add entry.1 entry.2) FileTree.empty = t)
    (hshort : ∀ p e, t.entry? p = some e → (RealPath.text p).utf8ByteSize < pathLimit) :
    t.RealPathsFaithful :=
  (ht ▸ Sound.empty.addAll entries).realPathsFaithful hshort

end FileTree

end CppReflect
