import CppReflect.Library.Manager
import Mathlib.Data.String.Basic

/-!
# The stem that a library is looked for once more

A library that is not found under its stem is looked for with `lib` in front of the last component.
Where `lib` goes is counted in bytes from the length of that component, so it comes out right for
a stem that ends in its last component, whatever characters it is made of. A stem that goes on
behind it, by slashes and single dots, gets `lib` that many bytes too late, which may be inside a
character.
-/

namespace CppReflect

/-! ## Pieces of a concatenation -/

namespace Text

variable {α : Type} {p : α → Bool}

theorem splitAtAll_ne_nil (p : α → Bool) (cs : List α) : splitAtAll p cs ≠ [] := by
  cases cs with
  | nil => simp [splitAtAll]
  | cons c cs =>
      unfold splitAtAll
      split
      · exact List.cons_ne_nil _ _
      · split <;> exact List.cons_ne_nil _ _

/-- A separator ends the piece in front of it. -/
theorem splitAtAll_append {c : α} (hc : p c = true) (as bs : List α) :
    splitAtAll p (as ++ c :: bs) = splitAtAll p as ++ splitAtAll p bs := by
  induction as with
  | nil => simp [splitAtAll, hc]
  | cons a as ih =>
      by_cases ha : p a = true
      · simp [splitAtAll, ha, ih]
      · cases hpieces : splitAtAll p as with
        | nil => exact absurd hpieces (splitAtAll_ne_nil p as)
        | cons piece pieces => simp [splitAtAll, ha, ih, hpieces]

theorem splitAtAll_of_none {cs : List α} (h : ∀ c ∈ cs, p c = false) : splitAtAll p cs = [cs] := by
  induction cs with
  | nil => rfl
  | cons c cs ih =>
      have hc : p c = false := h c List.mem_cons_self
      have hcs : splitAtAll p cs = [cs] := ih fun d hd => h d (List.mem_cons_of_mem c hd)
      simp [splitAtAll, hc, hcs]

end Text

/-! ## The last component -/

namespace Path

variable {path dir name rest : List Char}

theorem pieces_append_slash (before behind : List Char) :
    pieces (before ++ '/' :: behind) = pieces before ++ pieces behind :=
  Text.splitAtAll_append (by decide) before behind

theorem pieces_of_slashless {c : List Char} (h : '/' ∉ c) : pieces c = [c] := by
  apply Text.splitAtAll_of_none
  intro d hd
  have hne : d ≠ '/' := by
    intro heq
    exact h (heq ▸ hd)
  simpa using hne

theorem components_append_slash (before behind : List Char) :
    components (before ++ '/' :: behind) = components before ++ components behind := by
  unfold components
  rw [pieces_append_slash, List.filter_append]

/-- The text can be a component of a path. -/
structure IsComponent (c : List Char) : Prop where
  nonempty : c ≠ []
  isNoDot : c ≠ ['.']
  slashless : '/' ∉ c

theorem components_of_slashless {c : List Char} (h : '/' ∉ c) :
    components c = if c = [] ∨ c = ['.'] then [] else [c] := by
  unfold components
  rw [pieces_of_slashless h]
  by_cases hempty : c = []
  · simp [hempty]
  · by_cases hdot : c = ['.']
    · simp [hdot]
    · simp [hempty, hdot]

theorem IsComponent.components_eq (h : IsComponent name) : components name = [name] := by
  rw [components_of_slashless h.slashless, if_neg (not_or.mpr ⟨h.nonempty, h.isNoDot⟩)]

/-- A path around its last component: behind it are slashes and single dots only. -/
structure EndsIn (path dir name rest : List Char) : Prop where
  whole : path = dir ++ (name ++ rest)
  component : IsComponent name
  dirEnds : dir = [] ∨ ∃ before, dir = before ++ ['/']
  restStarts : rest = [] ∨ ∃ behind, rest = '/' :: behind
  restIdle : components rest = []

theorem EndsIn.components_eq (h : EndsIn path dir name rest) :
    components path = components dir ++ [name] := by
  have hname : components (name ++ rest) = [name] := by
    rcases h.restStarts with hrest | ⟨behind, hrest⟩
    · rw [hrest, List.append_nil, h.component.components_eq]
    · have hbehind : components behind = [] := by
        have hslash := components_append_slash [] behind
        rw [List.nil_append, ← hrest, h.restIdle] at hslash
        exact (List.append_eq_nil_iff.mp hslash.symm).2
      rw [hrest, components_append_slash, h.component.components_eq, hbehind, List.append_nil]
  rw [h.whole]
  rcases h.dirEnds with hdir | ⟨before, hdir⟩
  · rw [hdir, List.nil_append, hname]
    rfl
  · have hdirComponents : components (before ++ ['/']) = components before := by
      rw [components_append_slash before []]
      exact List.append_nil _
    rw [hdir, hdirComponents, List.append_assoc, List.singleton_append, components_append_slash,
      hname]

/-- A path in front of another one that has a last component. -/
theorem EndsIn.behind (h : EndsIn path dir name rest) (before : List Char) :
    EndsIn (before ++ '/' :: path) (before ++ '/' :: dir) name rest where
  whole := by rw [h.whole, List.append_assoc, List.cons_append]
  component := h.component
  dirEnds := by
    apply Or.inr
    rcases h.dirEnds with hdir | ⟨start, hdir⟩
    · exact ⟨before, by rw [hdir]⟩
    · exact ⟨before ++ '/' :: start, by rw [hdir, List.append_assoc, List.cons_append]⟩
  restStarts := h.restStarts
  restIdle := h.restIdle

/-- A path goes on without a component. -/
theorem EndsIn.goesOn (h : EndsIn path dir name rest) {behind : List Char}
    (hbehind : components behind = []) :
    EndsIn (path ++ '/' :: behind) dir name (rest ++ '/' :: behind) where
  whole := by rw [h.whole, List.append_assoc, List.append_assoc]
  component := h.component
  dirEnds := h.dirEnds
  restStarts := by
    apply Or.inr
    rcases h.restStarts with hrest | ⟨start, hrest⟩
    · exact ⟨behind, by rw [hrest, List.nil_append]⟩
    · exact ⟨start ++ '/' :: behind, by rw [hrest, List.cons_append]⟩
  restIdle := by rw [components_append_slash, h.restIdle, hbehind, List.append_nil]

/-- A path with a component has a last one. -/
theorem exists_endsIn (path : List Char) (hne : components path ≠ []) :
    ∃ dir name rest, EndsIn path dir name rest := by
  -- The induction is on the length, since a path is taken apart at any of its slashes.
  induction hlength : path.length using Nat.strongRecOn generalizing path with
  | ind n ih =>
      by_cases hslash : '/' ∈ path
      · obtain ⟨before, behind, rfl⟩ := List.append_of_mem hslash
        rw [List.length_append, List.length_cons] at hlength
        rw [components_append_slash] at hne
        by_cases hbehind : components behind = []
        · have hbefore : components before ≠ [] := by
            intro hnil
            exact hne (by rw [hnil, hbehind, List.append_nil])
          obtain ⟨dir, name, rest, h⟩ := ih before.length (by omega) before hbefore rfl
          exact ⟨dir, name, rest ++ '/' :: behind, h.goesOn hbehind⟩
        · obtain ⟨dir, name, rest, h⟩ := ih behind.length (by omega) behind hbehind rfl
          exact ⟨before ++ '/' :: dir, name, rest, h.behind before⟩
      · have hcounts : ¬(path = [] ∨ path = ['.']) := by
          intro hidle
          exact hne (by rw [components_of_slashless hslash, if_pos hidle])
        have hcomponent : IsComponent path :=
          ⟨fun h => hcounts (.inl h), fun h => hcounts (.inr h), hslash⟩
        exact ⟨[], path, [], by simp, hcomponent, .inl rfl, .inl rfl, rfl⟩

/-- The file name of a path is its last component, unless that leads upwards. -/
theorem EndsIn.fileName?_eq {stem : String} (h : EndsIn stem.toList dir name rest) :
    fileName? stem = if name = ['.', '.'] then none else some (String.ofList name) := by
  unfold fileName?
  rw [h.components_eq, List.getLast?_append, List.getLast?_singleton]
  rfl

/-- A path with a file name ends in it, up to slashes and single dots. -/
theorem exists_endsIn_of_fileName? {stem file : String} (h : fileName? stem = some file) :
    ∃ dir rest, EndsIn stem.toList dir file.toList rest := by
  have hne : components stem.toList ≠ [] := by
    intro hnil
    unfold fileName? at h
    rw [hnil] at h
    exact absurd h (by simp)
  obtain ⟨dir, name, rest, hends⟩ := exists_endsIn stem.toList hne
  rw [hends.fileName?_eq] at h
  split at h
  · exact absurd h (by simp)
  · have hfile : String.ofList name = file := Option.some.inj h
    rw [← hfile, String.toList_ofList]
    exact ⟨dir, rest, hends⟩

end Path

/-! ## Splitting behind a number of bytes -/

namespace LibraryManager

open String (utf8Len)

theorem splitAtByte?_zero (cs : List Char) : splitAtByte? 0 cs = some ([], cs) := by
  rw [splitAtByte?]

theorem splitAtByte?_cons (n : Nat) (c : Char) (cs : List Char) :
    splitAtByte? (c.utf8Size + n) (c :: cs) =
      (splitAtByte? n cs).map fun split => (c :: split.1, split.2) := by
  obtain ⟨k, hk⟩ := Nat.exists_eq_succ_of_ne_zero (Nat.ne_of_gt c.utf8Size_pos)
  have hsize : c.utf8Size + n = k + n + 1 := by omega
  rw [hsize, splitAtByte?, if_pos (by omega), show k + n + 1 - c.utf8Size = n by omega]

/-- What stands in front of the place is kept whole. -/
theorem splitAtByte?_append (before cs : List Char) (n : Nat) :
    splitAtByte? (utf8Len before + n) (before ++ cs) =
      (splitAtByte? n cs).map fun split => (before ++ split.1, split.2) := by
  induction before generalizing n with
  | nil => simp
  | cons c before ih =>
      have hsize : utf8Len (c :: before) + n = c.utf8Size + (utf8Len before + n) := by
        rw [String.utf8Len_cons]
        omega
      rw [hsize, List.cons_append, splitAtByte?_cons, ih, Option.map_map]
      rfl

/-- A text is split between two characters. -/
theorem splitAtByte?_eq_some {n : Nat} {cs before behind : List Char} :
    splitAtByte? n cs = some (before, behind) ↔ cs = before ++ behind ∧ utf8Len before = n := by
  constructor
  · intro h
    induction cs generalizing n before with
    | nil =>
        cases n with
        | zero =>
            rw [splitAtByte?_zero] at h
            cases h
            exact ⟨rfl, rfl⟩
        | succ n => exact absurd h (by simp [splitAtByte?])
    | cons c cs ih =>
        cases n with
        | zero =>
            rw [splitAtByte?_zero] at h
            cases h
            exact ⟨rfl, rfl⟩
        | succ n =>
            rw [splitAtByte?] at h
            split at h
            · next hle =>
                obtain ⟨⟨start, stop⟩, hsplit, heq⟩ := Option.map_eq_some_iff.mp h
                cases heq
                obtain ⟨hcs, hsize⟩ := ih hsplit
                rw [hcs, String.utf8Len_cons, hsize]
                exact ⟨rfl, by omega⟩
            · exact absurd h (by simp)
  · intro h
    obtain ⟨rfl, rfl⟩ := h
    have hsplit := splitAtByte?_append before behind 0
    rw [Nat.add_zero, splitAtByte?_zero] at hsplit
    simpa using hsplit

/-! ## The stem with `lib` in it -/

variable {stem file : String} {dir rest : List Char}

/-- The place for `lib` is counted from the end of the stem, as many bytes as the file name has. -/
theorem prefixedStem?_of_fileName? (hfile : Path.fileName? stem = some file)
    (hplain : Text.startsWith "lib" file = false)
    (hwhole : stem.toList = dir ++ (file.toList ++ rest)) :
    prefixedStem? stem =
      match splitAtByte? (utf8Len rest) (file.toList ++ rest) with
      | some (before, behind) =>
          .ok (some (String.ofList (dir ++ before ++ ['l', 'i', 'b'] ++ behind)))
      | none => .error (.splitInsideCharacter stem) := by
  have hplace : stem.utf8ByteSize - file.utf8ByteSize = utf8Len dir + utf8Len rest := by
    rw [← String.utf8Len_toList stem, ← String.utf8Len_toList file, hwhole, String.utf8Len_append,
      String.utf8Len_append]
    omega
  have hsplit : splitAtByte? (stem.utf8ByteSize - file.utf8ByteSize) stem.toList =
      (splitAtByte? (utf8Len rest) (file.toList ++ rest)).map
        fun split => (dir ++ split.1, split.2) := by
    rw [hplace, hwhole, splitAtByte?_append]
  unfold prefixedStem?
  simp only [hfile, Option.getD_some]
  rw [if_neg (by simp [hplain]), hsplit]
  cases splitAtByte? (utf8Len rest) (file.toList ++ rest) with
  | none => rfl
  | some split =>
      have hlib : "lib" = String.ofList ['l', 'i', 'b'] := rfl
      simp only [Option.map_some, hlib, ← String.ofList_append]

/-- The stem under which a library is looked for once more, if there is one. -/
structure Retries (stem : String) (retried : Except LoadError (Option String)) : Prop where
  /-- Without a file name, `lib` goes to the end. -/
  nameless : Path.fileName? stem = none → retried = .ok (some (stem ++ "lib"))
  /-- Behind the file name the stem has slashes and single dots at most. -/
  named : ∀ file, Path.fileName? stem = some file →
    ∃ dir rest, Path.EndsIn stem.toList dir file.toList rest
  /-- A file name that starts with `lib` gets no other one. -/
  library : ∀ file, Path.fileName? stem = some file → Text.startsWith "lib" file = true →
    retried = .ok none
  /-- Where the stem ends in its file name, `lib` goes in front of that. -/
  prefixed : ∀ file dir, Path.fileName? stem = some file → Text.startsWith "lib" file = false →
    stem = dir ++ file → retried = .ok (some (dir ++ "lib" ++ file))
  /-- Where the stem goes on, `lib` comes later by as many bytes as there are behind the name. -/
  late : ∀ file dir rest, Path.fileName? stem = some file → Text.startsWith "lib" file = false →
    Path.EndsIn stem.toList dir file.toList rest →
      ∀ before behind, file.toList ++ rest = before ++ behind → utf8Len before = utf8Len rest →
        retried = .ok (some (String.ofList (dir ++ before ++ ['l', 'i', 'b'] ++ behind)))
  /-- If that is inside a character, the search breaks off. -/
  inside : ∀ file dir rest, Path.fileName? stem = some file → Text.startsWith "lib" file = false →
    Path.EndsIn stem.toList dir file.toList rest →
      (∀ before behind, file.toList ++ rest = before ++ behind → utf8Len before ≠ utf8Len rest) →
        retried = .error (.splitInsideCharacter stem)

theorem prefixedStem?_retries (stem : String) : Retries stem (prefixedStem? stem) where
  nameless hnone := by
    have hall : splitAtByte? stem.utf8ByteSize stem.toList = some (stem.toList, []) := by
      rw [splitAtByte?_eq_some, List.append_nil]
      exact ⟨rfl, String.utf8Len_toList stem⟩
    have hlib : Text.startsWith "lib" "" = false := by decide
    unfold prefixedStem?
    simp only [hnone, Option.getD_none, String.utf8ByteSize_empty, Nat.sub_zero]
    rw [if_neg (by simp [hlib]), hall]
    simp
  named file hfile := Path.exists_endsIn_of_fileName? hfile
  library file hfile hlib := by
    unfold prefixedStem?
    simp only [hfile, Option.getD_some]
    rw [if_pos hlib]
  prefixed file dir hfile hplain hstem := by
    have hwhole : stem.toList = dir.toList ++ (file.toList ++ []) := by
      rw [hstem, String.toList_append, List.append_nil]
    have htext : String.ofList (dir.toList ++ [] ++ ['l', 'i', 'b'] ++ (file.toList ++ [])) =
        dir ++ "lib" ++ file := by
      apply String.toList_inj.mp
      simp
    rw [prefixedStem?_of_fileName? hfile hplain hwhole, String.utf8Len_nil, splitAtByte?_zero]
    exact congrArg (fun text => Except.ok (some text)) htext
  late file dir rest hfile hplain hends before behind hsplit hsize := by
    rw [prefixedStem?_of_fileName? hfile hplain hends.whole,
      splitAtByte?_eq_some.mpr ⟨hsplit, hsize⟩]
  inside file dir rest hfile hplain hends hinside := by
    rw [prefixedStem?_of_fileName? hfile hplain hends.whole]
    cases hsplit : splitAtByte? (utf8Len rest) (file.toList ++ rest) with
    | none => rfl
    | some split =>
        obtain ⟨happend, hsize⟩ := splitAtByte?_eq_some.mp hsplit
        exact absurd hsize (hinside split.1 split.2 happend)

/-! ## Looking up -/

/-- What a look-up answers that does not come to another stem. -/
def settled? (l : LibraryManager) (m : Machine) (c : LookupContext) (stem : String) :
    Option (Option String) :=
  if Path.isAbsolute stem then
    some (if m.isSharedLibrary l.flavor stem then m.files.realPath? stem else none)
  else
    ((l.directCandidates m c stem).find? (m.isSharedLibrary l.flavor) <|>
      l.findWithExtension? m c stem).map m.files.realPath?

/-- A look-up with variants comes to one more stem at most. -/
theorem lookup_eq (l : LibraryManager) (m : Machine) (c : LookupContext) (stem : String) :
    l.lookup m c stem true =
      (l.settled? m c stem).elim
        ((prefixedStem? stem).map fun variant =>
          (variant.bind (l.findWithExtension? m c)).bind m.files.realPath?)
        .ok := by
  unfold lookup settled? findVariant?
  by_cases habsolute : Path.isAbsolute stem = true
  · rw [if_pos habsolute, if_pos habsolute]
    rfl
  · rw [if_neg habsolute, if_neg habsolute]
    cases (l.directCandidates m c stem).find? (m.isSharedLibrary l.flavor) with
    | some candidate => rfl
    | none =>
        cases l.findWithExtension? m c stem with
        | some path => rfl
        | none => cases prefixedStem? stem <;> rfl

/-- A look-up that does not find a library under its stem looks for one more, which has `lib` in
front of the file name of the stem wherever the stem ends in that. -/
theorem lookup_retries (l : LibraryManager) (m : Machine) (c : LookupContext) (stem : String) :
    ∃ retried, Retries stem retried ∧
      l.lookup m c stem true =
        (l.settled? m c stem).elim
          (retried.map fun variant =>
            (variant.bind (l.findWithExtension? m c)).bind m.files.realPath?)
          .ok :=
  ⟨prefixedStem? stem, prefixedStem?_retries stem, l.lookup_eq m c stem⟩

/-- Only a stem that goes on behind its file name can make a look-up break off. -/
theorem lookup_error {l : LibraryManager} {m : Machine} {c : LookupContext} {e : LoadError}
    (h : l.lookup m c stem true = .error e) :
    ∃ file dir rest, Path.fileName? stem = some file ∧
      Path.EndsIn stem.toList dir file.toList rest ∧ rest ≠ [] := by
  have hretried : ∃ e', prefixedStem? stem = .error e' := by
    rw [l.lookup_eq m c stem] at h
    cases hsettled : l.settled? m c stem with
    | some answer => simp [hsettled] at h
    | none =>
        cases hprefixed : prefixedStem? stem with
        | ok variant => simp [hsettled, hprefixed, Except.map] at h
        | error e' => exact ⟨e', rfl⟩
  obtain ⟨e', he'⟩ := hretried
  have hretries := prefixedStem?_retries stem
  rw [he'] at hretries
  cases hfile : Path.fileName? stem with
  | none => exact absurd (hretries.nameless hfile) nofun
  | some file =>
      obtain ⟨dir, rest, hends⟩ := hretries.named file hfile
      refine ⟨file, dir, rest, rfl, hends, ?_⟩
      intro hrest
      cases hlib : Text.startsWith "lib" file with
      | true => exact absurd (hretries.library file hfile hlib) nofun
      | false =>
          have hstem : stem = String.ofList dir ++ file := by
            apply String.toList_inj.mp
            rw [hends.whole, hrest, String.toList_append, String.toList_ofList, List.append_nil]
          exact absurd (hretries.prefixed file _ hfile hlib hstem) nofun

end LibraryManager

end CppReflect
