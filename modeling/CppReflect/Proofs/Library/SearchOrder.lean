import CppReflect.Proofs.Library.RealPaths

/-!
# The order in which libraries are looked for

A look-up goes through candidates: the stem itself, and behind it every stem that the conventions of
the platform make of it, each in every directory. The candidates stand in one order, and the first
that is a shared library is found, under its real path.
-/

namespace CppReflect

namespace Machine

variable {m : Machine} {f : Flavor} {path real : String}

theorem isSharedLibrary_eq (m : Machine) (f : Flavor) (path : String) :
    m.isSharedLibrary f path = (m.header? path).any f.accepts := by
  unfold isSharedLibrary probe
  cases m.header? path <;> rfl

theorem isSharedLibrary_of_resolve?_none (h : m.files.resolve? path = none) :
    m.isSharedLibrary f path = false := by
  rw [isSharedLibrary_eq, header?, FileTree.content?, FileTree.lookUp?, h, ite_self]
  rfl

/-- Whether a file is a shared library is decided by its first bytes. -/
theorem isSharedLibrary_of_lookUp? {p : RealPath} {bytes : List UInt8}
    (h : m.files.lookUp? path = some ⟨p, .file bytes⟩) :
    m.isSharedLibrary f path = f.accepts (bytes.take FileMagic.probeLength) := by
  rw [isSharedLibrary_eq, header?, FileTree.content?, h]
  rfl

/-- A shared library exists. -/
theorem exists_existingPath? (h : m.isSharedLibrary f path = true) :
    ∃ real, m.files.existingPath? path = some real := by
  rw [isSharedLibrary_eq, header?, FileTree.content?] at h
  cases hr : m.files.lookUp? path with
  | none => simp [hr] at h
  | some r => exact ⟨_, FileTree.existingPath?_of_lookUp? hr⟩

/-- A shared library has a real path. -/
theorem exists_realPath? (h : m.isSharedLibrary f path = true) :
    ∃ real, m.files.realPath? path = some real := by
  obtain ⟨real, hreal⟩ := exists_existingPath? h
  exact ⟨real, FileTree.realPath?_of_existingPath? hreal⟩

/-- Under its real path a file is a shared library as under any other. -/
theorem isSharedLibrary_realPath (hfiles : m.files.RealPathsFaithful)
    (h : m.isSharedLibrary f path = true) (hreal : m.files.realPath? path = some real) :
    m.isSharedLibrary f real = true := by
  obtain ⟨real', hexisting⟩ := exists_existingPath? h
  have hsame := FileTree.realPath?_of_existingPath? hexisting
  rw [hreal] at hsame
  obtain rfl := Option.some.inj hsame
  rw [isSharedLibrary_eq, header?] at h ⊢
  rwa [hfiles.contents path real hexisting]

end Machine

namespace LibraryManager

variable {l : LibraryManager} {m : Machine} {c : LookupContext} {stem dir name : String}

/-! ## Candidates -/

/-- A stem, and behind it the stem with each of the extensions. -/
def withExtensions (l : LibraryManager) (stem : String) : List String :=
  stem :: l.flavor.extensions.map (stem ++ ·)

/-- The stems that a directory and a name in it stand for. With variants they are tried with each
extension, and then the same with `lib` in front of the name, unless it starts so. -/
def stems (l : LibraryManager) (dir name : String) (variants : Bool) : List String :=
  if variants then
    l.withExtensions (dir ++ name) ++
      if Text.startsWith "lib" name then [] else l.withExtensions (dir ++ "lib" ++ name)
  else [dir ++ name]

/-- A stem in every directory. -/
def placements (l : LibraryManager) (m : Machine) (c : LookupContext) (stem : String) :
    List String :=
  (l.directories m c).map (Path.join · stem)

/-- All candidates for a stem that ends in the given name, in the order in which they are tried. -/
def candidates (l : LibraryManager) (m : Machine) (c : LookupContext) (dir name : String)
    (variants : Bool) : List String :=
  l.substitute m (dir ++ name) c.loader ::
    (l.stems dir name variants).flatMap (l.placements m c)

/-- The first of some candidates that is a shared library. -/
def firstLibrary? (l : LibraryManager) (m : Machine) (candidates : List String) : Option String :=
  candidates.find? (m.isSharedLibrary l.flavor)

theorem firstLibrary?_append (l : LibraryManager) (m : Machine) (first second : List String) :
    l.firstLibrary? m (first ++ second) =
      (l.firstLibrary? m first).or (l.firstLibrary? m second) :=
  List.find?_append

/-- Trying one stem after the other is trying their candidates. -/
theorem findSome?_findInPaths? (l : LibraryManager) (m : Machine) (c : LookupContext)
    (stems : List String) :
    stems.findSome? (l.findInPaths? m c) =
      l.firstLibrary? m (stems.flatMap (l.placements m c)) :=
  List.find?_flatMap.symm

theorem findWithExtension?_eq (l : LibraryManager) (m : Machine) (c : LookupContext)
    (stem : String) : l.findWithExtension? m c stem =
      (l.firstLibrary? m ((l.withExtensions stem).flatMap (l.placements m c))).map
        fun path => (m.files.realPath? path).getD path := by
  rw [← findSome?_findInPaths?]
  rfl

theorem isSharedLibrary_of_first {candidates : List String} {path : String}
    (h : l.firstLibrary? m candidates = some path) : m.isSharedLibrary l.flavor path = true :=
  List.find?_some h

/-- Every library that is found has a real path. -/
theorem firstLibrary?_bind_eq_none_iff {candidates : List String} :
    (l.firstLibrary? m candidates).bind m.files.realPath? = none ↔
      ∀ candidate ∈ candidates, m.isSharedLibrary l.flavor candidate = false := by
  cases hfirst : l.firstLibrary? m candidates with
  | none =>
      have hnone := List.find?_eq_none.mp hfirst
      exact iff_of_true rfl fun candidate h => Bool.eq_false_of_not_eq_true (hnone candidate h)
  | some path =>
      have hshared := isSharedLibrary_of_first hfirst
      obtain ⟨real, hreal⟩ := Machine.exists_realPath? hshared
      refine iff_of_false (by simp [hreal]) fun hall => ?_
      rw [hall path (List.mem_of_find?_eq_some hfirst)] at hshared
      exact Bool.false_ne_true hshared

/-- Asking for the real path of a library twice is asking once. -/
theorem realPath?_getD_of_shared (hfiles : m.files.RealPathsFaithful) {path : String}
    (h : m.isSharedLibrary l.flavor path = true) :
    m.files.realPath? ((m.files.realPath? path).getD path) = m.files.realPath? path := by
  obtain ⟨real, hexisting⟩ := Machine.exists_existingPath? h
  rw [FileTree.realPath?_of_existingPath? hexisting, Option.getD_some,
    hfiles.idempotent path real hexisting]

theorem findWithExtension?_bind (hfiles : m.files.RealPathsFaithful) (c : LookupContext)
    (stem : String) : (l.findWithExtension? m c stem).bind m.files.realPath? =
      (l.firstLibrary? m ((l.withExtensions stem).flatMap (l.placements m c))).bind
        m.files.realPath? := by
  rw [findWithExtension?_eq]
  cases hfirst : l.firstLibrary? m ((l.withExtensions stem).flatMap (l.placements m c)) with
  | none => rfl
  | some path => exact realPath?_getD_of_shared hfiles (isSharedLibrary_of_first hfirst)

/-- In a stem that ends in its name, `lib` goes in front of that. -/
theorem prefixedStem?_of_name (hname : (Path.fileName? (dir ++ name)).getD "" = name) :
    prefixedStem? (dir ++ name) =
      .ok (if Text.startsWith "lib" name then none else some (dir ++ "lib" ++ name)) := by
  have hretries := prefixedStem?_retries (dir ++ name)
  cases hfile : Path.fileName? (dir ++ name) with
  | none =>
      rw [hfile, Option.getD_none] at hname
      subst hname
      rw [hretries.nameless hfile, String.append_empty, String.append_empty]
      rfl
  | some file =>
      rw [hfile, Option.getD_some] at hname
      subst hname
      cases hlib : Text.startsWith "lib" file with
      | true => rw [hretries.library file hfile hlib, if_pos rfl]
      | false => rw [hretries.prefixed file dir hfile hlib rfl, if_neg Bool.false_ne_true]

/-- The variants of a stem come to its candidates in all directories, those of the stem as it is
before those with `lib` in it. -/
theorem findVariant?_bind (hfiles : m.files.RealPathsFaithful)
    (hname : (Path.fileName? (dir ++ name)).getD "" = name) (c : LookupContext) :
    (l.findVariant? m c (dir ++ name)).map (·.bind m.files.realPath?) =
      .ok ((l.firstLibrary? m ((l.stems dir name true).flatMap (l.placements m c))).bind
        m.files.realPath?) := by
  have hplain := findWithExtension?_bind hfiles (l := l) c (dir ++ name)
  have hprefixed := findWithExtension?_bind hfiles (l := l) c (dir ++ "lib" ++ name)
  rw [findVariant?, prefixedStem?_of_name hname, stems, if_pos rfl, List.flatMap_append,
    firstLibrary?_append]
  rw [findWithExtension?_eq] at hplain ⊢
  cases hfirst :
    l.firstLibrary? m ((l.withExtensions (dir ++ name)).flatMap (l.placements m c)) with
  | some path =>
      rw [hfirst] at hplain
      exact congrArg Except.ok hplain
  | none =>
      cases hlib : Text.startsWith "lib" name with
      | true => rfl
      | false => exact congrArg Except.ok hprefixed

/-- A look-up answers with the real path of the first candidate that is a shared library. -/
theorem lookup_eq_first (hfiles : m.files.RealPathsFaithful)
    (hrelative : Path.isAbsolute (dir ++ name) = false)
    (hname : (Path.fileName? (dir ++ name)).getD "" = name)
    (htoken : ¬(l.flavor = .machO ∧ startsIgnoringCase "@rpath" (dir ++ name) = true))
    (c : LookupContext) (variants : Bool) :
    l.lookup m c (dir ++ name) variants =
      .ok ((l.firstLibrary? m (l.candidates m c dir name variants)).bind m.files.realPath?) := by
  rw [lookup, hrelative, if_neg Bool.false_ne_true, directCandidates, if_neg htoken, firstLibrary?,
    candidates, List.find?_cons, List.find?_cons, List.find?_nil]
  cases m.isSharedLibrary l.flavor (l.substitute m (dir ++ name) c.loader) with
  | true => rfl
  | false =>
      cases variants with
      | true => exact findVariant?_bind hfiles hname c
      | false =>
          rw [if_neg Bool.false_ne_true, stems, if_neg Bool.false_ne_true, List.flatMap_singleton]
          rfl

/-- The answer of a look-up for a relative stem that ends in its last component: the real path of
the first candidate that is a shared library, which is one itself, and no path if there is none. A
stem without a file name ends in the empty one. -/
theorem lookup_first (hfiles : m.files.RealPathsFaithful) (hstem : stem = dir ++ name)
    (hrelative : Path.isAbsolute stem = false) (hname : (Path.fileName? stem).getD "" = name)
    (htoken : ¬(l.flavor = .machO ∧ startsIgnoringCase "@rpath" stem = true))
    (c : LookupContext) (variants : Bool) :
    l.lookup m c stem variants =
        .ok ((l.firstLibrary? m (l.candidates m c dir name variants)).bind m.files.realPath?) ∧
      (l.lookup m c stem variants = .ok none ↔
        ∀ candidate ∈ l.candidates m c dir name variants,
          m.isSharedLibrary l.flavor candidate = false) ∧
      ∀ path, l.lookup m c stem variants = .ok (some path) →
        m.isSharedLibrary l.flavor path = true := by
  subst hstem
  have hlookup := lookup_eq_first hfiles hrelative hname htoken c variants
  refine ⟨hlookup, ?_, ?_⟩
  · rw [hlookup, Except.ok.injEq]
    exact firstLibrary?_bind_eq_none_iff
  · intro path hpath
    rw [hlookup] at hpath
    obtain ⟨found, hfound, hreal⟩ := Option.bind_eq_some_iff.mp (Except.ok.inj hpath)
    exact Machine.isSharedLibrary_realPath hfiles (isSharedLibrary_of_first hfound) hreal

/-- A stem is tried in both directories before its next variant is. -/
theorem lookup_first_variant :
    let header : List UInt8 := [0x7F, 0x45, 0x4C, 0x46, 2, 1, 1, 0, 0, 0, 0, 0, 0, 0, 0, 0, 3, 0]
    let files : FileTree := { entries := [
      (["d".toList], .directory), (["d".toList, "foo.so".toList], .file header),
      (["r".toList], .directory), (["r".toList, "libfoo.so".toList], .file header)] }
    let machine : Machine := { files }
    let manager : LibraryManager := { searchPaths := [⟨"/d", true⟩] }
    files.RealPathsFaithful ∧
      manager.lookup machine { rpath := ["/r"] } "foo" true = .ok (some "/d/foo.so") := by
  intro header files machine manager
  have hfaithful : files.RealPathsFaithful := by
    refine FileTree.realPathsFaithful_of_entries rfl ?_ (by decide +kernel)
    simp [files]
  have hd : files.LeadsDown ["d".toList] := .enter .root (by decide) (by decide)
  have hr : files.LeadsDown ["r".toList] := .enter .root (by decide) (by decide)
  have hfile : files.Stands ["d".toList, "foo.so".toList] (.file header) :=
    .file hd (by decide) (by decide)
  have hpath : FileTree.RealPath.text ["d".toList, "foo.so".toList] = "/d/foo.so" := by
    decide +kernel
  -- Nothing is there under the names that are tried before.
  have hstem : machine.isSharedLibrary manager.flavor "foo" = false := by
    have hwalk : files.resolve? "foo" = files.walk [] ["foo".toList] := by
      rw [FileTree.resolve?, if_neg (by decide)]
      rfl
    refine Machine.isSharedLibrary_of_resolve?_none (hwalk.trans ?_)
    rw [FileTree.walk, FileTree.locate_of_free (by decide) (by decide)]
  have hrfoo : machine.isSharedLibrary manager.flavor "/r/foo" = false :=
    Machine.isSharedLibrary_of_resolve?_none
      (hr.resolve?_free (c := "foo".toList) (by decide) (by decide))
  have hdfoo : machine.isSharedLibrary manager.flavor "/d/foo" = false :=
    Machine.isSharedLibrary_of_resolve?_none
      (hd.resolve?_free (c := "foo".toList) (by decide) (by decide))
  have hrso : machine.isSharedLibrary manager.flavor "/r/foo.so" = false :=
    Machine.isSharedLibrary_of_resolve?_none
      (hr.resolve?_free (c := "foo.so".toList) (by decide) (by decide))
  have hfound : machine.isSharedLibrary manager.flavor "/d/foo.so" = true := by
    rw [← hpath, Machine.isSharedLibrary_of_lookUp? (hfile.lookUp?_text (by decide +kernel))]
    decide
  have hfirst : manager.firstLibrary? machine
      (manager.candidates machine { rpath := ["/r"] } "" "foo" true) = some "/d/foo.so" := by
    have hcandidates : manager.candidates machine { rpath := ["/r"] } "" "foo" true =
        ["foo", "/r/foo", "/d/foo", "/r/foo.so", "/d/foo.so", "/r/libfoo", "/d/libfoo",
          "/r/libfoo.so", "/d/libfoo.so"] := by decide +kernel
    rw [hcandidates, firstLibrary?]
    simp only [List.find?_cons, hstem, hrfoo, hdfoo, hrso, hfound]
  have hreal : files.realPath? "/d/foo.so" = some "/d/foo.so" := by
    rw [← hpath, FileTree.realPath?, hfile.resolve?_text]
    rfl
  have hlookup := (lookup_first (l := manager) (m := machine) hfaithful
    (by decide +kernel : "foo" = "" ++ "foo") (by decide) (by decide +kernel) (by decide +kernel)
    { rpath := ["/r"] } true).1
  rw [hfirst] at hlookup
  exact ⟨hfaithful, hlookup.trans (congrArg Except.ok hreal)⟩

/-! ## The variable for the run path

A stem that begins with the variable is tried with each directory of the run path in its place. The
directory is taken as it is written there, while other stems are tried in it with the variables in
it replaced. -/

theorem afterIgnoringCase?_append (pattern rest : List Char) :
    afterIgnoringCase? pattern (pattern ++ rest) = some rest := by
  induction pattern with
  | nil => cases rest <;> rfl
  | cons p pattern ih =>
      rw [List.cons_append, afterIgnoringCase?, if_pos rfl]
      exact ih

theorem substituteFront_append (pattern rest replacement : String) :
    substituteFront (pattern ++ rest) pattern replacement = replacement ++ rest := by
  rw [substituteFront, String.toList_append, afterIgnoringCase?_append]
  exact congrArg (replacement ++ ·) String.ofList_toList

theorem substituteFront_of_not {text pattern : String}
    (h : startsIgnoringCase pattern text = false) (replacement : String) :
    substituteFront text pattern replacement = text := by
  rw [startsIgnoringCase, Option.isSome_eq_false_iff, Option.isNone_iff_eq_none] at h
  rw [substituteFront, h]

/-- A path without a variable in front stays as it is. -/
theorem substitute_of_plain (hflavor : l.flavor = .machO) {path : String}
    (hprogram : startsIgnoringCase "@executable_path" path = false)
    (hloader : startsIgnoringCase "@loader_path" path = false) (loader : String) :
    l.substitute m path loader = path := by
  simp only [substitute, hflavor, substituteFront_of_not hprogram, substituteFront_of_not hloader]

theorem directCandidates_of_token (hflavor : l.flavor = .machO) (c : LookupContext)
    (rest : String) : l.directCandidates m c ("@rpath" ++ "/" ++ rest) =
      c.rpath.map (· ++ "/" ++ rest) := by
  have hstarts : startsIgnoringCase "@rpath" ("@rpath" ++ ("/" ++ rest)) = true := by
    rw [startsIgnoringCase, String.toList_append, afterIgnoringCase?_append]
    rfl
  rw [String.append_assoc, directCandidates, if_pos ⟨hflavor, hstarts⟩]
  refine List.map_congr_left fun d _ => ?_
  rw [substituteFront_append, String.append_assoc]

/-- The library under a directory of the run path, taken as it is written, is found before any
other. -/
theorem lookup_token_of_first (hflavor : l.flavor = .machO) {rest found : String}
    (h : l.firstLibrary? m (c.rpath.map (· ++ "/" ++ rest)) = some found) (variants : Bool) :
    l.lookup m c ("@rpath" ++ "/" ++ rest) variants = .ok (m.files.realPath? found) := by
  have hrelative : Path.isAbsolute ("@rpath" ++ "/" ++ rest) = false := by
    simp [Path.isAbsolute]
  rw [lookup, hrelative, if_neg Bool.false_ne_true, directCandidates_of_token hflavor]
  rw [firstLibrary?] at h
  rw [h]

/-- A directory of the run path in which no variable is replaced leads to a library for the stem
that begins with the variable if it does so for the rest of the stem: one under the first such
directory is found. -/
theorem lookup_token_found (hflavor : l.flavor = .machO) {d rest : String} (hd : d ∈ c.rpath)
    (hplain : l.substitute m d c.loader = d)
    (hshared : m.isSharedLibrary .machO (l.substitute m d c.loader ++ "/" ++ rest) = true)
    (variants : Bool) :
    ∃ first ∈ c.rpath, ∃ path, m.isSharedLibrary .machO (first ++ "/" ++ rest) = true ∧
      m.files.realPath? (first ++ "/" ++ rest) = some path ∧
      l.lookup m c ("@rpath" ++ "/" ++ rest) variants = .ok (some path) := by
  rw [hplain, ← hflavor] at hshared
  have hmem : d ++ "/" ++ rest ∈ c.rpath.map (· ++ "/" ++ rest) := List.mem_map_of_mem hd
  have hsome : (l.firstLibrary? m (c.rpath.map (· ++ "/" ++ rest))).isSome = true :=
    List.find?_isSome.mpr ⟨_, hmem, hshared⟩
  obtain ⟨found, hfirst⟩ := Option.isSome_iff_exists.mp hsome
  obtain ⟨first, hmemFirst, rfl⟩ := List.mem_map.mp (List.mem_of_find?_eq_some hfirst)
  have hfound := isSharedLibrary_of_first hfirst
  obtain ⟨path, hpath⟩ := Machine.exists_realPath? hfound
  refine ⟨first, hmemFirst, path, hflavor ▸ hfound, hpath, ?_⟩
  rw [lookup_token_of_first hflavor hfirst, hpath]

/-- A library under the second of two directories of the run path. -/
theorem lookup_token_found_second :
    let header : List UInt8 := [0xCF, 0xFA, 0xED, 0xFE, 0, 0, 0, 0, 0, 0, 0, 0, 6, 0, 0, 0]
    let files : FileTree := { entries := [
      (["d".toList], .directory), (["d".toList, "r.dylib".toList], .file header)] }
    let machine : Machine := { files }
    let manager : LibraryManager := { flavor := .machO }
    let context : LookupContext := { rpath := ["@loader_path/lib", "/d"], loader := "/d/app" }
    manager.substitute machine "/d" context.loader = "/d" ∧
      machine.isSharedLibrary .machO
        (manager.substitute machine "/d" context.loader ++ "/" ++ "r.dylib") = true ∧
      ∃ path, manager.lookup machine context ("@rpath" ++ "/" ++ "r.dylib") true =
        .ok (some path) := by
  intro header files machine manager context
  have hd : files.LeadsDown ["d".toList] := .enter .root (by decide) (by decide)
  have hfile : files.Stands ["d".toList, "r.dylib".toList] (.file header) :=
    .file hd (by decide) (by decide)
  have hplain : manager.substitute machine "/d" context.loader = "/d" :=
    substitute_of_plain rfl (by decide) (by decide) context.loader
  have hpath : FileTree.RealPath.text ["d".toList, "r.dylib".toList] =
      "/d" ++ "/" ++ "r.dylib" := by
    decide +kernel
  have hshared : machine.isSharedLibrary .machO
      (manager.substitute machine "/d" context.loader ++ "/" ++ "r.dylib") = true := by
    rw [hplain, ← hpath,
      Machine.isSharedLibrary_of_lookUp? (hfile.lookUp?_text (by decide +kernel))]
    decide
  obtain ⟨-, -, path, -, -, hlookup⟩ :=
    lookup_token_found (c := context) rfl (List.mem_cons_of_mem _ List.mem_cons_self) hplain hshared
      true
  exact ⟨hplain, hshared, path, hlookup⟩

end LibraryManager

end CppReflect
