import CppReflect.Library.Manager

/-!
# What the first bytes of a file tell

Only the first bytes of a file are looked at to tell whether it is a shared library. What they tell
of it stays true of all of it, because every field that decides is read whole or not at all, and a
file that lacks one is told to be nothing. For the formats whose fields lie within the first bytes
the answer is even the same. Where a field is read, all of its bytes are there.
-/

namespace CppReflect

namespace FileMagic

variable {header bytes part p : List UInt8} {start count n : Nat}

/-! ## Fields -/

theorem slice?_eq (bytes : List UInt8) (start count : Nat) : slice? bytes start count =
    if ((bytes.drop start).take count).length = count then some ((bytes.drop start).take count)
    else none := rfl

theorem slice?_eq_some_iff : slice? bytes start count = some part ↔
    (bytes.drop start).take count = part ∧ part.length = count := by
  rw [slice?_eq]
  constructor
  · intro h
    split at h
    next hlength =>
      obtain rfl := Option.some.inj h
      exact ⟨rfl, hlength⟩
    next => cases h
  · rintro ⟨rfl, hlength⟩
    exact if_pos hlength

/-- A field that is there stays the same when bytes are added. -/
theorem slice?_append (h : slice? p start count = some part) (s : List UInt8) :
    slice? (p ++ s) start count = some part := by
  obtain ⟨htake, hlength⟩ := slice?_eq_some_iff.mp h
  have hfits : count ≤ (p.drop start).length := by
    rw [← htake, List.length_take] at hlength
    omega
  refine slice?_eq_some_iff.mpr ⟨?_, hlength⟩
  rw [List.drop_append, List.take_append_of_le_length hfits, htake]

/-- A field within the first bytes is read off them. -/
theorem slice?_take (hfits : start + count ≤ n) (bytes : List UInt8) :
    slice? (bytes.take n) start count = slice? bytes start count := by
  have hpart : ((bytes.take n).drop start).take count = (bytes.drop start).take count := by
    rw [List.drop_take, List.take_take, Nat.min_eq_left (by omega)]
  rw [slice?_eq, slice?_eq, hpart]

/-- A field that is not empty is there exactly if the bytes reach to its end. -/
theorem slice?_isSome_iff (hcount : 0 < count) :
    (slice? bytes start count).isSome ↔ start + count ≤ bytes.length := by
  rw [slice?_eq, List.length_take, List.length_drop]
  split
  next hlength => simp only [Option.isSome_some, true_iff]; omega
  next hlength => simp only [Option.isSome_none, Bool.false_eq_true, false_iff]; omega

/-- What is told of a field, and nothing without it, is told of it behind more bytes too. -/
theorem told_append (tell : Option (List UInt8) → FileMagic) (hnone : tell none = .unknown)
    (h : tell (slice? p start count) ≠ .unknown) (s : List UInt8) :
    tell (slice? (p ++ s) start count) = tell (slice? p start count) := by
  cases hfield : slice? p start count with
  | none => exact absurd (hfield ▸ hnone) h
  | some part => rw [slice?_append hfield]

/-! ## More bytes -/

theorem ofElf_append (h : ofElf p ≠ .unknown) (s : List UInt8) : ofElf (p ++ s) = ofElf p := by
  cases hfield : slice? p 16 2 with
  | none => simp [ofElf, hfield] at h
  | some field =>
      have hlength : 18 ≤ p.length :=
        (slice?_isSome_iff (by decide)).mp (Option.isSome_of_eq_some hfield)
      have horder : (p ++ s)[5]? = p[5]? := List.getElem?_append_left (by omega)
      simp only [ofElf, slice?_append hfield, hfield, horder]

theorem ofPe_append (h : ofPe p ≠ .unknown) (s : List UInt8) : ofPe (p ++ s) = ofPe p := by
  have hsignature : (peOffset? p).bind (slice? p · 4) = some peSignature := by
    unfold ofPe at h
    split at h
    next hsignature => exact hsignature
    next => exact absurd rfl h
  obtain ⟨offset, hoffset, hslice⟩ := Option.bind_eq_some_iff.mp hsignature
  obtain ⟨field, hfield, rfl⟩ := Option.map_eq_some_iff.mp hoffset
  have hsignature' : (peOffset? (p ++ s)).bind (slice? (p ++ s) · 4) = some peSignature := by
    rw [peOffset?, slice?_append hfield]
    exact slice?_append hslice s
  rw [ofPe, ofPe, if_pos hsignature, if_pos hsignature']

theorem ofFour_append {first : List UInt8} (h : ofFour p first ≠ .unknown) (s : List UInt8) :
    ofFour (p ++ s) first = ofFour p first := by
  unfold ofFour at h ⊢
  split
  next huniversal =>
    rw [if_pos huniversal] at h
    exact told_append (fun field =>
      if (field.map bigEndian).any (· < universalLimit) then .machOUniversalBinary else .unknown)
      rfl h s
  next huniversal =>
    rw [if_neg huniversal] at h
    split
    next hbig =>
      rw [if_pos hbig] at h
      exact told_append (fun field =>
        (field.map fun field => ofMachOType (bigEndian field)).getD .unknown) rfl h s
    next hbig =>
      rw [if_neg hbig] at h
      split
      next hlittle =>
        rw [if_pos hlittle] at h
        exact told_append (fun field =>
          (field.map fun field => ofMachOType (littleEndian field)).getD .unknown) rfl h s
      next hlittle =>
        rw [if_neg hlittle] at h
        split
        next hpe =>
          rw [if_pos hpe] at h
          exact ofPe_append h s
        next => rfl

/-- The first four bytes of an archive start no other file. -/
theorem identify_of_archive_start (hfirst : slice? p 0 4 = some (archiveMark.take 4)) :
    identify p = if archiveMark.isPrefixOf p then .archive else .unknown := by
  simp only [identify, hfirst]
  rw [if_neg (by decide : archiveMark.take 4 ≠ elfMark)]
  rfl

/-- A file that is known by its first bytes is known as the same by more of them. -/
theorem identify_append (h : identify p ≠ .unknown) (s : List UInt8) :
    identify (p ++ s) = identify p := by
  cases hfirst : slice? p 0 4 with
  | none => simp [identify, hfirst] at h
  | some first =>
      have hfirst' := slice?_append hfirst s
      by_cases harchive : first = archiveMark.take 4
      · rw [harchive] at hfirst hfirst'
        rw [identify_of_archive_start hfirst] at h ⊢
        rw [identify_of_archive_start hfirst']
        have hmark : archiveMark.isPrefixOf p = true :=
          Decidable.of_not_not fun hno => h (if_neg hno)
        have hmark' : archiveMark.isPrefixOf (p ++ s) = true := by
          rw [List.isPrefixOf_iff_prefix] at hmark ⊢
          exact hmark.trans (List.prefix_append p s)
        rw [if_pos hmark, if_pos hmark']
      · -- A longer file that is an archive would start as one already.
        have hmark : ∀ ds, slice? ds 0 4 = some first → ¬archiveMark.isPrefixOf ds = true := by
          intro ds hds hmark
          obtain ⟨rest, rfl⟩ := List.isPrefixOf_iff_prefix.mp hmark
          exact harchive (Option.some.inj (hds.symm.trans (slice?_append (by decide) rest)))
        simp only [identify, hfirst, hfirst', if_neg (hmark p hfirst),
          if_neg (hmark (p ++ s) hfirst')] at h ⊢
        split
        next helf =>
          rw [if_pos helf] at h
          exact ofElf_append h s
        next helf =>
          rw [if_neg helf] at h
          exact ofFour_append h s

/-- A library that is known by its first bytes is known by more of them. -/
theorem isDll_append (h : isDll p = true) (s : List UInt8) : isDll (p ++ s) = true := by
  cases hpe : (peOffset? p).bind (slice? p · 24) with
  | none => simp [isDll, hpe] at h
  | some pe =>
      obtain ⟨offset, hoffset, hslice⟩ := Option.bind_eq_some_iff.mp hpe
      obtain ⟨field, hfield, rfl⟩ := Option.map_eq_some_iff.mp hoffset
      have hpe' : (peOffset? (p ++ s)).bind (slice? (p ++ s) · 24) = some pe := by
        rw [peOffset?, slice?_append hfield]
        exact slice?_append hslice s
      simpa only [isDll, hpe, hpe'] using h

/-! ## Fewer bytes -/

theorem ofPe_eq_or (bytes : List UInt8) :
    ofPe bytes = .peCoffExecutable ∨ ofPe bytes = .unknown := by
  unfold ofPe
  split
  · exact .inl rfl
  · exact .inr rfl

theorem isPrefixOf_take {mark : List UInt8} (hfits : mark.length ≤ n) (bytes : List UInt8) :
    mark.isPrefixOf (bytes.take n) = mark.isPrefixOf bytes := by
  rw [Bool.eq_iff_iff, List.isPrefixOf_iff_prefix, List.isPrefixOf_iff_prefix, List.prefix_take_iff]
  exact and_iff_left hfits

theorem ofElf_take (hn : 18 ≤ n) (bytes : List UInt8) : ofElf (bytes.take n) = ofElf bytes := by
  have horder : (bytes.take n)[5]? = bytes[5]? := List.getElem?_take_of_lt (by omega)
  simp only [ofElf, slice?_take (show 16 + 2 ≤ n by omega), horder]

theorem ofFour_take {first : List UInt8} (hn : 18 ≤ n)
    (hpe : ofFour bytes first ≠ .peCoffExecutable) :
    ofFour (bytes.take n) first = ofFour bytes first := by
  unfold ofFour at hpe ⊢
  rw [slice?_take (show 4 + 4 ≤ n by omega), slice?_take (show 12 + 4 ≤ n by omega)]
  split
  next => rfl
  next huniversal =>
    rw [if_neg huniversal] at hpe
    split
    next => rfl
    next hbig =>
      rw [if_neg hbig] at hpe
      split
      next => rfl
      next hlittle =>
        rw [if_neg hlittle] at hpe
        split
        next hmark =>
          -- The header of a portable executable may lie anywhere, but not in the first bytes alone.
          rw [if_pos hmark] at hpe
          rcases ofPe_eq_or (bytes.take n) with htake | htake
          · have hknown : ofPe (bytes.take n) ≠ .unknown := by
              rw [htake]
              decide
            have happend := ofPe_append hknown (bytes.drop n)
            rw [List.take_append_drop, htake] at happend
            exact absurd happend hpe
          · rw [htake, (ofPe_eq_or bytes).resolve_left hpe]
        next => rfl

/-- What a file is, unless it is a portable executable, is told by its first 18 bytes. -/
theorem identify_take (hn : 18 ≤ n) (hpe : identify bytes ≠ .peCoffExecutable) :
    identify (bytes.take n) = identify bytes := by
  have hmark : archiveMark.isPrefixOf (bytes.take n) = archiveMark.isPrefixOf bytes :=
    isPrefixOf_take (show 8 ≤ n by omega) bytes
  unfold identify at hpe ⊢
  rw [slice?_take (show 0 + 4 ≤ n by omega), hmark, ofElf_take hn]
  cases hfirst : slice? bytes 0 4 with
  | none => rfl
  | some first =>
      simp only [hfirst] at hpe ⊢
      split
      next => rfl
      next harchive =>
        rw [if_neg harchive] at hpe
        split
        next => rfl
        next helf =>
          rw [if_neg helf] at hpe
          exact ofFour_take hn hpe

/-! ## Reads

The same decisions once more, byte by byte: whether a field is there is decided by the length of the
bytes, and a read of a byte that is not there fails. -/

/-- A read behind the end of the bytes. -/
structure OutOfRange where
  place : Nat
  length : Nat
deriving DecidableEq, Repr

/-- The byte at a place, where there has to be one. -/
def readByte (bytes : List UInt8) (place : Nat) : Except OutOfRange UInt8 :=
  bytes[place]?.elim (.error ⟨place, bytes.length⟩) .ok

/-- The bytes from a place on, all of which have to be there. -/
def readBytes (bytes : List UInt8) (start : Nat) : Nat → Except OutOfRange (List UInt8)
  | 0 => return []
  | count + 1 => do
    let byte ← readByte bytes start
    return byte :: (← readBytes bytes (start + 1) count)

/-- The bytes of a range, if there are enough for it. -/
def readField? (bytes : List UInt8) (start count : Nat) :
    Except OutOfRange (Option (List UInt8)) := do
  if start + count ≤ bytes.length then return some (← readBytes bytes start count)
  else return none

/-- Whether the bytes start with a mark. -/
def readMark (mark bytes : List UInt8) : Except OutOfRange Bool := do
  return (← readField? bytes 0 mark.length) == some mark

/-- The kind of an ELF file, read byte by byte. -/
def readElf (header : List UInt8) : Except OutOfRange FileMagic := do
  let order ← readField? header 5 1
  match ← readField? header 16 2 with
  | none => return .unknown
  | some field =>
    return match if order = some [1] then littleEndian field else bigEndian field with
      | 1 => .elfRelocatable
      | 2 => .elfExecutable
      | 3 => .elfSharedObject
      | 4 => .elfCore
      | _ => .unknown

/-- The place of the header of a portable executable, read byte by byte. -/
def readPeOffset? (header : List UInt8) : Except OutOfRange (Option Nat) := do
  return (← readField? header 0x3C 4).map littleEndian

/-- A field of the header of a portable executable, read byte by byte. -/
def readPeField? (header : List UInt8) (count : Nat) :
    Except OutOfRange (Option (List UInt8)) := do
  match ← readPeOffset? header with
  | none => return none
  | some offset => readField? header offset count

/-- The kind of a file that starts with the given four bytes, read byte by byte. -/
def readFour (header first : List UInt8) : Except OutOfRange FileMagic := do
  if first = [0xCA, 0xFE, 0xBA, 0xBE] then
    let field ← readField? header 4 4
    return if (field.map bigEndian).any (· < universalLimit) then .machOUniversalBinary
      else .unknown
  else if first = [0xFE, 0xED, 0xFA, 0xCE] ∨ first = [0xFE, 0xED, 0xFA, 0xCF] then
    let field ← readField? header 12 4
    return (field.map fun field => ofMachOType (bigEndian field)).getD .unknown
  else if first = [0xCE, 0xFA, 0xED, 0xFE] ∨ first = [0xCF, 0xFA, 0xED, 0xFE] then
    let field ← readField? header 12 4
    return (field.map fun field => ofMachOType (littleEndian field)).getD .unknown
  else if first.take 2 = [0x4D, 0x5A] then
    let signature ← readPeField? header 4
    return if signature = some peSignature then .peCoffExecutable else .unknown
  else return .unknown

/-- What a file is that starts with the given bytes, read byte by byte. -/
def readMagic (header : List UInt8) : Except OutOfRange FileMagic := do
  if header.length < 4 then return .unknown
  else if ← readMark archiveMark header then return .archive
  else if ← readMark elfMark header then readElf header
  else readFour header (← readBytes header 0 4)

/-- Whether the header of a portable executable says that it is a library, read byte by byte. -/
def readIsDll (header : List UInt8) : Except OutOfRange Bool := do
  match ← readPeField? header 24 with
  | none => return false
  | some pe =>
    let low ← readByte pe 22
    let high ← readByte pe 23
    return littleEndian [low, high] / 0x2000 % 2 == 1

theorem readByte_of_lt (h : start < bytes.length) : readByte bytes start = .ok bytes[start] := by
  rw [readByte, List.getElem?_eq_getElem h]
  rfl

/-- A range that is not longer than the bytes is read without a failure. -/
theorem readBytes_of_le (h : start + count ≤ bytes.length) :
    readBytes bytes start count = .ok ((bytes.drop start).take count) := by
  induction count generalizing start with
  | zero => rfl
  | succ count ih =>
      have hstart : start < bytes.length := by omega
      have hrest : readBytes bytes (start + 1) count = .ok ((bytes.drop (start + 1)).take count) :=
        ih (by omega)
      rw [readBytes, readByte_of_lt hstart, List.drop_eq_getElem_cons hstart, List.take_succ_cons]
      simp only [bind, Except.bind, hrest, pure, Except.pure]

/-- Looking at the length first keeps every read of a field inside the bytes. -/
theorem readField?_eq (hcount : 0 < count) (bytes : List UInt8) (start : Nat) :
    readField? bytes start count = .ok (slice? bytes start count) := by
  unfold readField?
  split
  next h =>
    obtain ⟨part, hpart⟩ := Option.isSome_iff_exists.mp ((slice?_isSome_iff hcount).mpr h)
    rw [readBytes_of_le h, hpart, (slice?_eq_some_iff.mp hpart).1]
    rfl
  next h =>
    have hnone : slice? bytes start count = none := by
      rw [← Option.not_isSome_iff_eq_none, slice?_isSome_iff hcount]
      exact h
    rw [hnone]
    rfl

theorem readMark_eq {mark : List UInt8} (hmark : 0 < mark.length) (bytes : List UInt8) :
    readMark mark bytes = .ok (mark.isPrefixOf bytes) := by
  have hstarts : (slice? bytes 0 mark.length == some mark) = mark.isPrefixOf bytes := by
    rw [Bool.eq_iff_iff, beq_iff_eq, slice?_eq_some_iff, List.isPrefixOf_iff_prefix,
      List.drop_zero, List.prefix_iff_eq_take]
    exact ⟨fun h => h.1.symm, fun h => ⟨h.symm, rfl⟩⟩
  rw [readMark, readField?_eq hmark]
  exact congrArg Except.ok hstarts

theorem readElf_eq (header : List UInt8) : readElf header = .ok (ofElf header) := by
  have horder : slice? header 5 1 = some [1] ↔ header[5]? = some 1 := by
    rw [slice?_eq_some_iff, List.take_one, List.head?_drop]
    cases header[5]? with
    | none => simp
    | some byte => simp
  rw [readElf, readField?_eq (by decide), readField?_eq (by decide)]
  simp only [bind, Except.bind, ofElf, horder]
  cases slice? header 16 2 with
  | none => rfl
  | some field => rfl

theorem readPeField?_eq (hcount : 0 < count) (header : List UInt8) :
    readPeField? header count = .ok ((peOffset? header).bind (slice? header · count)) := by
  rw [readPeField?, readPeOffset?, readField?_eq (by decide), peOffset?]
  cases slice? header 0x3C 4 with
  | none => rfl
  | some field => exact readField?_eq hcount header (littleEndian field)

theorem readFour_eq (header first : List UInt8) :
    readFour header first = .ok (ofFour header first) := by
  simp only [readFour, ofFour, ofPe, readField?_eq (show 0 < 4 by decide),
    readPeField?_eq (show 0 < 4 by decide), bind, Except.bind, pure, Except.pure]
  repeat' split
  all_goals rfl

/-- To tell what a file is no byte is read that is not there. -/
theorem readMagic_eq (header : List UInt8) : readMagic header = .ok (identify header) := by
  unfold readMagic
  split
  next hshort =>
    have hnone : slice? header 0 4 = none := by
      rw [← Option.not_isSome_iff_eq_none, slice?_isSome_iff (by decide)]
      omega
    simp only [identify, hnone, pure, Except.pure]
  next hlong =>
    have hfits : 0 + 4 ≤ header.length := by omega
    obtain ⟨first, hfirst⟩ :=
      Option.isSome_iff_exists.mp ((slice?_isSome_iff (by decide)).mpr hfits)
    have htake : readBytes header 0 4 = .ok first := by
      rw [readBytes_of_le hfits, (slice?_eq_some_iff.mp hfirst).1]
    have helf : elfMark.isPrefixOf header = true ↔ first = elfMark := by
      rw [List.isPrefixOf_iff_prefix, List.prefix_iff_eq_take, ← (slice?_eq_some_iff.mp hfirst).1]
      exact eq_comm
    rw [readMark_eq (by decide), readMark_eq (by decide), htake]
    simp only [bind, Except.bind, pure, Except.pure, identify, hfirst, helf, readElf_eq,
      readFour_eq]
    split
    next => rfl
    next =>
      split
      next => rfl
      next => rfl

/-- To tell whether a file is a library no byte is read that is not there. -/
theorem readIsDll_eq (header : List UInt8) : readIsDll header = .ok (isDll header) := by
  rw [readIsDll, readPeField?_eq (by decide), isDll]
  cases hpe : (peOffset? header).bind (slice? header · 24) with
  | none => rfl
  | some pe =>
      obtain ⟨offset, -, hslice⟩ := Option.bind_eq_some_iff.mp hpe
      have hlength : pe.length = 24 := (slice?_eq_some_iff.mp hslice).2
      have hdrop : pe.drop 22 = [pe[22], pe[23]] := by
        rw [List.drop_eq_getElem_cons (by omega), List.drop_eq_getElem_cons (by omega),
          List.drop_eq_nil_of_le (by omega)]
      simp only [bind, Except.bind, readByte_of_lt (show 22 < pe.length by omega),
        readByte_of_lt (show 23 < pe.length by omega), hdrop]
      rfl

end FileMagic

/-! ## Shared libraries -/

namespace Flavor

open FileMagic (identify isDll identify_append identify_take isDll_append)

variable {f : Flavor} {p bytes : List UInt8} {n : Nat}

theorem accepts_coff_iff : accepts .coff bytes = true ↔
    identify bytes = .peCoffExecutable ∧ isDll bytes = true := by
  unfold accepts
  cases identify bytes <;> simp

/-- But for portable executables, what a file is decides whether it is a library. -/
theorem accepts_congr (hf : f ≠ .coff) (h : identify p = identify bytes) :
    f.accepts p = f.accepts bytes := by
  unfold accepts
  rw [h]
  cases f with
  | elf => cases identify bytes <;> rfl
  | machO => cases identify bytes <;> rfl
  | coff => exact absurd rfl hf

theorem not_accepts_unknown (h : identify p = .unknown) : f.accepts p = false := by
  cases f <;> simp only [accepts, h]

theorem not_accepts_pe (hf : f ≠ .coff) (h : identify p = .peCoffExecutable) :
    f.accepts p = false := by
  cases f with
  | elf => simp only [accepts, h]
  | machO => simp only [accepts, h]
  | coff => exact absurd rfl hf

/-- A library by its first bytes is one by more of them. -/
theorem accepts_append (h : f.accepts p = true) (s : List UInt8) : f.accepts (p ++ s) = true := by
  have hknown : identify p ≠ .unknown := fun hunknown => by simp [not_accepts_unknown hunknown] at h
  have hidentify := identify_append hknown s
  by_cases hf : f = .coff
  · subst hf
    obtain ⟨hpe, hdll⟩ := accepts_coff_iff.mp h
    exact accepts_coff_iff.mpr ⟨hidentify.trans hpe, isDll_append hdll s⟩
  · rwa [accepts_congr hf hidentify]

/-- Libraries that are no portable executables are told by their first 18 bytes. -/
theorem accepts_take (hf : f ≠ .coff) (hn : 18 ≤ n) (bytes : List UInt8) :
    f.accepts (bytes.take n) = f.accepts bytes := by
  by_cases hpe : identify bytes = .peCoffExecutable
  · rw [not_accepts_pe hf hpe]
    by_cases hunknown : identify (bytes.take n) = .unknown
    · exact not_accepts_unknown hunknown
    · have happend := identify_append hunknown (bytes.drop n)
      rw [List.take_append_drop, hpe] at happend
      exact not_accepts_pe hf happend.symm
  · exact accepts_congr hf (identify_take hn hpe)

/-- The first bytes of a file are enough. What they make of a file stays so whatever follows; two of
the three formats are told by them as by the whole file, and a library of the third one by them is
one. No byte is read that is not there. -/
theorem probe_reliable (p s bytes : List UInt8) :
    (identify p ≠ .unknown → identify (p ++ s) = identify p) ∧
    (isDll p = true → isDll (p ++ s) = true) ∧
    accepts .elf (bytes.take FileMagic.probeLength) = accepts .elf bytes ∧
    accepts .machO (bytes.take FileMagic.probeLength) = accepts .machO bytes ∧
    (accepts .coff (bytes.take FileMagic.probeLength) = true → accepts .coff bytes = true) ∧
    FileMagic.readMagic bytes = .ok (identify bytes) ∧
    FileMagic.readIsDll bytes = .ok (isDll bytes) := by
  have hlong : 18 ≤ FileMagic.probeLength := by decide
  refine ⟨fun h => identify_append h s, fun h => isDll_append h s,
    accepts_take (by decide) hlong bytes, accepts_take (by decide) hlong bytes, fun h => ?_,
    FileMagic.readMagic_eq bytes, FileMagic.readIsDll_eq bytes⟩
  have happend := accepts_append h (bytes.drop FileMagic.probeLength)
  rwa [List.take_append_drop] at happend

/-- The shortest header of a shared object, with anything behind it. -/
theorem probe_reliable_sharedObject :
    let header : List UInt8 := [0x7F, 0x45, 0x4C, 0x46, 2, 1, 1, 0, 0, 0, 0, 0, 0, 0, 0, 0, 3, 0]
    identify header ≠ .unknown ∧
      ∀ behind, identify (header ++ behind) = .elfSharedObject := by
  intro header
  have hknown : identify header ≠ .unknown := by decide
  have hkind : identify header = .elfSharedObject := by decide
  exact ⟨hknown, fun behind => ((probe_reliable header behind []).1 hknown).trans hkind⟩

end Flavor

end CppReflect
