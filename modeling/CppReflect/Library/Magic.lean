/-!
# Object files

The format of an object file is told from its first bytes.
-/

namespace CppReflect

/-- What the first bytes of a file say it is. -/
inductive FileMagic where
  | unknown
  | archive
  | elfRelocatable
  | elfExecutable
  | elfSharedObject
  | elfCore
  | machOObject
  | machOExecutable
  | machOFixedVirtualMemorySharedLib
  | machOCore
  | machOPreloadExecutable
  | machODynamicallyLinkedSharedLib
  | machODynamicLinker
  | machOBundle
  | machODynamicallyLinkedSharedLibStub
  | machODsymCompanion
  | machOKextBundle
  | machOUniversalBinary
  | peCoffExecutable
deriving DecidableEq, Inhabited, Repr

namespace FileMagic

/-- The bytes of a range, if all of them are there. -/
def slice? (bytes : List UInt8) (start count : Nat) : Option (List UInt8) :=
  let part := (bytes.drop start).take count
  if part.length = count then some part else none

/-- The number that bytes denote, the highest one first. -/
def bigEndian (bytes : List UInt8) : Nat :=
  bytes.foldl (fun n b => 256 * n + b.toNat) 0

/-- The number that bytes denote, the lowest one first. -/
def littleEndian (bytes : List UInt8) : Nat := bigEndian bytes.reverse

/-- The kind of an ELF file. -/
def ofElf (header : List UInt8) : FileMagic :=
  match slice? header 16 2 with
  | none => .unknown
  | some field =>
    match if header[5]? = some 1 then littleEndian field else bigEndian field with
    | 1 => .elfRelocatable
    | 2 => .elfExecutable
    | 3 => .elfSharedObject
    | 4 => .elfCore
    | _ => .unknown

/-- The kind of a Mach-O file of a type. -/
def ofMachOType : Nat → FileMagic
  | 1 => .machOObject
  | 2 => .machOExecutable
  | 3 => .machOFixedVirtualMemorySharedLib
  | 4 => .machOCore
  | 5 => .machOPreloadExecutable
  | 6 => .machODynamicallyLinkedSharedLib
  | 7 => .machODynamicLinker
  | 8 => .machOBundle
  | 9 => .machODynamicallyLinkedSharedLibStub
  | 10 => .machODsymCompanion
  | 11 => .machOKextBundle
  | _ => .unknown

/-- The place of the header of a portable executable. -/
def peOffset? (header : List UInt8) : Option Nat := (slice? header 0x3C 4).map littleEndian

/-- The signature of a portable executable: two letters and two zeros. -/
def peSignature : List UInt8 := [0x50, 0x45, 0, 0]

/-- The kind of a file that starts as a portable executable does. -/
def ofPe (header : List UInt8) : FileMagic :=
  if (peOffset? header).bind (slice? header · 4) = some peSignature then .peCoffExecutable
  else .unknown

/-- Universal binaries hold fewer programs than this; other files with the same first bytes have a
greater number there. -/
def universalLimit : Nat := 43

/-- The kind of a file that starts with the given four bytes. -/
def ofFour (header first : List UInt8) : FileMagic :=
  if first = [0xCA, 0xFE, 0xBA, 0xBE] then
    if ((slice? header 4 4).map bigEndian).any (· < universalLimit) then .machOUniversalBinary
    else .unknown
  else if first = [0xFE, 0xED, 0xFA, 0xCE] ∨ first = [0xFE, 0xED, 0xFA, 0xCF] then
    ((slice? header 12 4).map fun field => ofMachOType (bigEndian field)).getD .unknown
  else if first = [0xCE, 0xFA, 0xED, 0xFE] ∨ first = [0xCF, 0xFA, 0xED, 0xFE] then
    ((slice? header 12 4).map fun field => ofMachOType (littleEndian field)).getD .unknown
  else if first.take 2 = [0x4D, 0x5A] then ofPe header
  else .unknown

/-- The first bytes of an archive. -/
def archiveMark : List UInt8 := [0x21, 0x3C, 0x61, 0x72, 0x63, 0x68, 0x3E, 0x0A]

/-- The first bytes of an ELF file. -/
def elfMark : List UInt8 := [0x7F, 0x45, 0x4C, 0x46]

/-- What a file is that starts with the given bytes. -/
def identify (header : List UInt8) : FileMagic :=
  match slice? header 0 4 with
  | none => .unknown
  | some first =>
    if archiveMark.isPrefixOf header then .archive
    else if first = elfMark then ofElf header
    else ofFour header first

/-- The header of a portable executable says that it is a library: bit 13 of the last two of its
first 24 bytes is set. -/
def isDll (header : List UInt8) : Bool :=
  match (peOffset? header).bind (slice? header · 24) with
  | none => false
  | some pe => littleEndian (pe.drop 22) / 0x2000 % 2 == 1

/-- The number of bytes that are looked at. -/
def probeLength : Nat := 1024

end FileMagic

end CppReflect
