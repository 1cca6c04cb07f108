/-!
# SHA-1

The digest of 160 bits by which compiled files are named. A message is padded to blocks of 64 bytes,
and each block stirs a state of five words.
-/

namespace CppReflect.Sha1

/-- The five words of a digest in the making. -/
structure State where
  a : UInt32
  b : UInt32
  c : UInt32
  d : UInt32
  e : UInt32
deriving DecidableEq, Repr

/-- The state before the first block. -/
def State.start : State := ⟨0x67452301, 0xEFCDAB89, 0x98BADCFE, 0x10325476, 0xC3D2E1F0⟩

/-- The words of two states added one by one. -/
def State.add (s t : State) : State :=
  ⟨s.a + t.a, s.b + t.b, s.c + t.c, s.d + t.d, s.e + t.e⟩

/-- The word with its bits moved to the left, the ones that fall out coming back on the right. -/
def rotate (x n : UInt32) : UInt32 := (x <<< n) ||| (x >>> (32 - n))

/-- The bytes of a number, the highest one first. -/
def bytesOf (count n : Nat) : List UInt8 :=
  (List.range count).reverse.map fun i => UInt8.ofNat (n / Nat.pow 256 i)

/-- The message with a mark, zeros and its length in bits behind it. -/
def padded (message : List UInt8) : List UInt8 :=
  let n := message.length
  message ++ [0x80] ++ List.replicate ((119 - n % 64) % 64) 0 ++ bytesOf 8 (8 * n)

/-- The words of 32 bits that bytes make up, four bytes to a word. -/
def words : List UInt8 → List UInt32
  | p :: q :: r :: s :: rest =>
    ((p.toUInt32 <<< 24) ||| (q.toUInt32 <<< 16) ||| (r.toUInt32 <<< 8) ||| s.toUInt32) :: words rest
  | _ => []

/-- The words of a block followed by those computed from the sixteen words before each. The words
are given latest first. -/
def schedule : Nat → List UInt32 → List UInt32
  | 0, ws => ws
  | n + 1, ws =>
    let back (i : Nat) := ws.getD (i - 1) 0
    schedule n (rotate (back 3 ^^^ back 8 ^^^ back 14 ^^^ back 16) 1 :: ws)

/-- What a round mixes in: a function of three words, and a constant. -/
def mix (round : Nat) (b c d : UInt32) : UInt32 × UInt32 :=
  if round < 20 then ((b &&& c) ||| (~~~b &&& d), 0x5A827999)
  else if round < 40 then (b ^^^ c ^^^ d, 0x6ED9EBA1)
  else if round < 60 then ((b &&& c) ||| (b &&& d) ||| (c &&& d), 0x8F1BBCDC)
  else (b ^^^ c ^^^ d, 0xCA62C1D6)

/-- One round. -/
def step (s : State) (round : Nat) (w : UInt32) : State :=
  let (f, k) := mix round s.b s.c s.d
  ⟨rotate s.a 5 + f + s.e + k + w, s.a, rotate s.b 30, s.c, s.d⟩

/-- Stirs a block of sixteen words into the state. -/
def stir (s : State) (block : List UInt32) : State :=
  let ws := (schedule 64 block.reverse).reverse
  s.add (ws.zipIdx.foldl (fun t (w, round) => step t round w) s)

/-- Stirs the blocks of sixteen words into the state, at most `fuel` of them. -/
def stirAll : Nat → State → List UInt32 → State
  | 0, s, _ => s
  | _, s, [] => s
  | fuel + 1, s, ws => stirAll fuel (stir s (ws.take 16)) (ws.drop 16)

/-- The digest of a message. -/
def digest (message : List UInt8) : State :=
  let ws := words (padded message)
  stirAll ws.length .start ws

/-- The eight hexadecimal digits of a word. -/
def hex (x : UInt32) : String :=
  let ds := Nat.toDigits 16 x.toNat
  String.ofList (List.replicate (8 - ds.length) '0' ++ ds)

/-- The forty hexadecimal digits of a digest. -/
def State.text (s : State) : String := hex s.a ++ hex s.b ++ hex s.c ++ hex s.d ++ hex s.e

end CppReflect.Sha1
