/-!
# Bytes that may be text

Text arrives as bytes that need not be well-formed UTF-8. Bytes are cut into scalar values and
malformed parts, where a malformed part is the longest beginning of a sequence that could not be
continued, and at least one byte.
-/

namespace CppReflect.Text.Utf8

/-- How a byte above ASCII begins a sequence: the number of bytes that follow, the bits it
contributes, and the range of the byte behind it. -/
structure Lead where
  following : Nat
  bits : Nat
  low : UInt8
  high : UInt8

/-- The sequence that a byte begins, if it can begin one of more than one byte. -/
def lead? (b : UInt8) : Option Lead :=
  let n := b.toNat
  if 0xC2 ≤ n ∧ n ≤ 0xDF then some ⟨1, n - 0xC0, 0x80, 0xBF⟩
  else if n = 0xE0 then some ⟨2, 0, 0xA0, 0xBF⟩
  else if n = 0xED then some ⟨2, 0xD, 0x80, 0x9F⟩
  else if 0xE1 ≤ n ∧ n ≤ 0xEF then some ⟨2, n - 0xE0, 0x80, 0xBF⟩
  else if n = 0xF0 then some ⟨3, 0, 0x90, 0xBF⟩
  else if 0xF1 ≤ n ∧ n ≤ 0xF3 then some ⟨3, n - 0xF0, 0x80, 0xBF⟩
  else if n = 0xF4 then some ⟨3, 4, 0x80, 0x8F⟩
  else none

/-- A byte that continues a sequence. -/
def isContinuation (b : UInt8) : Bool := 0x80 ≤ b && b ≤ 0xBF

/-- The bits that a continuing byte adds. -/
def extend (bits : Nat) (b : UInt8) : Nat := 64 * bits + (b.toNat - 0x80)

/-- The scalar values of a sequence of bytes, with `none` for each malformed part. -/
def parts : List UInt8 → List (Option Char)
  | [] => []
  | b :: rest =>
    if b < 0x80 then some (Char.ofNat b.toNat) :: parts rest
    else
      match lead? b with
      | none => none :: parts rest
      | some l =>
        match rest with
        | [] => [none]
        | b₁ :: rest₁ =>
          if l.low ≤ b₁ && b₁ ≤ l.high then
            let v₁ := extend l.bits b₁
            if l.following = 1 then some (Char.ofNat v₁) :: parts rest₁
            else
              match rest₁ with
              | [] => [none]
              | b₂ :: rest₂ =>
                if isContinuation b₂ then
                  let v₂ := extend v₁ b₂
                  if l.following = 2 then some (Char.ofNat v₂) :: parts rest₂
                  else
                    match rest₂ with
                    | [] => [none]
                    | b₃ :: rest₃ =>
                      if isContinuation b₃ then some (Char.ofNat (extend v₂ b₃)) :: parts rest₃
                      else none :: parts (b₃ :: rest₃)
                else none :: parts (b₂ :: rest₂)
          else none :: parts (b₁ :: rest₁)

/-- The text of the bytes, with the replacement character for each malformed part. -/
def decodeLossy (bytes : List UInt8) : String :=
  String.ofList ((parts bytes).map (·.getD '\uFFFD'))

/-- The text of the bytes, if no part is malformed. -/
def decode? (bytes : List UInt8) : Option String :=
  ((parts bytes).mapM id).map String.ofList

/-- The bytes in front of the first zero byte. -/
def untilZero (bytes : List UInt8) : List UInt8 := bytes.takeWhile (· != 0)

end CppReflect.Text.Utf8
