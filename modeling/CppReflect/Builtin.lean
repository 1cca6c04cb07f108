/-!
# Builtin types

The fundamental types of the language with the spelling that is printed for them and their size on
a 64-bit target where `long` has eight bytes and `long double` sixteen.
-/

namespace CppReflect

/-- A fundamental type other than `void`. -/
inductive Builtin where
  | bool | char | schar | uchar | wchar | char8 | char16 | char32
  | short | ushort | int | uint | long | ulong | longLong | ulongLong | int128 | uint128
  | float | double | longDouble | nullPtr
deriving DecidableEq, Inhabited, Repr

namespace Builtin

/-- The spelling printed for the type. -/
def spelling : Builtin → String
  | .bool => "bool"
  | .char => "char"
  | .schar => "signed char"
  | .uchar => "unsigned char"
  | .wchar => "wchar_t"
  | .char8 => "char8_t"
  | .char16 => "char16_t"
  | .char32 => "char32_t"
  | .short => "short"
  | .ushort => "unsigned short"
  | .int => "int"
  | .uint => "unsigned int"
  | .long => "long"
  | .ulong => "unsigned long"
  | .longLong => "long long"
  | .ulongLong => "unsigned long long"
  | .int128 => "__int128"
  | .uint128 => "unsigned __int128"
  | .float => "float"
  | .double => "double"
  | .longDouble => "long double"
  | .nullPtr => "std::nullptr_t"

/-- The size in bytes. -/
def size : Builtin → Nat
  | .bool | .char | .schar | .uchar | .char8 => 1
  | .short | .ushort | .char16 => 2
  | .int | .uint | .char32 | .float | .wchar => 4
  | .long | .ulong | .longLong | .ulongLong | .double | .nullPtr => 8
  | .int128 | .uint128 | .longDouble => 16

/-- A type whose values are floating-point numbers. -/
def isFloating : Builtin → Bool
  | .float | .double | .longDouble => true
  | _ => false

/-- A type whose values are integers, the characters and `bool` included. -/
def isIntegral (b : Builtin) : Bool :=
  !b.isFloating && b != .nullPtr

/-- An integral type that has negative values, or a floating-point type. -/
def isSigned : Builtin → Bool
  | .char | .schar | .wchar | .short | .int | .long | .longLong | .int128 => true
  | b => b.isFloating

end Builtin

end CppReflect
