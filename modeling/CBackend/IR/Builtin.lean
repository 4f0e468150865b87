/-!
# Built-in scalar types

The twelve scalar types of the source language, with their sizes and their source names.
-/

namespace CBackend.IR

/-- The scalar types of the source language. A `char` is a Unicode code point in 32 bits. -/
inductive Builtin
  | i8
  | i16
  | i32
  | i64
  | u8
  | u16
  | u32
  | u64
  | f32
  | f64
  | char
  | bool
  deriving DecidableEq, Repr

namespace Builtin

/-- Every scalar type, in the order in which the C typedefs are written. -/
def all : List Builtin :=
  [i8, i16, i32, i64, u8, u16, u32, u64, f32, f64, char, bool]

/-- The size in bytes. -/
def size : Builtin → Nat
  | i8 | u8 | bool => 1
  | i16 | u16 => 2
  | i32 | u32 | f32 | char => 4
  | i64 | u64 | f64 => 8

/-- The size in bits. -/
def bitWidth (k : Builtin) : Nat :=
  k.size * 8

/-- Whether the type is a signed integer. -/
def isSigned : Builtin → Bool
  | i8 | i16 | i32 | i64 => true
  | _ => false

/-- Whether the type is an unsigned integer; `char` and `bool` are not integers. -/
def isUnsigned : Builtin → Bool
  | u8 | u16 | u32 | u64 => true
  | _ => false

/-- Whether the type is an integer of either signedness. -/
def isInteger (k : Builtin) : Bool :=
  k.isSigned || k.isUnsigned

/-- Whether the type is a floating-point number. -/
def isFloat : Builtin → Bool
  | f32 | f64 => true
  | _ => false

/-- The name in source programs. -/
def name : Builtin → String
  | i8 => "int8"
  | i16 => "int16"
  | i32 => "int32"
  | i64 => "int64"
  | u8 => "uint8"
  | u16 => "uint16"
  | u32 => "uint32"
  | u64 => "uint64"
  | f32 => "float32"
  | f64 => "float64"
  | char => "char"
  | bool => "bool"

/-- The unsigned integer of the given number of bits. -/
def unsigned? : Nat → Option Builtin
  | 8 => some u8
  | 16 => some u16
  | 32 => some u32
  | 64 => some u64
  | _ => none

end Builtin

end CBackend.IR
