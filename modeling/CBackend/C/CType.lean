import CBackend.C.PointerChain

/-!
# C types

A C type is a head and a chain of pointer levels. The head is one of C's scalars or the number of a
shape in a table of types.
-/

namespace CBackend.C

/-- C's own scalar types. -/
inductive Scalar
  | void
  | signedChar
  | unsignedChar
  | short
  | unsignedShort
  | int
  | unsignedInt
  | long
  | unsignedLong
  | longLong
  | unsignedLongLong
  | float
  | double
  | bool
  deriving DecidableEq, Repr

namespace Scalar

/-- Every scalar type. -/
def all : List Scalar :=
  [void, signedChar, unsignedChar, short, unsignedShort, int, unsignedInt, long, unsignedLong,
    longLong, unsignedLongLong, float, double, bool]

/-- The spelling of a scalar type. -/
def spelling : Scalar → String
  | void => "void"
  | signedChar => "signed char"
  | unsignedChar => "unsigned char"
  | short => "short"
  | unsignedShort => "unsigned short"
  | int => "int"
  | unsignedInt => "unsigned int"
  | long => "long"
  | unsignedLong => "unsigned long"
  | longLong => "long long"
  | unsignedLongLong => "unsigned long long"
  | float => "float"
  | double => "double"
  | bool => "_Bool"

end Scalar

/-- The type under the pointer levels; shapes are named by their numbers in a table. -/
inductive Head
  | scalar (s : Scalar)
  | struct (n : Nat)
  /-- A struct that wraps an array of fixed size. -/
  | array (n : Nat)
  /-- A pointer to a function. -/
  | function (n : Nat)
  | typedef (n : Nat)
  deriving DecidableEq, Repr

/-- A C type. -/
structure CType where
  head : Head
  chain : PointerChain := .empty
  deriving DecidableEq, Repr

namespace CType

/-- The type of a scalar. -/
def ofScalar (s : Scalar) : CType :=
  { head := .scalar s }

/-- The type `void`. -/
def void : CType :=
  ofScalar .void

/-- The type `int`. -/
def int : CType :=
  ofScalar .int

/-- Whether the type is `void` itself. -/
def isVoid (ty : CType) : Bool :=
  ty == void

/-- Whether the type has pointer levels. -/
def isPointer (ty : CType) : Bool :=
  !ty.chain.isEmpty

/-- Whether a value of the type is an address: a pointer or a pointer to a function. -/
def isAddress (ty : CType) : Bool :=
  ty.isPointer || match ty.head with
    | .function _ => true
    | _ => false

/-- The pointer to a type, unless the type has the largest number of levels. -/
def pointerTo? (ty : CType) (l : PointerLevel) : Option CType :=
  (ty.chain.push? l).map fun chain => { ty with chain }

/-- The type behind the outermost pointer level, and that level. -/
def pointee? (ty : CType) : Option (CType × PointerLevel) :=
  ty.chain.pop?.map fun (level, chain) => ({ ty with chain }, level)

/-- The number of a struct, for a type without pointer levels. -/
def struct? (ty : CType) : Option Nat :=
  match ty.head with
  | .struct n => if ty.isPointer then none else some n
  | _ => none

/-- The number of an array, for a type without pointer levels. -/
def array? (ty : CType) : Option Nat :=
  match ty.head with
  | .array n => if ty.isPointer then none else some n
  | _ => none

/-- Whether values of the type are written between braces. -/
def isBraced (ty : CType) : Bool :=
  ty.struct?.isSome || ty.array?.isSome

end CType

end CBackend.C
