import CBackend.IR.Ty

/-!
# Constants

The values that are known before code generation. Floating-point numbers are kept as the bits of
their IEEE representation. Arrays of one kind of number are kept flat, in row-major order, also
where the array type is nested.
-/

namespace CBackend.IR

/-- A constant value. -/
inductive Const
  | sint (value : Int64)
  | uint (value : UInt64)
  | float32 (bits : UInt32)
  | float64 (bits : UInt64)
  | char (value : Char)
  | str (value : String)
  | bool (value : Bool)
  /-- The empty optional. -/
  | null
  | void
  /-- The bits of an enumerator, to be read through the underlying integer of its type. -/
  | enum (value : UInt64)
  | array (values : List Const)
  | sintArray (values : List Int64)
  | uintArray (values : List UInt64)
  | float32Array (bits : List UInt32)
  | float64Array (bits : List UInt64)
  | tuple (values : List Const)
  | aggregate (values : List Const)
  /-- The address of a function. -/
  | function (func : FuncId)

namespace Const

mutual

/-- Whether every byte of the value is zero. Floating-point numbers are compared by their bits, so
that a negative zero is not zero. -/
def isZero : Const → Bool
  | sint v => v == 0
  | uint v | enum v => v == 0
  | float32 bits => bits == 0
  | float64 bits => bits == 0
  | char c => c.toNat == 0
  | str s => s.isEmpty
  | bool b => !b
  | null | void => true
  | array vs | tuple vs | aggregate vs => allZero vs
  | sintArray vs => vs.all (· == 0)
  | uintArray vs => vs.all (· == 0)
  | float32Array vs => vs.all (· == 0)
  | float64Array vs => vs.all (· == 0)
  | function _ => false

/-- Whether every value of a list is zero. -/
def allZero : List Const → Bool
  | [] => true
  | v :: vs => v.isZero && allZero vs

end

end Const

end CBackend.IR
