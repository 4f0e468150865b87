/-!
# Operators and compiler-provided functions

The built-in operators of source expressions and the closed set of functions that have no body
because the compiler provides them. The width of an operand is read from the type of an argument,
not from the function.
-/

namespace CBackend.IR

/-- The built-in unary operators. -/
inductive UnaryOp
  | plus
  | minus
  | dereference
  | bitNot
  | boolNot
  | increment
  | decrement
  | addressOf
  | move
  | unsafeMove
  deriving DecidableEq, Repr

/-- The built-in binary operators. -/
inductive BinaryOp
  | add
  | addAssign
  | sub
  | subAssign
  | mul
  | mulAssign
  | div
  | divAssign
  | rem
  | remAssign
  | eq
  | ne
  | lt
  | le
  | gt
  | ge
  | bitAnd
  | bitAndAssign
  | bitXor
  | bitXorAssign
  | bitOr
  | bitOrAssign
  | shl
  | shlAssign
  | shr
  | shrAssign
  | boolAnd
  | boolXor
  | boolOr
  | comma
  deriving DecidableEq, Repr

/-- Every unary operator. -/
def UnaryOp.all : List UnaryOp :=
  [plus, minus, dereference, bitNot, boolNot, increment, decrement, addressOf, move, unsafeMove]

namespace BinaryOp

/-- Every binary operator. -/
def all : List BinaryOp :=
  [add, addAssign, sub, subAssign, mul, mulAssign, div, divAssign, rem, remAssign, eq, ne, lt, le,
    gt, ge, bitAnd, bitAndAssign, bitXor, bitXorAssign, bitOr, bitOrAssign, shl, shlAssign, shr,
    shrAssign, boolAnd, boolXor, boolOr, comma]

/-- Whether the operator modifies its left operand and yields it. -/
def isCompoundAssign : BinaryOp → Bool
  | addAssign | subAssign | mulAssign | divAssign | remAssign | bitAndAssign | bitXorAssign
  | bitOrAssign | shlAssign | shrAssign => true
  | _ => false

end BinaryOp

/-- The mathematical functions. -/
inductive MathFn
  | abs
  | min
  | max
  | exp
  | exp2
  | expm1
  | log
  | log10
  | log2
  | log1p
  | sqrt
  | pow
  | cbrt
  | hypot
  | sin
  | cos
  | tan
  | asin
  | acos
  | atan
  | atan2
  | sinh
  | cosh
  | tanh
  | asinh
  | acosh
  | atanh
  | erf
  | erfc
  | tgamma
  | lgamma
  | isnan
  | isinf
  | isfinite
  deriving DecidableEq, Repr

namespace MathFn

/-- Every mathematical function. -/
def all : List MathFn :=
  [abs, min, max, exp, exp2, expm1, log, log10, log2, log1p, sqrt, pow, cbrt, hypot, sin, cos, tan,
    asin, acos, atan, atan2, sinh, cosh, tanh, asinh, acosh, atanh, erf, erfc, tgamma, lgamma,
    isnan, isinf, isfinite]

/-- The name of the double-precision function of the C mathematics library. -/
def cName : MathFn → String
  | abs => "fabs"
  | min => "fmin"
  | max => "fmax"
  | exp => "exp"
  | exp2 => "exp2"
  | expm1 => "expm1"
  | log => "log"
  | log10 => "log10"
  | log2 => "log2"
  | log1p => "log1p"
  | sqrt => "sqrt"
  | pow => "pow"
  | cbrt => "cbrt"
  | hypot => "hypot"
  | sin => "sin"
  | cos => "cos"
  | tan => "tan"
  | asin => "asin"
  | acos => "acos"
  | atan => "atan"
  | atan2 => "atan2"
  | sinh => "sinh"
  | cosh => "cosh"
  | tanh => "tanh"
  | asinh => "asinh"
  | acosh => "acosh"
  | atanh => "atanh"
  | erf => "erf"
  | erfc => "erfc"
  | tgamma => "tgamma"
  | lgamma => "lgamma"
  | isnan => "isnan"
  | isinf => "isinf"
  | isfinite => "isfinite"

/-- Whether the function classifies a number; C spells these alike for every precision. -/
def isClassification : MathFn → Bool
  | isnan | isinf | isfinite => true
  | _ => false

end MathFn

/-- The intrinsics that are evaluated before code generation and never survive it. -/
inductive CompileTimeFn
  | compileError
  | compileWarning
  | malloc
  | free
  | print
  | createGlobalString
  | typeName
  | isDefaultConstructible
  | isCopyConstructible
  | isTriviallyCopyConstructible
  | isMoveConstructible
  | isTriviallyMoveConstructible
  | isTriviallyDestructible
  | isTriviallyRelocatable
  deriving DecidableEq, Repr

/-- Every function that is evaluated before code generation. -/
def CompileTimeFn.all : List CompileTimeFn :=
  [compileError, compileWarning, malloc, free, print, createGlobalString, typeName,
    isDefaultConstructible, isCopyConstructible, isTriviallyCopyConstructible, isMoveConstructible,
    isTriviallyMoveConstructible, isTriviallyDestructible, isTriviallyRelocatable]

/-- The functions that the compiler provides. -/
inductive Intrinsic
  | unaryOperator (op : UnaryOp)
  | binaryOperator (op : BinaryOp)
  | strBeginPtr
  | strEndPtr
  | strSize
  | strFromPtrs
  | sliceBeginPtr
  | sliceEndPtr
  | sliceSize
  | sliceFromPtrs
  | arrayBeginPtr
  | arrayEndPtr
  | memcpy
  | memmove
  | memset
  | pointerCast
  | intToPointer
  | pointerToInt
  | optionalGetValue
  | isOptionSet
  | rangeMake
  | rangeBegin
  | rangeEnd
  | rangeSize
  | panic
  | isComptime
  | trivialSwap
  | clz
  | ctz
  | popcount
  | byteswap
  | bitreverse
  | fshl
  | fshr
  | math (fn : MathFn)
  | compileTime (fn : CompileTimeFn)
  deriving DecidableEq, Repr

namespace Intrinsic

/-- Every intrinsic that does not stand for a whole family. -/
def single : List Intrinsic :=
  [strBeginPtr, strEndPtr, strSize, strFromPtrs, sliceBeginPtr, sliceEndPtr, sliceSize,
    sliceFromPtrs, arrayBeginPtr, arrayEndPtr, memcpy, memmove, memset, pointerCast, intToPointer,
    pointerToInt, optionalGetValue, isOptionSet, rangeMake, rangeBegin, rangeEnd, rangeSize, panic,
    isComptime, trivialSwap, clz, ctz, popcount, byteswap, bitreverse, fshl, fshr]

/-- Every intrinsic. -/
def all : List Intrinsic :=
  UnaryOp.all.map unaryOperator ++ BinaryOp.all.map binaryOperator ++ single ++
    MathFn.all.map math ++ CompileTimeFn.all.map compileTime

end Intrinsic

end CBackend.IR
