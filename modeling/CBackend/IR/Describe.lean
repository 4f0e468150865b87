import CBackend.Decimal.Layout
import CBackend.IR.Module
import CBackend.Text.Quoted

/-!
# Descriptions of types, constants and intrinsics

Diagnostics name a type, a constant or an intrinsic by its constructor and fields, on one line.
-/

namespace CBackend.IR

/-- Items between brackets, separated by commas. -/
def describeList (items : List String) : String :=
  "[" ++ ", ".intercalate items ++ "]"

private def described (name : String) (field : String) : String :=
  name ++ "(" ++ field ++ ")"

private def describedFields (name : String) (fields : List (String × String)) : String :=
  name ++ " \x7b " ++ ", ".intercalate (fields.map fun (f, v) => f ++ ": " ++ v) ++ " \x7d"

/-- The largest position marks an identifier that refers to nothing. -/
def invalidIndex : Nat := 4294967295

private def describeIndex (name : String) (index : Nat) : String :=
  if index = invalidIndex then name ++ "::INVALID" else described name (toString index)

/-- The description of a function's position. -/
def FuncId.describe (id : FuncId) : String :=
  describeIndex "FuncId" id.index

/-- The description of an aggregate's position. -/
def AggregateId.describe (id : AggregateId) : String :=
  describeIndex "TypeInfoId" id.index

/-- The description of a scalar type. -/
def Builtin.describe : Builtin → String
  | i8 => "I8"
  | i16 => "I16"
  | i32 => "I32"
  | i64 => "I64"
  | u8 => "U8"
  | u16 => "U16"
  | u32 => "U32"
  | u64 => "U64"
  | f32 => "F32"
  | f64 => "F64"
  | char => "Char"
  | bool => "Bool"

namespace Ty

mutual

/-- The description of a type. -/
def describe : Ty → String
  | void => "Void"
  | builtin kind => described "Builtin" kind.describe
  | str => "Str"
  | aggregate id => described "Aggregate" id.describe
  | enum underlying => describedFields "Enum" [("underlying", underlying.describe)]
  | pointer pointee mutable =>
    describedFields "Pointer" [("pointee", pointee.describe), ("mutable", toString mutable)]
  | reference referenced mutable =>
    describedFields "Reference"
      [("referenced", referenced.describe), ("mutable", toString mutable)]
  | moveReference referenced => described "MoveReference" referenced.describe
  | optional payload => described "Optional" payload.describe
  | array elem size =>
    describedFields "Array" [("elem", elem.describe), ("size", toString size)]
  | slice elem mutable =>
    describedFields "Slice" [("elem", elem.describe), ("mutable", toString mutable)]
  | tuple elems => described "Tuple" (describeList (describeEach elems))
  | function result params =>
    describedFields "Function"
      [("return_type", result.describe), ("params", describeList (describeEach params))]

/-- The descriptions of the types of a list. -/
def describeEach : List Ty → List String
  | [] => []
  | ty :: tys => ty.describe :: describeEach tys

end

end Ty

namespace Const

/-- The words for the floating-point numbers without digits. -/
def floatWords : FloatWords := ⟨"NaN", "inf"⟩

/-- The description of a 32-bit floating-point number. -/
def describeFloat32 (bits : UInt32) : String :=
  FloatFormat.single.write floatWords bits.toNat

/-- The description of a 64-bit floating-point number. -/
def describeFloat64 (bits : UInt64) : String :=
  FloatFormat.double.write floatWords bits.toNat

mutual

/-- The description of a constant. -/
def describe : Const → String
  | sint v => described "Sint" (toString v.toInt)
  | uint v => described "Uint" (toString v.toNat)
  | float32 bits => described "Float32" (describeFloat32 bits)
  | float64 bits => described "Float64" (describeFloat64 bits)
  | char c => described "Char" (Text.quotedChar c)
  | str s => described "Str" (Text.quotedString s)
  | bool b => described "Bool" (toString b)
  | null => "Null"
  | void => "Void"
  | enum v => described "Enum" (toString v.toNat)
  | array vs => described "Array" (describeList (describeEach vs))
  | sintArray vs => described "SintArray" (describeList (vs.map fun v => toString v.toInt))
  | uintArray vs => described "UintArray" (describeList (vs.map fun v => toString v.toNat))
  | float32Array vs => described "Float32Array" (describeList (vs.map describeFloat32))
  | float64Array vs => described "Float64Array" (describeList (vs.map describeFloat64))
  | tuple vs => described "Tuple" (describeList (describeEach vs))
  | aggregate vs => described "Aggregate" (describeList (describeEach vs))
  | function func => described "Function" func.describe

/-- The descriptions of the constants of a list. -/
def describeEach : List Const → List String
  | [] => []
  | v :: vs => v.describe :: describeEach vs

end

end Const

/-- The description of a unary operator. -/
def UnaryOp.describe : UnaryOp → String
  | plus => "Plus"
  | minus => "Minus"
  | dereference => "Dereference"
  | bitNot => "BitNot"
  | boolNot => "BoolNot"
  | increment => "PlusPlus"
  | decrement => "MinusMinus"
  | addressOf => "AddressOf"
  | move => "Move"
  | unsafeMove => "UnsafeMove"

/-- The description of a binary operator. -/
def BinaryOp.describe : BinaryOp → String
  | add => "Add"
  | addAssign => "AddAssign"
  | sub => "Sub"
  | subAssign => "SubAssign"
  | mul => "Mul"
  | mulAssign => "MulAssign"
  | div => "Div"
  | divAssign => "DivAssign"
  | rem => "Rem"
  | remAssign => "RemAssign"
  | eq => "Eq"
  | ne => "Ne"
  | lt => "Lt"
  | le => "Le"
  | gt => "Gt"
  | ge => "Ge"
  | bitAnd => "BitAnd"
  | bitAndAssign => "BitAndAssign"
  | bitXor => "BitXor"
  | bitXorAssign => "BitXorAssign"
  | bitOr => "BitOr"
  | bitOrAssign => "BitOrAssign"
  | shl => "Shl"
  | shlAssign => "ShlAssign"
  | shr => "Shr"
  | shrAssign => "ShrAssign"
  | boolAnd => "BoolAnd"
  | boolXor => "BoolXor"
  | boolOr => "BoolOr"
  | comma => "Comma"

/-- The description of a mathematical function. -/
def MathFn.describe : MathFn → String
  | abs => "Abs"
  | min => "Min"
  | max => "Max"
  | exp => "Exp"
  | exp2 => "Exp2"
  | expm1 => "Expm1"
  | log => "Log"
  | log10 => "Log10"
  | log2 => "Log2"
  | log1p => "Log1p"
  | sqrt => "Sqrt"
  | pow => "Pow"
  | cbrt => "Cbrt"
  | hypot => "Hypot"
  | sin => "Sin"
  | cos => "Cos"
  | tan => "Tan"
  | asin => "Asin"
  | acos => "Acos"
  | atan => "Atan"
  | atan2 => "Atan2"
  | sinh => "Sinh"
  | cosh => "Cosh"
  | tanh => "Tanh"
  | asinh => "Asinh"
  | acosh => "Acosh"
  | atanh => "Atanh"
  | erf => "Erf"
  | erfc => "Erfc"
  | tgamma => "Tgamma"
  | lgamma => "Lgamma"
  | isnan => "Isnan"
  | isinf => "Isinf"
  | isfinite => "Isfinite"

/-- The description of a compile-time intrinsic. -/
def CompileTimeFn.describe : CompileTimeFn → String
  | compileError => "CompileError"
  | compileWarning => "CompileWarning"
  | malloc => "Malloc"
  | free => "Free"
  | print => "Print"
  | createGlobalString => "CreateGlobalString"
  | typeName => "TypeName"
  | isDefaultConstructible => "IsDefaultConstructible"
  | isCopyConstructible => "IsCopyConstructible"
  | isTriviallyCopyConstructible => "IsTriviallyCopyConstructible"
  | isMoveConstructible => "IsMoveConstructible"
  | isTriviallyMoveConstructible => "IsTriviallyMoveConstructible"
  | isTriviallyDestructible => "IsTriviallyDestructible"
  | isTriviallyRelocatable => "IsTriviallyRelocatable"

/-- The description of an intrinsic. -/
def Intrinsic.describe : Intrinsic → String
  | unaryOperator op => described "UnaryOperator" op.describe
  | binaryOperator op => described "BinaryOperator" op.describe
  | strBeginPtr => "StrBeginPtr"
  | strEndPtr => "StrEndPtr"
  | strSize => "StrSize"
  | strFromPtrs => "StrFromPtrs"
  | sliceBeginPtr => "SliceBeginPtr"
  | sliceEndPtr => "SliceEndPtr"
  | sliceSize => "SliceSize"
  | sliceFromPtrs => "SliceFromPtrs"
  | arrayBeginPtr => "ArrayBeginPtr"
  | arrayEndPtr => "ArrayEndPtr"
  | memcpy => "Memcpy"
  | memmove => "Memmove"
  | memset => "Memset"
  | pointerCast => "PointerCast"
  | intToPointer => "IntToPointer"
  | pointerToInt => "PointerToInt"
  | optionalGetValue => "OptionalGetValue"
  | isOptionSet => "IsOptionSet"
  | rangeMake => "RangeMake"
  | rangeBegin => "RangeBegin"
  | rangeEnd => "RangeEnd"
  | rangeSize => "RangeSize"
  | panic => "Panic"
  | isComptime => "IsComptime"
  | trivialSwap => "TrivialSwap"
  | clz => "Clz"
  | ctz => "Ctz"
  | popcount => "Popcount"
  | byteswap => "Byteswap"
  | bitreverse => "Bitreverse"
  | fshl => "Fshl"
  | fshr => "Fshr"
  | math fn => described "Math" fn.describe
  | compileTime fn => described "Comptime" fn.describe

end CBackend.IR
