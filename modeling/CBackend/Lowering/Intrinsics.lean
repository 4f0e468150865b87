import CBackend.Lowering.Operators
import CBackend.Lowering.Plans

/-!
# Intrinsics

A function that the compiler provides becomes an operator, a call of a library function or of a
compiler builtin, or a few lines. The functions that are evaluated before code generation must not
occur.
-/

namespace CBackend.Lowering

open IR
open C (CType)

/-- The suffix of the counting builtins for operands of a width, and the width that they count
in. -/
def builtinSuffix (width : Nat) : String × Nat :=
  if width ≤ 32 then ("", 32) else ("ll", 64)

/-- The only argument of an intrinsic that takes one. -/
def oneArgument (intrinsic : Intrinsic) : List ExprId → Except Fault ExprId
  | [a] => .ok a
  | args => .error (.argumentCount intrinsic 1 args.length)

/-- The arguments of an intrinsic that takes two. -/
def twoArguments (intrinsic : Intrinsic) : List ExprId → Except Fault (ExprId × ExprId)
  | [a, b] => .ok (a, b)
  | args => .error (.argumentCount intrinsic 2 args.length)

/-- The arguments of an intrinsic that takes three. -/
def threeArguments (intrinsic : Intrinsic) : List ExprId → Except Fault (ExprId × ExprId × ExprId)
  | [a, b, c] => .ok (a, b, c)
  | args => .error (.argumentCount intrinsic 3 args.length)

/-- A conditional on a value being zero. -/
def ifZero (v whenZero otherwise : C.Expr) : C.Expr :=
  .conditional (.binary "==" v (.nat 0)) whenZero otherwise

section

variable (m : Module) (w : Walk)

/-! ### Arguments -/

/-- Evaluates arguments from left to right, each kept from the effects of the later ones. -/
def intrinsicValues : List ExprId → Emit (List Value)
  | [] => pure []
  | arg :: later => do
    let value ← w.expr arg none
    let value ← stabilizeUnless (← allSimple m later) value
    let rest ← intrinsicValues later
    pure (value :: rest)

/-- Evaluates the only argument of an intrinsic that takes one. -/
def intrinsicValue (intrinsic : Intrinsic) (args : List ExprId) : Emit Value := do
  let arg ← oneArgument intrinsic args
  match ← intrinsicValues m w [arg] with
  | [value] => pure value
  | _ => throw .valueCountMismatch

/-- The integer type of an operand. -/
def integerKind (operand : ExprId) : Except Fault Builtin := do
  let ty := (← exprTy m operand).stripReference
  match ty.builtinKind? with
  | some kind => if kind.isInteger then pure kind else throw (.bitOperationOn ty)
  | none => throw (.bitOperationOn ty)

/-- The operand as an unsigned number of its width, in a fresh local variable, and that width. -/
def unsignedOperand (operand : ExprId) : Emit (Nat × Value) := do
  let kind ← integerKind m operand
  let value ← w.expr operand none
  let value ←
    if kind.isUnsigned then pure value
    else
      match Builtin.unsigned? kind.bitWidth with
      | some unsigned => do Emit.cast value (← Emit.builtin unsigned)
      | none => throw (.noIntegerOfWidth kind.bitWidth)
  pure (kind.bitWidth, ← Emit.copyToLocal value)

/-- The distance of the two pointers or numbers in a struct, converted to the result type. -/
def memberDistance (value : Value) (ty : Ty) : Emit Value := do
  let value ← Emit.materialize value
  let first ← Emit.member value 0
  let last ← Emit.member value 1
  let distance ← last.binary "-" first .additive
  let ty ← valueType m ty
  let difference ← Emit.rvalue distance ty .additive
  Emit.cast difference ty

/-- A call of a library function: a statement if it yields nothing, and otherwise a fresh local
variable. -/
def libraryCall (name : String) (values : List Value) (ty : Ty) : Emit Value := do
  let args ← values.mapM (·.asInitializer)
  let call := C.Expr.call (.symbol name) args
  if ty.isVoid then
    Emit.statement call
    pure .none
  else
    Emit.declareWith (← valueType m ty) call

/-- A call of a function of the string library. -/
def memoryCall (name : String) (args : List ExprId) (ty : Ty) : Emit Value := do
  let values ← intrinsicValues m w args
  Emit.addInclude "string.h"
  libraryCall m name values ty

/-! ### Bits -/

/-- The builtin that counts bits, with the number to be taken off because it counts in a wider
type. -/
inductive BitCounter
  | leadingZeros
  | trailingZeros
  | ones

/-- The expression that counts bits of an unsigned number. The builtins are undefined at zero, which
has as many leading and trailing zeros as bits. -/
def bitCountExpr (counter : BitCounter) (width : Nat) (v : C.Expr) : C.Expr × C.Precedence :=
  let (ending, promoted) := builtinSuffix width
  let builtin (name : String) := C.Expr.call (.symbol ("__builtin_" ++ name ++ ending)) [v]
  match counter with
  | .leadingZeros =>
    let count := builtin "clz"
    let count := if width < promoted then .binary "-" count (.nat (promoted - width)) else count
    (ifZero v (.nat width) count, .assignment)
  | .trailingZeros => (ifZero v (.nat width) (builtin "ctz"), .assignment)
  | .ones => (builtin "popcount", .suffix)

/-- Counts bits of an operand. -/
def bitCount (counter : BitCounter) (operand : ExprId) (ty : Ty) : Emit Value := do
  let (width, value) ← unsignedOperand m w operand
  let (e, p) := bitCountExpr counter width (← value.render)
  Emit.rvalue e (← valueType m ty) p

/-- Reverses the bytes of an operand. -/
def byteSwap (operand : ExprId) (ty : Ty) : Emit Value := do
  let (width, value) ← unsignedOperand m w operand
  let ty ← valueType m ty
  if width = 8 then Emit.cast value ty
  else
    Emit.rvalue (.call (.symbol s!"__builtin_bswap{width}") [← value.render]) ty .suffix

/-- The result of a bit reversal with one more bit shifted in. -/
def shiftedIn (unsigned : CType) (result value : C.Expr) : C.Expr :=
  .cast unsigned (.paren (.binary "|" (.paren (.binary "<<" result (.nat 1)))
    (.paren (.binary "&" value (.literal (.unsigned 1))))))

/-- The operand of a bit reversal with one bit shifted out. -/
def shiftedOut (unsigned : CType) (value : C.Expr) : C.Expr :=
  .cast unsigned (.paren (.binary ">>" value (.nat 1)))

/-- Reverses the bits of an operand, one in each round of a loop. -/
def bitReverse (operand : ExprId) (ty : Ty) : Emit Value := do
  let (width, value) ← unsignedOperand m w operand
  let unsigned := value.ty
  let result ← Emit.copyToLocal (← Emit.zeroValue unsigned)
  let index ← Emit.beginIndexLoop width
  let r ← result.render
  let v ← value.render
  Emit.assign result (← Emit.rvalue (shiftedIn unsigned r v) unsigned .unary)
  Emit.assign value (← Emit.rvalue (shiftedOut unsigned v) unsigned .unary)
  Emit.endIndexLoop index
  let ty ← valueType m ty
  if ty == unsigned then pure result else Emit.cast result ty

/-- The funnel shift of `a` and `b` by an amount below the width. A shift by zero is one of the
operands, since C does not define a shift by the whole width. -/
def funnelShiftExpr (isLeft : Bool) (unsigned : CType) (width : Nat) (a b s : C.Expr) : C.Expr :=
  let rest := C.Expr.paren (.binary "-" (.nat width) s)
  let combine (x y : C.Expr) := C.Expr.cast unsigned (.paren (.binary "|" (.paren x) (.paren y)))
  if isLeft then ifZero s a (combine (.binary "<<" a s) (.binary ">>" b rest))
  else ifZero s b (combine (.binary "<<" a rest) (.binary ">>" b s))

/-- Shifts the concatenation of two operands by an amount modulo their width. -/
def funnelShift (isLeft : Bool) (lhs rhs shift : ExprId) (ty : Ty) : Emit Value := do
  let (width, lhs) ← unsignedOperand m w lhs
  let (_, rhs) ← unsignedOperand m w rhs
  let (_, shift) ← unsignedOperand m w shift
  let modulus ← Emit.integer shift.ty width
  Emit.assignWith shift modulus "%="
  let e := funnelShiftExpr isLeft lhs.ty width (← lhs.render) (← rhs.render) (← shift.render)
  Emit.rvalue e (← valueType m ty) .assignment

/-! ### Mathematics -/

/-- A mathematical function of integers, whose operands are read twice. -/
def integerMathExpr (fn : MathFn) (operands : List C.Expr) : Except Fault C.Expr :=
  match fn, operands with
  | .abs, [v] => .ok (.conditional (.binary "<" v (.nat 0)) (.before "-" v) v)
  | .min, [a, b] => .ok (.conditional (.binary "<" a b) a b)
  | .max, [a, b] => .ok (.conditional (.binary ">" a b) a b)
  | fn, _ => .error (.mathOnIntegers fn)

/-- The name of the library function for a precision. -/
def libraryName (fn : MathFn) (kind : Builtin) : String :=
  if kind == .f32 && !fn.isClassification then fn.cName ++ "f" else fn.cName

/-- A call of a mathematical function. -/
def mathCall (fn : MathFn) (args : List ExprId) (ty : Ty) : Emit Value := do
  match args with
  | [] => throw (.mathWithoutArguments fn)
  | first :: _ =>
    match (← exprTy m first).stripReference with
    | .builtin kind =>
      let values ← intrinsicValues m w args
      if kind.isFloat then
        Emit.addInclude "math.h"
        libraryCall m (libraryName fn kind) values ty
      else
        let values ← values.mapM fun v => if v.isVariable then pure v else Emit.copyToLocal v
        let ty ← valueType m ty
        let e ← integerMathExpr fn (← operandsOf fn values)
        Emit.rvalue e ty .assignment
    | other => throw (.mathOnType fn other)
where
  operandsOf (fn : MathFn) (values : List Value) : Except Fault (List C.Expr) :=
    match fn, values with
    | .abs, [_] | .min, [_, _] | .max, [_, _] => values.mapM (·.render)
    | fn, _ => .error (.mathOnIntegers fn)

/-! ### Dispatch -/

/-- The type of the optional that an argument is or refers to, and the argument's value. -/
def optionalOperand (optional : ExprId) : Emit (Ty × Value) := do
  let ty := (← exprTy m optional).stripReference
  let value ← Emit.materialize (← w.expr optional none)
  pure (ty, value)

/-- A call of an intrinsic whose result has the given type. -/
def intrinsicCall (intrinsic : Intrinsic) (args : List ExprId) (ty : Ty) (dest : Option Value) :
    Emit Value := do
  match intrinsic with
  | .unaryOperator op => unary m w op (← oneArgument intrinsic args) ty
  | .binaryOperator op =>
    let (lhs, rhs) ← twoArguments intrinsic args
    binary m w op lhs rhs ty dest
  | .strBeginPtr | .sliceBeginPtr | .rangeBegin =>
    let value ← Emit.materialize (← intrinsicValue m w intrinsic args)
    Emit.member value 0
  | .strEndPtr | .sliceEndPtr | .rangeEnd =>
    let value ← Emit.materialize (← intrinsicValue m w intrinsic args)
    Emit.member value 1
  | .strSize | .sliceSize | .rangeSize =>
    memberDistance m (← intrinsicValue m w intrinsic args) ty
  | .strFromPtrs | .sliceFromPtrs | .rangeMake =>
    let values ← intrinsicValues m w args
    Emit.structLiteral (← valueType m ty) values
  | .arrayBeginPtr =>
    let array ← Emit.materialize (← intrinsicValue m w intrinsic args)
    Emit.arrayData array
  | .arrayEndPtr =>
    let array ← Emit.materialize (← intrinsicValue m w intrinsic args)
    let first ← Emit.arrayData array
    let shape ← Emit.arrayShape array.ty
    let size ← Emit.integer (← Emit.sizeType) shape.size
    Emit.rvalue (← first.binary "+" size .additive) first.ty .additive
  | .memcpy => memoryCall m w "memcpy" args ty
  | .memmove => memoryCall m w "memmove" args ty
  | .memset => memoryCall m w "memset" args ty
  | .pointerCast | .intToPointer | .pointerToInt =>
    let value ← intrinsicValue m w intrinsic args
    Emit.cast value (← valueType m ty)
  | .optionalGetValue =>
    let (optionalTy, value) ← optionalOperand m w (← oneArgument intrinsic args)
    checkHasValue m value optionalTy
    optionalValue value optionalTy
  | .isOptionSet =>
    let (optionalTy, value) ← optionalOperand m w (← oneArgument intrinsic args)
    optionalHasValue value optionalTy
  | .panic =>
    Emit.panicWith (← intrinsicValue m w intrinsic args)
    pure .none
  | .isComptime => Emit.integer (← valueType m ty) 0
  | .trivialSwap =>
    let (lhs, rhs) ← twoArguments intrinsic args
    trivialSwap m w lhs rhs
    pure .none
  | .clz => bitCount m w .leadingZeros (← oneArgument intrinsic args) ty
  | .ctz => bitCount m w .trailingZeros (← oneArgument intrinsic args) ty
  | .popcount => bitCount m w .ones (← oneArgument intrinsic args) ty
  | .byteswap => byteSwap m w (← oneArgument intrinsic args) ty
  | .bitreverse => bitReverse m w (← oneArgument intrinsic args) ty
  | .fshl =>
    let (lhs, rhs, shift) ← threeArguments intrinsic args
    funnelShift m w true lhs rhs shift ty
  | .fshr =>
    let (lhs, rhs, shift) ← threeArguments intrinsic args
    funnelShift m w false lhs rhs shift ty
  | .math fn => mathCall m w fn args ty
  | .compileTime fn => throw (.compileTimeOnly fn)

end

end CBackend.Lowering
