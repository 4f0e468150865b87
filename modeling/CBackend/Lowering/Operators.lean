import CBackend.Lowering.Operands

/-!
# Operators and conversions

Built-in operators and the conversions between types. The operands of an operator are evaluated from
left to right; an assigning operator evaluates its right operand first.
-/

namespace CBackend.Lowering

open IR
open C (CType Precedence)

/-- The C operator, with its precedence, of a source operator that only computes. -/
def plainOperator? : BinaryOp → Option (String × Precedence)
  | .add => some ("+", .additive)
  | .sub => some ("-", .additive)
  | .mul => some ("*", .multiplicative)
  | .div => some ("/", .multiplicative)
  | .rem => some ("%", .multiplicative)
  | .eq => some ("==", .equality)
  | .ne | .boolXor => some ("!=", .equality)
  | .lt => some ("<", .relational)
  | .le => some ("<=", .relational)
  | .gt => some (">", .relational)
  | .ge => some (">=", .relational)
  | .bitAnd => some ("&", .bitAnd)
  | .bitXor => some ("^", .bitXor)
  | .bitOr => some ("|", .bitOr)
  | .shl => some ("<<", .shift)
  | .shr => some (">>", .shift)
  | _ => none

/-- The C operator of a source operator that modifies its left operand. -/
def compoundOperator? : BinaryOp → Option String
  | .addAssign => some "+="
  | .subAssign => some "-="
  | .mulAssign => some "*="
  | .divAssign => some "/="
  | .remAssign => some "%="
  | .bitAndAssign => some "&="
  | .bitXorAssign => some "^="
  | .bitOrAssign => some "|="
  | .shlAssign => some "<<="
  | .shrAssign => some ">>="
  | _ => none

section

variable (m : Module) (w : Walk)

/-- A unary operator whose result has the given type. -/
def unary (op : UnaryOp) (operand : ExprId) (ty : Ty) : Emit Value := do
  let value ← w.expr operand none
  match op with
  | .plus => Emit.materialize value
  | .minus => Emit.unaryOperation value "-" (← valueType m ty)
  | .bitNot => Emit.unaryOperation value "~" (← valueType m ty)
  | .boolNot => Emit.unaryOperation value "!" (← valueType m ty)
  | .dereference =>
    -- what the pointer points to may only have been declared so far
    discard <| valueType m ty
    Emit.dereference value
  | .addressOf => Emit.addressOf value
  | .increment =>
    Emit.increment value "++"
    pure value
  | .decrement =>
    Emit.increment value "--"
    pure value
  | .move | .unsafeMove => pure value

/-- A conjunction or disjunction: the right operand is evaluated in a branch of its own. -/
def shortCircuit (isAnd : Bool) (lhs rhs : ExprId) : Emit Value := do
  let result ← Emit.copyToLocal (← w.expr lhs none)
  if isAnd then Emit.beginIf result else Emit.beginIfNot result
  let mark ← Emit.scopeMark
  let rhs ← w.expr rhs none
  Emit.assign result rhs
  w.closeScope mark
  Emit.endIf
  pure result

/-- An operator that modifies its left operand and yields it. -/
def compoundAssign (op : BinaryOp) (lhs rhs : ExprId) : Emit Value := do
  let value ← w.expr rhs none
  let value ← stabilizeUnless (← isSimple m lhs) value
  let lhs ← w.expr lhs none
  match compoundOperator? op with
  | some cOp =>
    Emit.assignWith lhs value cOp
    pure lhs
  | none => throw (.noCompoundOperator op)

/-- An operator that only computes; the result goes to a fresh local variable. -/
def plainBinary (op : BinaryOp) (lhs rhs : ExprId) (ty : Ty) : Emit Value := do
  match plainOperator? op with
  | some (cOp, p) =>
    let lhs ← w.expr lhs none
    let lhs ← stabilizeUnless (← isSimple m rhs) lhs
    let rhs ← w.expr rhs none
    Emit.binaryOperation lhs rhs cOp p (← valueType m ty)
  | none => throw (.noPlainOperator op)

/-- A binary operator whose result has the given type. -/
def binary (op : BinaryOp) (lhs rhs : ExprId) (ty : Ty) (dest : Option Value) : Emit Value := do
  match op with
  | .comma =>
    discard <| w.expr lhs none
    w.expr rhs dest
  | .boolAnd => shortCircuit w true lhs rhs
  | .boolOr => shortCircuit w false lhs rhs
  | op =>
    if op.isCompoundAssign then compoundAssign m w op lhs rhs
    else plainBinary m w op lhs rhs ty

/-! ### Conversions -/

/-- The pair of pointers to the first element of an array and past its last one. -/
def arrayBounds (array : Value) (size : Nat) : Emit (Value × Value) := do
  let first ← Emit.arrayData array
  let count ← Emit.integer (← Emit.sizeType) size
  let past ← first.binary "+" count .additive
  pure (first, ← Emit.rvalue past first.ty .additive)

/-- Whether a type is a slice. -/
def isSlice : Ty → Bool
  | .slice .. => true
  | _ => false

/-- A numeric or pointer conversion, or the view of an array or a slice. -/
def castTo (inner : ExprId) (target : Ty) : Emit Value := do
  let source ← exprTy m inner
  let value ← w.expr inner none
  let ty ← valueType m target
  match source, isSlice target with
  | .array _ size, true =>
    let value ← Emit.materialize value
    let (first, past) ← arrayBounds value size
    Emit.structLiteral ty [first, past]
  | source, targetIsSlice =>
    if value.ty == ty then pure value
    else if isSlice source && targetIsSlice then
      let value ← Emit.materialize value
      let first ← Emit.member value 0
      let past ← Emit.member value 1
      Emit.structLiteral ty [first, past]
    else Emit.cast value ty

/-- Reads the bytes of a value as another type. -/
def bitCast (inner : ExprId) (target : Ty) (dest : Option Value) : Emit Value := do
  let value ← w.expr inner none
  let ty ← valueType m target
  if value.ty.isAddress && ty.isAddress then
    Emit.cast value ty
  else
    let value ← Emit.materialize value
    let result ← match dest with
      | some dest => pure dest
      | none => Emit.declareLocal ty
    Emit.addInclude "string.h"
    Emit.statement (.call (.symbol "memcpy") [← result.address, ← value.address, .sizeOf ty])
    pure result

/-- Wraps a value into an optional. -/
def optionalCast (inner : ExprId) (target : Ty) (dest : Option Value) : Emit Value := do
  if target.isOptionalReference then
    Emit.addressOf (← w.expr inner none)
  else if target.isOptionalPointerLike then
    w.expr inner dest
  else
    let result ← resultStorage m dest target
    let payload ← Emit.member result 0
    discard <| w.expr inner (some payload)
    setHasValue result true
    pure result

end

end CBackend.Lowering
