import CBackend.Lowering.Scopes

/-!
# Operands

How operands are kept from changing. An operand that is evaluated before another one is put into a
local variable, or is reached through a pointer in one, unless evaluating the later operand can
neither have an effect nor see one.
-/

namespace CBackend.Lowering

open IR
open C (CType)

section

variable (m : Module)

/-- The expression at a position. -/
def exprAt (id : ExprId) : Except Fault Expr :=
  inRange (m.expr? id)

/-- The type of the expression at a position. -/
def exprTy (id : ExprId) : Except Fault Ty := do
  pure (← exprAt m id).ty

/-- Whether evaluating an expression can neither have an effect nor see one. The number bounds how
many conversions may be nested. -/
def isSimpleWithin : Nat → ExprId → Except Fault Bool
  | 0, _ => .error .tooDeep
  | depth + 1, id => do
    match (← exprAt m id).kind with
    | .constant _ | .variableRef _ | .functionRef _ | .valueReference _ => pure true
    | .trivialCopyConstruct inner | .trivialRelocate inner | .takeReference inner
    | .unary .move inner | .unary .unsafeMove inner => isSimpleWithin depth inner
    | _ => pure false

/-- Whether evaluating an expression can neither have an effect nor see one. -/
def isSimple (id : ExprId) : Except Fault Bool :=
  isSimpleWithin m (m.exprs.size + 1) id

/-- Whether every expression of a list is simple. -/
def allSimple : List ExprId → Except Fault Bool
  | [] => .ok true
  | id :: ids => do
    if ← isSimple m id then allSimple ids else pure false

/-- The destination, or a fresh local variable of a type. -/
def resultStorage (dest : Option Value) (ty : Ty) : Emit Value :=
  match dest with
  | some dest => pure dest
  | none => do Emit.declareLocal (← valueType m ty)

/-- Defines the type of an expression, before its members are used. -/
def completeTypeOf (id : ExprId) : Emit Unit := do
  discard <| valueType m (← exprTy m id)

/-- A value that later effects cannot change. -/
def stabilize (v : Value) : Emit Value :=
  if v.isNone || v.isConstant then pure v else Emit.copyToLocal v

/-- The value as it is if nothing follows that could change it, or a stable one. -/
def stabilizeUnless (isSafe : Bool) (v : Value) : Emit Value :=
  if isSafe then pure v else stabilize v

/-- The type of a member of a struct-like type. -/
def memberTy (ty : Ty) (index : Nat) : Except Fault Ty :=
  match ty with
  | .aggregate id => do
    let aggregate ← inRange (m.aggregate? id)
    inRange aggregate.members[index]?
  | .tuple elems => inRange elems[index]?
  | .optional payload => .ok (if index = 0 then payload else .builtin .bool)
  | .str => .ok (.pointer (.builtin .u8) false)
  | .slice elem mutable => .ok (.pointer elem mutable)
  | ty => .error (.noMembers ty)

/-- A member of a value; of a member that is a reference, what it refers to. -/
def memberValue (base : Value) (baseTy : Ty) (index : Nat) : Emit Value := do
  let member ← Emit.member base index
  if (← memberTy m baseTy index).isAnyReference then Emit.dereference member else pure member

/-! ### Optionals -/

/-- The flag of an optional, or whether its address is not null. -/
def optionalHasValue (optional : Value) (ty : Ty) : Emit Value := do
  if ty.isOptionalPointerLike then
    let null ← Emit.rvalue (.nat 0) optional.ty .atom
    let differs ← optional.binary "!=" null .equality
    Emit.rvalue differs (← Emit.boolType) .equality
  else
    Emit.member optional 1

/-- The payload of an optional; of an optional reference, what it refers to. -/
def optionalValue (optional : Value) (ty : Ty) : Emit Value :=
  if ty.isOptionalReference then Emit.dereference optional
  else if ty.isOptionalPointerLike then pure optional
  else Emit.member optional 0

/-- Sets the flag of an optional. -/
def setHasValue (optional : Value) (hasValue : Bool) : Emit Unit := do
  let flag ← Emit.member optional 1
  let value ← Emit.integer (← Emit.boolType) hasValue.toNat
  Emit.assign flag value

/-- Aborts unless an optional holds a value. -/
def checkHasValue (optional : Value) (ty : Ty) : Emit Unit := do
  let hasValue ← optionalHasValue optional ty
  Emit.beginIfNot hasValue
  Emit.panicWith (← stringValue m "get_value called on a null optional")
  Emit.endIf

end

section

variable (m : Module) (w : Walk)

/-- Evaluates an operand that has to stay addressable while a later one is evaluated. -/
def place (id later : ExprId) : Emit Value := do
  let value ← Emit.materialize (← w.expr id none)
  if value.isVariable then pure value
  else if ← isSimple m later then pure value
  else Emit.dereference (← Emit.addressOf value)

/-- Evaluates two operands in order, both of which have to be addressable afterwards. -/
def operandPair (first second : ExprId) : Emit (Value × Value) := do
  completeTypeOf m first
  let first ← place m w first second
  let second ← Emit.materialize (← w.expr second none)
  pure (first, second)

end

end CBackend.Lowering
