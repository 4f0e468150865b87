import CBackend.Lowering.Operands

/-!
# Element-wise plans

Copies, moves, destructions, swaps and assignments of compound values. The module says what is done
to each element; lowering binds the elements and lowers that expression. Swaps of an object with
itself and assignments from existing storage are guarded by a comparison of addresses, so that the
elements of a plan are never the same object.
-/

namespace CBackend.Lowering

open IR

/-- Writes lines under the condition that two values are not the same object, if asked for. -/
def guarded (guard : Bool) (lhs rhs : Value) (body : Emit Unit) : Emit Unit := do
  if guard then
    Emit.beginIfDistinct lhs rhs
    body
    Emit.endIf
  else
    body

/-- Swaps the bytes of two values through a temporary. -/
def swapBytes (lhs rhs : Value) : Emit Unit :=
  guarded true lhs rhs do
    let temp ← Emit.copyToLocal lhs
    Emit.assign lhs rhs
    Emit.assign rhs temp

/-- A copy of the bytes of a value, in the destination or in a fresh local variable. -/
def copyBytes (v : Value) (dest : Option Value) : Emit Value :=
  match dest with
  | some dest => do
    Emit.assign dest v
    pure dest
  | none => if v.isRvalue then pure v else Emit.copyToLocal v

section

variable (m : Module) (w : Walk)

/-- Whether an expression denotes existing storage. -/
def isStorage (id : ExprId) : Except Fault Bool := do
  pure ((← exprAt m id).category == .lvalue)

/-! ### Construction -/

/-- Whether a construction has to be skipped if source and destination are the same object. -/
def needsCopyGuard (source : ExprId) (dest : Option Value) (isCopy : Bool) : Except Fault Bool :=
  if isCopy && dest.isSome then isStorage m source else .ok false

/-- Constructs an aggregate or a tuple, member by member. -/
def aggregateConstruct (source : ExprId) (memberExprs : List ExprId) (ty : Ty)
    (dest : Option Value) (isCopy : Bool) : Emit Value := do
  let guard ← needsCopyGuard m source dest isCopy
  let source ← Emit.materialize (← w.expr source none)
  let result ← resultStorage m dest ty
  guarded guard result source do
    memberExprs.zipIdx.forM fun (memberExpr, i) => do
      let sourceMember ← Emit.member source i
      let resultMember ← Emit.member result i
      w.withBound [sourceMember] memberExpr (some resultMember)
  pure result

/-- Constructs an array, element by element. -/
def arrayConstruct (source elemExpr : ExprId) (ty : Ty) (dest : Option Value) (isCopy : Bool) :
    Emit Value := do
  let guard ← needsCopyGuard m source dest isCopy
  let source ← Emit.materialize (← w.expr source none)
  let result ← resultStorage m dest ty
  guarded guard result source do
    let shape ← Emit.arrayShape result.ty
    let index ← Emit.beginIndexLoop shape.size
    let sourceElem ← Emit.element source index
    let resultElem ← Emit.element result index
    w.withBound [sourceElem] elemExpr (some resultElem)
    Emit.endIndexLoop index
  pure result

/-- Constructs an optional: its flag, and its payload if the flag is set. -/
def optionalConstruct (source valueExpr : ExprId) (ty : Ty) (dest : Option Value)
    (isCopy : Bool) : Emit Value := do
  if ty.isOptionalPointerLike then
    copyBytes (← w.expr source none) dest
  else
    let guard ← needsCopyGuard m source dest isCopy
    let source ← Emit.materialize (← w.expr source none)
    let result ← resultStorage m dest ty
    guarded guard result source do
      let sourceHasValue ← optionalHasValue source ty
      let resultHasValue ← optionalHasValue result ty
      Emit.assign resultHasValue sourceHasValue
      Emit.beginIf sourceHasValue
      let sourceValue ← optionalValue source ty
      let resultValue ← optionalValue result ty
      w.withBound [sourceValue] valueExpr (some resultValue)
      Emit.endIf
    pure result

/-! ### Destruction -/

/-- Destroys the members of a value that have a destructor call, from the last to the first. -/
def memberDestructs (value : Value) (calls : List (Option ExprId)) : Emit Unit :=
  calls.zipIdx.reverse.forM fun (call, i) => do
    match call with
    | some call =>
      let member ← Emit.member value i
      w.withBound [member] call none
    | none => pure ()

/-- Destroys the elements of an array from the last to the first. -/
def arrayDestruct (value elemCall : ExprId) : Emit Unit := do
  let value ← w.expr value none
  let shape ← Emit.arrayShape value.ty
  let index ← Emit.beginReversedIndexLoop shape.size
  let elem ← Emit.element value index
  w.withBound [elem] elemCall none
  Emit.endWhile

/-- Destroys the payload of an optional that holds one. -/
def optionalDestruct (value valueCall : ExprId) : Emit Unit := do
  let ty ← exprTy m value
  let value ← w.expr value none
  let hasValue ← optionalHasValue value ty
  Emit.beginIf hasValue
  let payload ← optionalValue value ty
  w.withBound [payload] valueCall none
  Emit.endIf

/-! ### Swap -/

/-- Swaps two aggregates or tuples, member by member. -/
def aggregateSwap (lhs rhs : ExprId) (swapExprs : List ExprId) : Emit Unit := do
  let (lhs, rhs) ← operandPair m w lhs rhs
  guarded true lhs rhs do
    swapExprs.zipIdx.forM fun (swapExpr, i) => do
      let lhsMember ← Emit.member lhs i
      let rhsMember ← Emit.member rhs i
      w.withBound [lhsMember, rhsMember] swapExpr none

/-- Swaps two arrays, element by element. -/
def arraySwap (lhs rhs swapExpr : ExprId) : Emit Unit := do
  let (lhs, rhs) ← operandPair m w lhs rhs
  guarded true lhs rhs do
    let shape ← Emit.arrayShape lhs.ty
    let index ← Emit.beginIndexLoop shape.size
    let lhsElem ← Emit.element lhs index
    let rhsElem ← Emit.element rhs index
    w.withBound [lhsElem, rhsElem] swapExpr none
    Emit.endIndexLoop index

/-- The flags of two optionals, read before either is changed, and their conjunction. -/
def snapshotHasValues (lhs rhs : Value) (ty : Ty) : Emit (Value × Value × Value) := do
  let lhsHasValue ← Emit.copyToLocal (← optionalHasValue lhs ty)
  let rhsHasValue ← Emit.copyToLocal (← optionalHasValue rhs ty)
  let conjunction ← lhsHasValue.binary "&&" rhsHasValue .logicalAnd
  let both ← Emit.rvalue conjunction (← Emit.boolType) .logicalAnd
  pure (lhsHasValue, rhsHasValue, both)

/-- Swaps two optionals: the payloads if both hold one, or by moving the only payload. -/
def optionalSwap (lhs rhs valueSwapExpr lhsMoveExpr rhsMoveExpr : ExprId) : Emit Unit := do
  let ty ← exprTy m lhs
  let (lhs, rhs) ← operandPair m w lhs rhs
  if ty.isOptionalPointerLike then
    swapBytes lhs rhs
  else
    guarded true lhs rhs do
      let (lhsHasValue, rhsHasValue, both) ← snapshotHasValues lhs rhs ty
      let lhsValue ← optionalValue lhs ty
      let rhsValue ← optionalValue rhs ty
      Emit.beginIf both
      w.withBound [lhsValue, rhsValue] valueSwapExpr none
      Emit.beginElseIf lhsHasValue
      w.withBound [lhsValue] lhsMoveExpr (some rhsValue)
      setHasValue lhs false
      setHasValue rhs true
      Emit.beginElseIf rhsHasValue
      w.withBound [rhsValue] rhsMoveExpr (some lhsValue)
      setHasValue lhs true
      setHasValue rhs false
      Emit.endIf

/-- Swaps two values by three moves through a temporary. -/
def baseTypeSwap (lhs rhs lhsMoveExpr rhsMoveExpr tempMoveExpr : ExprId) : Emit Unit := do
  let (lhs, rhs) ← operandPair m w lhs rhs
  guarded true lhs rhs do
    let temp ← Emit.declareLocal lhs.ty
    w.withBound [lhs] lhsMoveExpr (some temp)
    w.withBound [rhs] rhsMoveExpr (some lhs)
    w.withBound [temp] tempMoveExpr (some rhs)

/-- Swaps two values byte by byte. -/
def trivialSwap (lhs rhs : ExprId) : Emit Unit := do
  let (lhs, rhs) ← operandPair m w lhs rhs
  swapBytes lhs rhs

/-! ### Assignment -/

/-- The operands of an assignment, of which the right one is evaluated first, and whether the right
one is existing storage, which may be the left one. -/
def assignOperands (lhs rhs : ExprId) : Emit (Value × Value × Bool) := do
  let isStored ← isStorage m rhs
  let (rhs, lhs) ← operandPair m w rhs lhs
  pure (lhs, rhs, isStored)

/-- Assigns an aggregate or a tuple, member by member. -/
def aggregateAssign (lhs rhs : ExprId) (assignExprs : List ExprId) : Emit Value := do
  let (lhs, rhs, guard) ← assignOperands m w lhs rhs
  guarded guard lhs rhs do
    assignExprs.zipIdx.forM fun (assignExpr, i) => do
      let lhsMember ← Emit.member lhs i
      let rhsMember ← Emit.member rhs i
      w.withBound [lhsMember, rhsMember] assignExpr none
  pure lhs

/-- Assigns an array, element by element. -/
def arrayAssign (lhs rhs assignExpr : ExprId) : Emit Value := do
  let (lhs, rhs, guard) ← assignOperands m w lhs rhs
  guarded guard lhs rhs do
    let shape ← Emit.arrayShape lhs.ty
    let index ← Emit.beginIndexLoop shape.size
    let lhsElem ← Emit.element lhs index
    let rhsElem ← Emit.element rhs index
    w.withBound [lhsElem, rhsElem] assignExpr none
    Emit.endIndexLoop index
  pure lhs

/-- Assigns an optional: the payload if both hold one, or by destroying or constructing it. -/
def optionalAssign (lhs rhs valueAssignExpr valueConstructExpr valueDestructExpr : ExprId) :
    Emit Value := do
  let ty ← exprTy m lhs
  let (lhs, rhs, guard) ← assignOperands m w lhs rhs
  if ty.isOptionalPointerLike then
    Emit.assign lhs rhs
  else
    guarded guard lhs rhs do
      let (lhsHasValue, rhsHasValue, both) ← snapshotHasValues lhs rhs ty
      let lhsValue ← optionalValue lhs ty
      let rhsValue ← optionalValue rhs ty
      Emit.beginIf both
      w.withBound [lhsValue, rhsValue] valueAssignExpr none
      Emit.beginElseIf lhsHasValue
      w.withBound [lhsValue] valueDestructExpr none
      setHasValue lhs false
      Emit.beginElseIf rhsHasValue
      w.withBound [rhsValue] valueConstructExpr (some lhsValue)
      setHasValue lhs true
      Emit.endIf
  pure lhs

/-- Empties an optional. -/
def optionalNullAssign (lhs rhs : ExprId) (valueDestructExpr : Option ExprId) : Emit Value := do
  let ty ← exprTy m lhs
  discard <| w.expr rhs none
  let lhs ← w.expr lhs none
  if ty.isOptionalPointerLike then
    Emit.assign lhs (← Emit.rvalue (.nat 0) lhs.ty .atom)
  else
    match valueDestructExpr with
    | some destructExpr =>
      let hasValue ← optionalHasValue lhs ty
      Emit.beginIf hasValue
      let value ← optionalValue lhs ty
      w.withBound [value] destructExpr none
      setHasValue lhs false
      Emit.endIf
    | none => setHasValue lhs false
  pure lhs

/-- Assigns a payload to an optional: over the payload it holds, or as its first one. -/
def optionalValueAssign (lhs rhs valueAssignExpr valueConstructExpr : ExprId) : Emit Value := do
  let ty ← exprTy m lhs
  let (lhs, rhs, _) ← assignOperands m w lhs rhs
  if ty.isOptionalPointerLike then
    Emit.assign lhs rhs
  else
    let hasValue ← optionalHasValue lhs ty
    let lhsValue ← optionalValue lhs ty
    Emit.beginIf hasValue
    w.withBound [lhsValue, rhs] valueAssignExpr none
    Emit.beginElse
    w.withBound [rhs] valueConstructExpr (some lhsValue)
    setHasValue lhs true
    Emit.endIf
  pure lhs

/-- Rebinds an optional reference to the address of a value. -/
def optionalReferenceAssign (lhs rhs : ExprId) : Emit Value := do
  let address ← Emit.addressOf (← w.expr rhs none)
  let lhs ← w.expr lhs none
  Emit.assign lhs address
  pure lhs

/-- Assigns by destroying the left value and copying the right one over it. -/
def baseTypeAssign (lhs rhs lhsDestructExpr rhsCopyExpr : ExprId) : Emit Value := do
  let (lhs, rhs, guard) ← assignOperands m w lhs rhs
  guarded guard lhs rhs do
    w.withBound [lhs] lhsDestructExpr none
    w.withBound [rhs] rhsCopyExpr (some lhs)
  pure lhs

/-- Assigns the bytes of a value. -/
def trivialAssign (lhs rhs : ExprId) : Emit Value := do
  let value ← w.expr rhs none
  let value ← stabilizeUnless (← isSimple m lhs) value
  let lhs ← w.expr lhs none
  Emit.assign lhs value
  pure lhs

end

end CBackend.Lowering
