import CBackend.Lowering.Plans

/-!
# Construction and access

Literals of compound values, members and elements.
-/

namespace CBackend.Lowering

open IR

section

variable (m : Module) (w : Walk)

/-! ### Construction -/

/-- Constructs a value from one expression for each member; a member that is a reference stores the
address of its initialiser. -/
def memberInit (exprs : List ExprId) (ty : Ty) (dest : Option Value) : Emit Value := do
  let result ← resultStorage m dest ty
  exprs.zipIdx.forM fun (init, i) => do
    let member ← Emit.member result i
    if (← memberTy m ty i).isAnyReference then
      let address ← Emit.addressOf (← w.expr init none)
      Emit.assign member address
    else
      discard <| w.expr init (some member)
  pure result

/-- Constructs every element of an array from one value. -/
def arrayValueInit (value copyExpr : ExprId) (ty : Ty) (dest : Option Value) : Emit Value := do
  let result ← resultStorage m dest ty
  let value ← Emit.materialize (← w.expr value none)
  let shape ← Emit.arrayShape result.ty
  let index ← Emit.beginIndexLoop shape.size
  let elem ← Emit.element result index
  w.withBound [value] copyExpr (some elem)
  Emit.endIndexLoop index
  pure result

/-- Constructs each member of an aggregate by its default. -/
def aggregateDefault (exprs : List ExprId) (ty : Ty) (dest : Option Value) : Emit Value := do
  let result ← resultStorage m dest ty
  exprs.zipIdx.forM fun (construct, i) => do
    let member ← Emit.member result i
    discard <| w.inScope construct (some member)
  pure result

/-- Constructs each element of an array by its default. -/
def arrayDefault (expr : ExprId) (ty : Ty) (dest : Option Value) : Emit Value := do
  let result ← resultStorage m dest ty
  let shape ← Emit.arrayShape result.ty
  let index ← Emit.beginIndexLoop shape.size
  let elem ← Emit.element result index
  discard <| w.inScope expr (some elem)
  Emit.endIndexLoop index
  pure result

/-- A copy of the bytes of a value, unless it goes to a destination or has no storage anyway. -/
def trivialCopy (value : ExprId) (dest : Option Value) : Emit Value := do
  let value ← w.expr value none
  if dest.isSome || value.isRvalue then pure value else Emit.copyToLocal value

/-! ### Access -/

/-- A member of existing storage. -/
def memberAccess (base : ExprId) (index : Nat) : Emit Value := do
  let baseTy ← exprTy m base
  completeTypeOf m base
  let base ← w.expr base none
  memberValue m base baseTy index

/-- The position that a constant index stands for. -/
def constantIndex? : ExprKind → Option Nat
  | .constant (.uint n) => some n.toNat
  | .constant (.sint n) => if 0 ≤ n.toInt then some n.toInt.toNat else none
  | _ => none

/-- An element of an array, a slice, what a pointer points to, or a tuple. -/
def subscript (base index : ExprId) : Emit Value := do
  let baseTy ← exprTy m base
  discard <| valueType m baseTy
  let base ← w.expr base none
  match baseTy with
  | .array .. =>
    let index ← w.expr index none
    Emit.element base index
  | .slice .. =>
    let first ← Emit.member base 0
    let index ← w.expr index none
    Emit.pointerElement first index
  | .pointer .. =>
    let index ← w.expr index none
    Emit.pointerElement base index
  | .tuple _ =>
    match constantIndex? (← exprAt m index).kind with
    | some position => memberValue m base baseTy position
    | none => throw .tupleIndexNotConstant
  | ty => throw (.notIndexable ty)

/-- Destroys the members other than the one at an index. -/
def destroyOthers (base : Value) (index : Nat) (memberRefs : List (Option ExprId)) : Emit Unit :=
  memberRefs.zipIdx.forM fun (memberRef, i) => do
    if i = index then pure ()
    else
      match memberRef with
      | some destruct =>
        let member ← Emit.member base i
        w.withBound [member] destruct none
      | none => pure ()

/-- Moves one member out of a temporary and destroys the others right away. -/
def rvalueMemberAccess (base : ExprId) (index : Nat) (memberRefs : List (Option ExprId)) (ty : Ty)
    (dest : Option Value) : Emit Value := do
  let baseTy ← exprTy m base
  let base ← Emit.materialize (← w.expr base none)
  let isReference := (← memberTy m baseTy index).isAnyReference
  let result ← match memberRefs[index]?.join with
    | some moveExpr =>
      if isReference then memberValue m base baseTy index
      else do
        let result ← resultStorage m dest ty
        let member ← Emit.member base index
        w.withBound [member] moveExpr (some result)
        pure result
    | none => memberValue m base baseTy index
  destroyOthers w base index memberRefs
  pure result

/-- Moves one element out of a tuple temporary. -/
def rvalueTupleSubscript (base : ExprId) (index : Nat) (elemRefs : List (Option ExprId)) (ty : Ty)
    (dest : Option Value) : Emit Value := do
  if index < elemRefs.length then rvalueMemberAccess m w base index elemRefs ty dest
  else throw (.tupleIndexOutOfRange index elemRefs.length)

/-- Moves one element out of an array temporary; the others are destroyed at the end of the
scope. -/
def rvalueArraySubscript (base index : ExprId) (elemCleanup : Cleanup) : Emit Value := do
  let array ← Emit.materialize (← w.expr base none)
  let index ← w.expr index none
  let elem ← Emit.element array index
  let elem ← Emit.dereference (← Emit.addressOf elem)
  let elemPointer ← Emit.addressOf elem
  Emit.addArrayCleanup elemCleanup array elemPointer
  pure elem

/-- Evaluates every element of a tuple literal and yields the one at an index. -/
def tupleSubscript (elems : List ExprId) (index : Nat) (dest : Option Value) : Emit Value := do
  let results ← elems.zipIdx.mapM fun (elem, i) =>
    if i = index then w.expr elem dest else w.expr elem none
  pure (results[index]?.getD .none)

/-- The payload of an optional, which is moved out if there is an expression for that. Aborts if the
optional is empty. -/
def optionalExtract (optional : ExprId) (moveExpr : Option ExprId) (ty : Ty)
    (dest : Option Value) : Emit Value := do
  let optionalTy ← exprTy m optional
  let optional ← Emit.materialize (← w.expr optional none)
  checkHasValue m optional optionalTy
  let payload ← optionalValue optional optionalTy
  match moveExpr with
  | some moveExpr =>
    let result ← resultStorage m dest ty
    w.withBound [payload] moveExpr (some result)
    pure result
  | none => pure payload

end

end CBackend.Lowering
