import CBackend.Lowering.Access
import CBackend.Lowering.Calls
import CBackend.Lowering.Intrinsics
import CBackend.Proofs.Bracketing.Scopes

/-!
# Operations in frames

Calls, operators, element-wise plans, accesses and intrinsics leave nothing open, given that the nodes
below them do not. Where an address is taken, the value is storage or was put into a variable before.
-/

namespace CBackend

open IR Flow Lowering
open C (CType Precedence)

variable {safe bal : Bool} {m m' : Module} {v : Value} {P : Place} {os : List Opening} {w w' : Lowering.Walk} {ty : Ty}
  {dest : Option Value} {op : BinaryOp} {fn : MathFn} {base id inner lhs operand rhs source value : ExprId}
  {isCopy : Bool} {args : List ExprId} {order : ArgOrder} {index : Nat}

/-! ### Operators of the source program -/

theorem rank_of_plainOperator? {cOp : String} {p : Precedence} (h : plainOperator? op = some (cOp, p)) :
    2 < p.rank := by
  cases op <;> cases h <;> decide

/-- Every operator that is not lowered in a way of its own computes or modifies. -/
theorem plainOperator?_isSome (hcomma : op ≠ .comma) (hand : op ≠ .boolAnd) (hor : op ≠ .boolOr)
    (h : op.isCompoundAssign = false) :
    (plainOperator? op).isSome = true := by
  cases op <;> first | rfl | contradiction

theorem compoundOperator?_isSome (h : op.isCompoundAssign = true) :
    (compoundOperator? op).isSome = true := by
  cases op <;> first | rfl | cases h

theorem unsigned?_isSome (kind : Builtin) : (Builtin.unsigned? kind.bitWidth).isSome = true := by
  cases kind <;> rfl

/-! ### Look-ups -/

namespace Harmless

variable {intrinsic : Intrinsic} {args : List ExprId}

theorem oneArgument : Harmless safe (oneArgument intrinsic args) := by
  fun_cases Lowering.oneArgument <;> first | exact .ok | exact .error rfl

theorem twoArguments : Harmless safe (twoArguments intrinsic args) := by
  fun_cases Lowering.twoArguments <;> first | exact .ok | exact .error rfl

theorem threeArguments : Harmless safe (threeArguments intrinsic args) := by
  fun_cases Lowering.threeArguments <;> first | exact .ok | exact .error rfl

theorem integerMathExpr {operands : List C.Expr} :
    Harmless safe (integerMathExpr fn operands) := by
  fun_cases Lowering.integerMathExpr <;> first | exact .ok | exact .error rfl

theorem operandsOf {vs : List Value} : Harmless safe (mathCall.operandsOf fn vs) := by
  fun_cases mathCall.operandsOf <;> first | exact .mapM fun _ _ => .render | exact .error rfl

variable (hm : m.ExtendedBy m')

include hm

theorem integerKind :
    Harmless safe (integerKind m operand) (integerKind m' operand) := by
  refine .bind (.exprTy hm) fun ty _ => ?_
  dsimp only
  cases ty.stripReference.builtinKind? with
  | some kind => exact .ite (fun _ => .pure) fun _ => .error rfl
  | none => exact .error rfl

theorem isStorage : Harmless safe (isStorage m id) (isStorage m' id) :=
  .bind (.exprAt hm) fun _ _ => .pure

theorem needsCopyGuard :
    Harmless safe (needsCopyGuard m source dest isCopy) (needsCopyGuard m' source dest isCopy) := by
  unfold Lowering.needsCopyGuard
  exact .ite (fun _ => .isStorage hm) fun _ => .ok

end Harmless

namespace Steps

section

variable (hw : w.Bracketed safe m m' w')

include hw

/-- A node that is lowered without a destination. -/
theorem node : hw.Both ⟨os, false⟩ fun _ w => w.expr id none :=
  hw.expr os id none .none

theorem exprTy :
    Stays safe P (liftM (exprTy m id) : Emit Ty) (liftM (exprTy m' id)) :=
  .quiet (.ofExcept (.exprTy hw.module))

theorem valueType : hw.Both P fun m _ => valueType m ty :=
  .quiet (.valueType hw.module)

/-! ### Calls -/

theorem argument {passing : ParamPassing} {arg : ExprId} {isSafe : Bool} :
    hw.Both ⟨os, false⟩ (argument · · passing arg isSafe) := by
  cases passing with
  | omitted => exact .bind (.discard (.node hw)) fun _ _ => .pure trivial
  | direct =>
    exact .bind (.node hw) fun _ _ => .bind .stabilizeUnless fun _ _ =>
      .bind (.lift .renderParen) fun _ _ => .pure trivial
  | indirect =>
    refine .bind (.exprTy hw) fun _ _ => .bind (.valueType hw) fun _ _ => ?_
    refine .bind .declareLocal fun temp htemp => .bind (.discard (hw.expr os arg _ (.some htemp))) fun _ _ => ?_
    exact .bind (.lift (.address htemp)) fun _ _ => .pure trivial
  | reference =>
    refine .bind (.node hw) fun _ _ => .bind .addressOf fun _ _ => .ite (fun _ => ?_) fun _ => ?_
    · exact .pure_bind (.bind (.lift .renderParen) fun _ _ => .pure trivial)
    · exact .bind .copyToLocal fun _ _ => .bind (.lift .renderParen) fun _ _ => .pure trivial

theorem argumentsInOrder {params : List ParamPassing} {args : List (ExprId × Nat)} :
    hw.Both ⟨os, false⟩ (argumentsInOrder · · params args) := by
  induction args with
  | nil => exact .pure trivial
  | cons arg later ih =>
    refine .bind (.lift (.allSimple hw.module)) fun _ _ => .bind (.lift .inRange) fun _ _ => ?_
    exact .bind (.argument hw) fun _ _ => .bind ih fun _ _ => .pure trivial

theorem arguments {params : List ParamPassing} : hw.Both ⟨os, false⟩ (arguments · · params args order) := by
  cases order <;> exact .bind (.argumentsInOrder hw) fun _ _ => .pure trivial

theorem callWith {callee : C.Expr} {c : Convention} (hdest : DestPlaced safe dest) :
    hw.Both ⟨os, false⟩ (callWith · · callee c ty args order dest) := by
  refine .bind (.arguments hw) fun passed _ => ?_
  cases c.result with
  | indirect =>
    refine .bind (.resultStorage hw.module hdest) fun _ hv => .bind (.lift (.address hv)) fun _ _ => ?_
    exact .bind .statement fun _ _ => .pure trivial
  | reference =>
    exact .bind (.quiet (.lowerType hw.module)) fun _ _ => .mono .dereferenceText fun _ _ => trivial
  | direct =>
    refine .bind (.valueType hw) fun _ _ => ?_
    cases dest with
    | some dest => exact .bind (.quiet .rvalue) fun _ _ => .bind .assign fun _ _ => .pure trivial
    | none => exact .mono .declareWith fun _ _ => trivial
  | nothing => exact .bind .statement fun _ _ => .pure trivial

theorem directCall {func : FuncId} {f : Function} (hdest : DestPlaced safe dest) :
    hw.Both ⟨os, false⟩ (directCall · · func f args order dest) :=
  .bind (.quiet (.declareFunction hw.module)) fun _ _ => .bind (.lift (.ofFunction hw.module)) fun _ _ =>
    .callWith hw hdest

theorem indirectCall {callee : ExprId} (hdest : DestPlaced safe dest) :
    hw.Both ⟨os, false⟩ (indirectCall · · callee args dest) := by
  refine .bind (.exprTy hw) fun ty _ => ?_
  cases ty with
  | function =>
    refine .bind (.lift (.convention hw.module)) fun _ _ => .bind (.node hw) fun _ _ => ?_
    refine .bind (.lift (.allSimple hw.module)) fun _ _ => .bind .stabilizeUnless fun _ _ => ?_
    exact .bind (.lift .renderParen) fun _ _ => .callWith hw hdest
  | _ => exact .throw rfl

/-! ### Operators -/

theorem unary {op : UnaryOp} : hw.Both ⟨os, false⟩ (unary · · op operand ty) := by
  refine .bind (.node hw) fun _ _ => ?_
  cases op with
  | plus => exact .mono .materialize fun _ _ => trivial
  | minus | bitNot | boolNot =>
    exact .bind (.valueType hw) fun _ _ => .mono .unaryOperation fun _ _ => trivial
  | dereference => exact .bind (.discard (.valueType hw)) fun _ _ => .mono .dereference fun _ _ => trivial
  | addressOf => exact .addressOf
  | increment | decrement => exact .bind .increment fun _ _ => .pure trivial
  | move | unsafeMove => exact .pure trivial

theorem shortCircuit {isAnd : Bool} : hw.Both ⟨os, false⟩ fun _ w => shortCircuit w isAnd lhs rhs := by
  have hbranch (result : Value) : Steps safe ⟨.block :: os, false⟩ (do
      let mark ← Emit.scopeMark
      let rhs ← w.expr rhs none
      Emit.assign result rhs
      w.closeScope mark
      Emit.endIf
      Pure.pure result) (fun _ => ⟨os, false⟩) (do
      let mark ← Emit.scopeMark
      let rhs ← w'.expr rhs none
      Emit.assign result rhs
      w'.closeScope mark
      Emit.endIf
      Pure.pure result) :=
    .bind .scopeMark fun _ _ => .bind (.node hw) fun _ _ => .bind .assign fun _ _ =>
      .bind (.closeScope hw) fun _ _ => .bind .endIf fun _ _ => .pure trivial
  refine .bind (.node hw) fun _ _ => .bind .copyToLocal fun result _ => ?_
  cases isAnd with
  | true => exact .bind .beginIf fun _ _ => hbranch result
  | false => exact .bind .beginIfNot fun _ _ => hbranch result

theorem compoundAssign (hop : op.isCompoundAssign = true) :
    hw.Both ⟨os, false⟩ (compoundAssign · · op lhs rhs) := by
  refine .bind (.node hw) fun _ _ => .bind (.lift (.isSimple hw.module)) fun _ _ => ?_
  refine .bind .stabilizeUnless fun _ _ => .bind (.node hw) fun _ _ => ?_
  obtain ⟨cOp, hcOp⟩ := Option.isSome_iff_exists.1 (compoundOperator?_isSome hop)
  rw [hcOp]
  exact .bind .assignWith fun _ _ => .pure trivial

theorem plainBinary (hop : (plainOperator? op).isSome = true) :
    hw.Both ⟨os, false⟩ (plainBinary · · op lhs rhs ty) := by
  obtain ⟨⟨cOp, p⟩, h⟩ := Option.isSome_iff_exists.1 hop
  unfold Lowering.plainBinary
  rw [h]
  refine .bind (.node hw) fun _ _ => .bind (.lift (.isSimple hw.module)) fun _ _ => ?_
  refine .bind .stabilizeUnless fun _ _ => .bind (.node hw) fun _ _ => .bind (.valueType hw) fun _ _ => ?_
  exact .mono (.binaryOperation (rank_of_plainOperator? h)) fun _ _ => trivial

theorem binary (hdest : DestPlaced safe dest) : hw.Both ⟨os, false⟩ (binary · · op lhs rhs ty dest) := by
  by_cases hcomma : op = .comma
  · subst hcomma
    exact .bind (.discard (.node hw)) fun _ _ => hw.expr os rhs dest hdest
  by_cases hand : op = .boolAnd
  · subst hand
    exact .shortCircuit hw
  by_cases hor : op = .boolOr
  · subst hor
    exact .shortCircuit hw
  have hother (m : Module) (w : Walk) : Lowering.binary m w op lhs rhs ty dest =
      if op.isCompoundAssign then Lowering.compoundAssign m w op lhs rhs
      else Lowering.plainBinary m w op lhs rhs ty := by
    unfold Lowering.binary
    split <;> first | contradiction | rfl
  simp only [hother]
  refine .ite (.compoundAssign hw) fun hassign => .plainBinary hw ?_
  exact plainOperator?_isSome hcomma hand hor (Bool.not_eq_true _ ▸ hassign)

/-! ### Conversions -/

omit hw in
theorem arrayBounds {size : Nat} : Stays safe P (arrayBounds v size) :=
  .bind (.quiet .arrayData) fun _ _ => .bind (.quiet .sizeType) fun _ _ => .bind (.quiet .integer) fun _ _ =>
    .bind (.lift (.binary (by decide))) fun _ _ => .bind (.quiet .rvalue) fun _ _ => .pure trivial

theorem castTo : hw.Both ⟨os, false⟩ (castTo · · inner ty) := by
  refine .bind (.exprTy hw) fun source _ => .bind (.node hw) fun _ _ => .bind (.valueType hw) fun _ _ => ?_
  have hother (source : Ty) (b : Bool) {v : Value} {ty : CType} : Stays safe ⟨os, false⟩ (do
      if v.ty == ty then Pure.pure v
      else if isSlice source && b then
        let v ← Emit.materialize v
        let first ← Emit.member v 0
        let past ← Emit.member v 1
        Emit.structLiteral ty [first, past]
      else Emit.cast v ty) :=
    .ite (fun _ => .pure trivial) fun _ => .ite (fun _ => .bind .materialize fun _ _ =>
      .bind (.quiet .member) fun _ _ => .bind (.quiet .member) fun _ _ => .quiet .structLiteral) fun _ => .quiet .cast
  cases isSlice ty with
  | false => cases source <;> exact hother _ _
  | true =>
    cases source with
    | array _ size => exact .bind .materialize fun _ _ => .bind .arrayBounds fun _ _ => .quiet .structLiteral
    | _ => exact hother _ _

theorem bitCast (hdest : DestPlaced safe dest) : hw.Both ⟨os, false⟩ (bitCast · · inner ty dest) := by
  refine .bind (.node hw) fun value _ => .bind (.valueType hw) fun ty _ => ?_
  refine .ite (fun _ => .quiet .cast) fun _ => .bind .materialize fun value hvalue => ?_
  have hrest (result : Value) (hresult : result.Placed safe) : Stays safe ⟨os, false⟩ (do
      Emit.addInclude "string.h"
      Emit.statement (.call (.symbol "memcpy") [← result.address, ← value.address, .sizeOf ty])
      Pure.pure result) :=
    .bind (.quiet .addInclude) fun _ _ => .bind (.lift (.address hresult)) fun _ _ =>
      .bind (.lift (.address hvalue)) fun _ _ => .bind .statement fun _ _ => .pure trivial
  cases dest with
  | some dest => exact hrest _ (hdest _ rfl)
  | none => exact .bind .declareLocal fun result hresult => hrest result hresult

theorem optionalCast (hdest : DestPlaced safe dest) :
    hw.Both ⟨os, false⟩ (optionalCast · · inner ty dest) := by
  unfold Lowering.optionalCast
  refine .ite (fun _ => .bind (.node hw) fun _ _ => .addressOf) fun _ =>
    .ite (fun _ => hw.expr os inner dest hdest) fun _ => ?_
  refine .bind (.resultStorage hw.module hdest) fun _ hv => .bind (.quiet .member) fun _ hu => ?_
  refine .bind (.discard (hw.expr os inner _ (.some (hu hv)))) fun _ _ => ?_
  exact .bind .setHasValue fun _ _ => .pure trivial

/-! ### Plans -/

omit hw in
theorem guarded {guard : Bool} {lhs rhs : Value} {body body' : Emit Unit} (hlhs : lhs.Placed safe)
    (hrhs : rhs.Placed safe) (hbody : ∀ os, Stays safe ⟨os, bal⟩ body body') :
    Stays safe ⟨os, bal⟩ (guarded guard lhs rhs body) (guarded guard lhs rhs body') := by
  unfold Lowering.guarded
  refine .ite (fun _ => ?_) fun _ => hbody os
  exact .bind (.beginIfDistinct hlhs hrhs) fun _ _ => .bind (hbody _) fun _ _ => .endIf

omit hw in
theorem swapBytes {lhs rhs : Value} (hlhs : lhs.Placed safe) (hrhs : rhs.Placed safe) :
    Stays safe ⟨os, bal⟩ (swapBytes lhs rhs) :=
  .guarded hlhs hrhs fun _ => .bind .copyToLocal fun _ _ => .bind .assign fun _ _ => .assign

omit hw in
theorem copyBytes : Stays safe P (copyBytes v dest) := by
  cases dest with
  | some dest => exact .bind .assign fun _ _ => .pure trivial
  | none => exact .ite (fun _ => .pure trivial) fun _ => .mono .copyToLocal fun _ _ => trivial

theorem aggregateConstruct {memberExprs : List ExprId} (hdest : DestPlaced safe dest) :
    hw.Both ⟨os, false⟩ (aggregateConstruct · · source memberExprs ty dest isCopy) := by
  refine .bind (.lift (.needsCopyGuard hw.module)) fun _ _ => .bind (.node hw) fun _ _ => ?_
  refine .bind .materialize fun _ hsource => .bind (.resultStorage hw.module hdest) fun _ hresult => ?_
  refine .bind (.guarded hresult hsource fun os => ?_) fun _ _ => .pure trivial
  refine .forM fun _ _ => .bind (.quiet .member) fun _ _ => .bind (.quiet .member) fun _ hmember => ?_
  exact .withBound hw (.some (hmember hresult))

theorem arrayConstruct {elemExpr : ExprId} (hdest : DestPlaced safe dest) :
    hw.Both ⟨os, false⟩ (arrayConstruct · · source elemExpr ty dest isCopy) := by
  refine .bind (.lift (.needsCopyGuard hw.module)) fun _ _ => .bind (.node hw) fun _ _ => ?_
  refine .bind .materialize fun _ hsource => .bind (.resultStorage hw.module hdest) fun _ hresult => ?_
  refine .bind (.guarded hresult hsource fun os => ?_) fun _ _ => .pure trivial
  refine .bind (.quiet .arrayShape) fun _ _ => .bind .beginIndexLoop fun _ _ => ?_
  refine .bind (.quiet .element) fun _ _ => .bind (.quiet .element) fun _ helem => ?_
  exact .bind (.withBound hw (.some (helem hresult))) fun _ _ => .endIndexLoop

theorem optionalConstruct {valueExpr : ExprId} (hdest : DestPlaced safe dest) :
    hw.Both ⟨os, false⟩ (optionalConstruct · · source valueExpr ty dest isCopy) := by
  unfold Lowering.optionalConstruct
  refine .ite (fun _ => .bind (.node hw) fun _ _ => .copyBytes) fun _ => ?_
  refine .bind (.lift (.needsCopyGuard hw.module)) fun _ _ => .bind (.node hw) fun _ _ => ?_
  refine .bind .materialize fun _ hsource => .bind (.resultStorage hw.module hdest) fun _ hresult => ?_
  refine .bind (.guarded hresult hsource fun os => ?_) fun _ _ => .pure trivial
  refine .bind .optionalHasValue fun _ _ => .bind .optionalHasValue fun _ _ => .bind .assign fun _ _ => ?_
  refine .bind .beginIf fun _ _ => .bind .optionalValue fun _ _ => .bind .optionalValue fun _ hvalue => ?_
  exact .bind (.withBound hw (.some (hvalue hresult))) fun _ _ => .endIf

theorem memberDestructs {calls : List (Option ExprId)} : hw.Both P fun _ w => memberDestructs w v calls := by
  refine .forM fun ⟨call, i⟩ _ => ?_
  cases call with
  | some call => exact .bind (.quiet .member) fun _ _ => .withBound hw .none
  | none => exact .pure trivial

theorem arrayDestruct {elemCall : ExprId} : hw.Both ⟨os, false⟩ fun _ w => arrayDestruct w value elemCall :=
  .bind (.node hw) fun _ _ => .bind (.quiet .arrayShape) fun _ _ => .bind .beginReversedIndexLoop fun _ _ =>
    .bind (.quiet .element) fun _ _ => .bind (.withBound hw .none) fun _ _ => .endWhile

theorem optionalDestruct {valueCall : ExprId} : hw.Both ⟨os, false⟩ (optionalDestruct · · value valueCall) :=
  .bind (.exprTy hw) fun _ _ => .bind (.node hw) fun _ _ => .bind .optionalHasValue fun _ _ =>
    .bind .beginIf fun _ _ => .bind .optionalValue fun _ _ => .bind (.withBound hw .none) fun _ _ => .endIf

/-! ### Swaps -/

theorem aggregateSwap {swapExprs : List ExprId} :
    hw.Both ⟨os, false⟩ (aggregateSwap · · lhs rhs swapExprs) := by
  refine .bind (.operandPair hw) fun _ h => .guarded h.1 h.2 fun os => .forM fun _ _ => ?_
  exact .bind (.quiet .member) fun _ _ => .bind (.quiet .member) fun _ _ => .withBound hw .none

theorem arraySwap {swapExpr : ExprId} : hw.Both ⟨os, false⟩ (arraySwap · · lhs rhs swapExpr) := by
  refine .bind (.operandPair hw) fun _ h => .guarded h.1 h.2 fun os => ?_
  refine .bind (.quiet .arrayShape) fun _ _ => .bind .beginIndexLoop fun _ _ => ?_
  refine .bind (.quiet .element) fun _ _ => .bind (.quiet .element) fun _ _ => ?_
  exact .bind (.withBound hw .none) fun _ _ => .endIndexLoop

omit hw in
theorem snapshotHasValues {lhs rhs : Value} :
    Stays safe P (snapshotHasValues lhs rhs ty) :=
  .bind .optionalHasValue fun _ _ => .bind .copyToLocal fun _ _ => .bind .optionalHasValue fun _ _ =>
    .bind .copyToLocal fun _ _ => .bind (.lift (.binary (by decide))) fun _ _ =>
      .bind (.quiet .boolType) fun _ _ => .bind (.quiet .rvalue) fun _ _ => .pure trivial

theorem optionalSwap {valueSwapExpr lhsMoveExpr rhsMoveExpr : ExprId} :
    hw.Both ⟨os, false⟩ (optionalSwap · · lhs rhs valueSwapExpr lhsMoveExpr rhsMoveExpr) := by
  refine .bind (.exprTy hw) fun _ _ => .bind (.operandPair hw) fun _ h => ?_
  refine .ite (fun _ => .swapBytes h.1 h.2) fun _ => ?_
  refine .guarded h.1 h.2 fun os => .bind .snapshotHasValues fun _ _ => ?_
  refine .bind .optionalValue fun _ hlhs => .bind .optionalValue fun _ hrhs => .bind .beginIf fun _ _ => ?_
  refine .bind (.withBound hw .none) fun _ _ => .bind .beginElseIf fun _ _ => ?_
  refine .bind (.withBound hw (.some (hrhs h.2))) fun _ _ => ?_
  refine .bind .setHasValue fun _ _ => .bind .setHasValue fun _ _ => .bind .beginElseIf fun _ _ => ?_
  refine .bind (.withBound hw (.some (hlhs h.1))) fun _ _ => ?_
  exact .bind .setHasValue fun _ _ => .bind .setHasValue fun _ _ => .endIf

theorem baseTypeSwap {lhsMoveExpr rhsMoveExpr tempMoveExpr : ExprId} :
    hw.Both ⟨os, false⟩ (baseTypeSwap · · lhs rhs lhsMoveExpr rhsMoveExpr tempMoveExpr) := by
  refine .bind (.operandPair hw) fun _ h => .guarded h.1 h.2 fun os => .bind .declareLocal fun _ htemp => ?_
  refine .bind (.withBound hw (.some htemp)) fun _ _ => .bind (.withBound hw (.some h.1)) fun _ _ => ?_
  exact .withBound hw (.some h.2)

theorem trivialSwap : hw.Both ⟨os, false⟩ (trivialSwap · · lhs rhs) :=
  .bind (.operandPair hw) fun _ h => .swapBytes h.1 h.2

/-! ### Assignments -/

theorem assignOperands : hw.Both ⟨os, false⟩ (assignOperands · · lhs rhs) fun vs =>
      vs.1.Placed safe ∧ vs.2.1.Placed safe :=
  .bind (.lift (.isStorage hw.module)) fun _ _ => .bind (.operandPair hw) fun _ h => .pure ⟨h.2, h.1⟩

theorem aggregateAssign {assignExprs : List ExprId} :
    hw.Both ⟨os, false⟩ (aggregateAssign · · lhs rhs assignExprs) := by
  refine .bind (.assignOperands hw) fun _ h => .bind (.guarded h.1 h.2 fun os => .forM fun _ _ => ?_)
    fun _ _ => .pure trivial
  exact .bind (.quiet .member) fun _ _ => .bind (.quiet .member) fun _ _ => .withBound hw .none

theorem arrayAssign {assignExpr : ExprId} : hw.Both ⟨os, false⟩ (arrayAssign · · lhs rhs assignExpr) := by
  refine .bind (.assignOperands hw) fun _ h => .bind (.guarded h.1 h.2 fun os => ?_) fun _ _ => .pure trivial
  refine .bind (.quiet .arrayShape) fun _ _ => .bind .beginIndexLoop fun _ _ => ?_
  refine .bind (.quiet .element) fun _ _ => .bind (.quiet .element) fun _ _ => ?_
  exact .bind (.withBound hw .none) fun _ _ => .endIndexLoop

theorem optionalAssign {valueAssignExpr valueConstructExpr valueDestructExpr : ExprId} :
    hw.Both ⟨os, false⟩ (optionalAssign · · lhs rhs valueAssignExpr valueConstructExpr valueDestructExpr) := by
  refine .bind (.exprTy hw) fun _ _ => .bind (.assignOperands hw) fun _ h => ?_
  refine .ite (fun _ => .bind .assign fun _ _ => .pure trivial) fun _ => ?_
  refine .bind (.guarded h.1 h.2 fun os => ?_) fun _ _ => .pure trivial
  refine .bind .snapshotHasValues fun _ _ => .bind .optionalValue fun _ hlhs => ?_
  refine .bind .optionalValue fun _ _ => .bind .beginIf fun _ _ => .bind (.withBound hw .none) fun _ _ => ?_
  refine .bind .beginElseIf fun _ _ => .bind (.withBound hw .none) fun _ _ => .bind .setHasValue fun _ _ => ?_
  refine .bind .beginElseIf fun _ _ => .bind (.withBound hw (.some (hlhs h.1))) fun _ _ => ?_
  exact .bind .setHasValue fun _ _ => .endIf

theorem optionalNullAssign {valueDestructExpr : Option ExprId} :
    hw.Both ⟨os, false⟩ (optionalNullAssign · · lhs rhs valueDestructExpr) := by
  refine .bind (.exprTy hw) fun _ _ => .bind (.discard (.node hw)) fun _ _ => .bind (.node hw) fun _ _ => ?_
  refine .ite (fun _ => .bind (.quiet .rvalue) fun _ _ => .bind .assign fun _ _ => .pure trivial) fun _ => ?_
  cases valueDestructExpr with
  | some _ =>
    refine .bind .optionalHasValue fun _ _ => .bind .beginIf fun _ _ => .bind .optionalValue fun _ _ => ?_
    exact .bind (.withBound hw .none) fun _ _ => .bind .setHasValue fun _ _ => .bind .endIf fun _ _ => .pure trivial
  | none => exact .bind .setHasValue fun _ _ => .pure trivial

theorem optionalValueAssign {valueAssignExpr valueConstructExpr : ExprId} :
    hw.Both ⟨os, false⟩ (optionalValueAssign · · lhs rhs valueAssignExpr valueConstructExpr) := by
  refine .bind (.exprTy hw) fun _ _ => .bind (.assignOperands hw) fun _ h => ?_
  refine .ite (fun _ => .bind .assign fun _ _ => .pure trivial) fun _ => ?_
  refine .bind .optionalHasValue fun _ _ => .bind .optionalValue fun _ hlhs => .bind .beginIf fun _ _ => ?_
  refine .bind (.withBound hw .none) fun _ _ => .bind .beginElse fun _ _ => ?_
  refine .bind (.withBound hw (.some (hlhs h.1))) fun _ _ => .bind .setHasValue fun _ _ => ?_
  exact .bind .endIf fun _ _ => .pure trivial

theorem optionalReferenceAssign : hw.Both ⟨os, false⟩ fun _ w => optionalReferenceAssign w lhs rhs :=
  .bind (.node hw) fun _ _ => .bind .addressOf fun _ _ => .bind (.node hw) fun _ _ =>
    .bind .assign fun _ _ => .pure trivial

theorem baseTypeAssign {lhsDestructExpr rhsCopyExpr : ExprId} :
    hw.Both ⟨os, false⟩ (baseTypeAssign · · lhs rhs lhsDestructExpr rhsCopyExpr) := by
  refine .bind (.assignOperands hw) fun _ h => .bind (.guarded h.1 h.2 fun os => ?_) fun _ _ => .pure trivial
  exact .bind (.withBound hw .none) fun _ _ => .withBound hw (.some h.1)

theorem trivialAssign : hw.Both ⟨os, false⟩ (trivialAssign · · lhs rhs) :=
  .bind (.node hw) fun _ _ => .bind (.lift (.isSimple hw.module)) fun _ _ => .bind .stabilizeUnless fun _ _ =>
    .bind (.node hw) fun _ _ => .bind .assign fun _ _ => .pure trivial

/-! ### Construction -/

theorem memberInit {exprs : List ExprId} (hdest : DestPlaced safe dest) :
    hw.Both ⟨os, false⟩ (memberInit · · exprs ty dest) := by
  refine .bind (.resultStorage hw.module hdest) fun _ hresult => .bind (.forM fun _ _ => ?_) fun _ _ => .pure trivial
  refine .bind (.quiet .member) fun _ hmember => .bind (.lift (.memberTy hw.module)) fun _ _ => ?_
  exact .ite (fun _ => .bind (.node hw) fun _ _ => .bind .addressOf fun _ _ => .assign) fun _ =>
    .discard (hw.expr os _ _ (.some (hmember hresult)))

theorem arrayValueInit {copyExpr : ExprId} (hdest : DestPlaced safe dest) :
    hw.Both ⟨os, false⟩ (arrayValueInit · · value copyExpr ty dest) := by
  refine .bind (.resultStorage hw.module hdest) fun _ hresult => .bind (.node hw) fun _ _ => ?_
  refine .bind .materialize fun _ _ => ?_
  refine .bind (.quiet .arrayShape) fun _ _ => .bind .beginIndexLoop fun _ _ => ?_
  refine .bind (.quiet .element) fun _ helem => ?_
  exact .bind (.withBound hw (.some (helem hresult))) fun _ _ => .bind .endIndexLoop fun _ _ => .pure trivial

theorem aggregateDefault {exprs : List ExprId} (hdest : DestPlaced safe dest) :
    hw.Both ⟨os, false⟩ (aggregateDefault · · exprs ty dest) := by
  refine .bind (.resultStorage hw.module hdest) fun _ hresult => .bind (.forM fun _ _ => ?_) fun _ _ => .pure trivial
  exact .bind (.quiet .member) fun _ hmember => .discard (.inScope hw (.some (hmember hresult)))

theorem arrayDefault {expr : ExprId} (hdest : DestPlaced safe dest) :
    hw.Both ⟨os, false⟩ (arrayDefault · · expr ty dest) := by
  refine .bind (.resultStorage hw.module hdest) fun _ hresult => .bind (.quiet .arrayShape) fun _ _ => ?_
  refine .bind .beginIndexLoop fun _ _ => .bind (.quiet .element) fun _ helem => ?_
  refine .bind (.discard (.inScope hw (.some (helem hresult)))) fun _ _ => ?_
  exact .bind .endIndexLoop fun _ _ => .pure trivial

theorem trivialCopy : hw.Both ⟨os, false⟩ fun _ w => trivialCopy w value dest := by
  refine .bind (.node hw) fun _ _ => ?_
  exact .ite (fun _ => .pure trivial) fun _ => .mono .copyToLocal fun _ _ => trivial

/-! ### Access -/

theorem memberAccess : hw.Both ⟨os, false⟩ (memberAccess · · base index) :=
  .bind (.exprTy hw) fun _ _ => .bind (.completeTypeOf hw.module) fun _ _ => .bind (.node hw) fun _ _ =>
    .mono (.memberValue hw.module) fun _ _ => trivial

theorem subscript {index : ExprId} : hw.Both ⟨os, false⟩ (subscript · · base index) := by
  refine .bind (.exprTy hw) fun baseTy _ => .bind (.discard (.valueType hw)) fun _ _ => ?_
  refine .bind (.node hw) fun _ _ => ?_
  cases baseTy with
  | array => exact .bind (.node hw) fun _ _ => .mono (.quiet .element) fun _ _ => trivial
  | slice =>
    exact .bind (.quiet .member) fun _ _ => .bind (.node hw) fun _ _ =>
      .mono (.quiet .pointerElement) fun _ _ => trivial
  | pointer => exact .bind (.node hw) fun _ _ => .mono (.quiet .pointerElement) fun _ _ => trivial
  | tuple =>
    refine .bind (.lift (.exprAt hw.module)) fun e _ => ?_
    cases constantIndex? e.kind with
    | some _ => exact .mono (.memberValue hw.module) fun _ _ => trivial
    | none => exact .throw rfl
  | _ => exact .throw rfl

theorem destroyOthers {memberRefs : List (Option ExprId)} :
    hw.Both P fun _ w => destroyOthers w v index memberRefs := by
  refine .forM fun ⟨memberRef, i⟩ _ => .ite (fun _ => .pure trivial) fun _ => ?_
  cases memberRef with
  | some _ => exact .bind (.quiet .member) fun _ _ => .withBound hw .none
  | none => exact .pure trivial

theorem rvalueMemberAccess {memberRefs : List (Option ExprId)} (hdest : DestPlaced safe dest) :
    hw.Both ⟨os, false⟩ (rvalueMemberAccess · · base index memberRefs ty dest) := by
  refine .bind (.exprTy hw) fun _ _ => .bind (.node hw) fun _ _ => .bind .materialize fun _ _ => ?_
  refine .bind (.lift (.memberTy hw.module)) fun _ _ => ?_
  dsimp only
  cases memberRefs[index]?.join with
  | some _ =>
    refine .ite (fun _ => ?_) fun _ => ?_
    · exact .bind (.memberValue hw.module) fun _ _ => .bind (.destroyOthers hw) fun _ _ => .pure trivial
    · refine .bind (.resultStorage hw.module hdest) fun _ hresult => .bind (.quiet .member) fun _ _ => ?_
      exact .bind (.withBound hw (.some hresult)) fun _ _ =>
        .pure_bind (.bind (.destroyOthers hw) fun _ _ => .pure trivial)
  | none => exact .bind (.memberValue hw.module) fun _ _ => .bind (.destroyOthers hw) fun _ _ => .pure trivial

theorem rvalueTupleSubscript {elemRefs : List (Option ExprId)} (hdest : DestPlaced safe dest) :
    hw.Both ⟨os, false⟩ (rvalueTupleSubscript · · base index elemRefs ty dest) := by
  unfold Lowering.rvalueTupleSubscript
  exact .ite (fun _ => .rvalueMemberAccess hw hdest) fun _ => .throw rfl

theorem rvalueArraySubscript {index : ExprId} {elemCleanup : Cleanup} :
    hw.Both ⟨os, false⟩ fun _ w => rvalueArraySubscript w base index elemCleanup := by
  refine .bind (.node hw) fun _ _ => .bind .materialize fun _ _ => .bind (.node hw) fun _ _ => ?_
  refine .bind (.quiet .element) fun _ _ => .bind .addressOf fun _ _ => .bind .dereference fun _ _ => ?_
  exact .bind .addressOf fun _ _ => .bind .addCleanup fun _ _ => .pure trivial

theorem tupleSubscript {elems : List ExprId} (hdest : DestPlaced safe dest) :
    hw.Both ⟨os, false⟩ fun _ w => tupleSubscript w elems index dest := by
  refine .bind (.mapM (Φ := fun _ => True) fun ⟨elem, i⟩ _ => ?_) fun _ _ => .pure trivial
  exact .ite (fun _ => hw.expr os elem dest hdest) fun _ => .node hw

theorem optionalExtract {optional : ExprId} {moveExpr : Option ExprId} (hdest : DestPlaced safe dest) :
    hw.Both ⟨os, false⟩ (optionalExtract · · optional moveExpr ty dest) := by
  refine .bind (.exprTy hw) fun _ _ => .bind (.node hw) fun _ _ => .bind .materialize fun _ _ => ?_
  refine .bind (.checkHasValue hw.module) fun _ _ => .bind .optionalValue fun _ _ => ?_
  cases moveExpr with
  | some _ =>
    refine .bind (.resultStorage hw.module hdest) fun _ hresult => ?_
    exact .bind (.withBound hw (.some hresult)) fun _ _ => .pure trivial
  | none => exact .pure trivial

/-! ### Intrinsics -/

theorem intrinsicValues :
    hw.Both ⟨os, false⟩ (intrinsicValues · · args) fun vs => vs.length = args.length := by
  induction args with
  | nil => exact .pure rfl
  | cons arg later ih =>
    refine .bind (.node hw) fun _ _ => .bind (.lift (.allSimple hw.module)) fun _ _ => ?_
    refine .bind .stabilizeUnless fun _ _ => ?_
    exact .bind ih fun _ h => .pure (congrArg (· + 1) h)

theorem intrinsicValue {intrinsic : Intrinsic} : hw.Both ⟨os, false⟩ (intrinsicValue · · intrinsic args) := by
  refine .bind (.lift .oneArgument) fun arg _ => .bind (.intrinsicValues hw) fun vs hvs => ?_
  obtain ⟨v, rfl⟩ := List.length_eq_one_iff.1 hvs
  exact .pure trivial

theorem unsignedOperand : hw.Both ⟨os, false⟩ (unsignedOperand · · operand) := by
  refine .bind (.lift (.integerKind hw.module)) fun kind _ => .bind (.node hw) fun _ _ => ?_
  refine .ite (fun _ => .pure_bind (.bind .copyToLocal fun _ _ => .pure trivial)) fun _ => ?_
  obtain ⟨unsigned, hunsigned⟩ := Option.isSome_iff_exists.1 (unsigned?_isSome kind)
  rw [hunsigned]
  exact .bind (.quiet .builtin) fun _ _ => .bind (.quiet .cast) fun _ _ =>
    .bind .copyToLocal fun _ _ => .pure trivial

theorem memberDistance : hw.Both P fun m _ => memberDistance m v ty := by
  refine .bind .materialize fun _ _ => .bind (.quiet .member) fun _ _ => .bind (.quiet .member) fun _ _ => ?_
  refine .bind (.lift (.binary (by decide))) fun _ _ => .bind (.valueType hw) fun _ _ => ?_
  exact .bind (.quiet .rvalue) fun _ _ => .quiet .cast

theorem libraryCall {name : String} {vs : List Value} : hw.Both P fun m _ => libraryCall m name vs ty := by
  refine .bind (.mapM fun _ _ => .quiet (.ofExcept .renderParen)) fun _ _ => ?_
  exact .ite (fun _ => .bind .statement fun _ _ => .pure trivial) fun _ =>
    .bind (.valueType hw) fun _ _ => .mono .declareWith fun _ _ => trivial

theorem memoryCall {name : String} : hw.Both ⟨os, false⟩ (memoryCall · · name args ty) :=
  .bind (.intrinsicValues hw) fun _ _ => .bind (.quiet .addInclude) fun _ _ => .libraryCall hw

theorem bitCount {counter : BitCounter} : hw.Both ⟨os, false⟩ (bitCount · · counter operand ty) :=
  .bind (.unsignedOperand hw) fun _ _ => .bind (.lift .render) fun _ _ =>
    .bind (.valueType hw) fun _ _ => .quiet .rvalue

theorem byteSwap : hw.Both ⟨os, false⟩ (byteSwap · · operand ty) := by
  refine .bind (.unsignedOperand hw) fun _ _ => .bind (.valueType hw) fun _ _ => ?_
  exact .ite (fun _ => .quiet .cast) fun _ => .bind (.lift .render) fun _ _ => .quiet .rvalue

theorem bitReverse : hw.Both ⟨os, false⟩ (bitReverse · · operand ty) := by
  refine .bind (.unsignedOperand hw) fun _ _ => .bind (.quiet .zeroValue) fun _ _ => .bind .copyToLocal fun _ _ => ?_
  refine .bind .beginIndexLoop fun _ _ => .bind (.lift .render) fun _ _ => .bind (.lift .render) fun _ _ => ?_
  refine .bind (.quiet .rvalue) fun _ _ => .bind .assign fun _ _ => ?_
  refine .bind (.quiet .rvalue) fun _ _ => .bind .assign fun _ _ => .bind .endIndexLoop fun _ _ => ?_
  exact .bind (.valueType hw) fun _ _ => .ite (fun _ => .pure trivial) fun _ => .quiet .cast

theorem funnelShift {isLeft : Bool} {shift : ExprId} :
    hw.Both ⟨os, false⟩ (Lowering.funnelShift · · isLeft lhs rhs shift ty) := by
  refine .bind (.unsignedOperand hw) fun _ _ => .bind (.unsignedOperand hw) fun _ _ => ?_
  refine .bind (.unsignedOperand hw) fun _ _ => .bind (.quiet .integer) fun _ _ => .bind .assignWith fun _ _ => ?_
  refine .bind (.lift .render) fun _ _ => .bind (.lift .render) fun _ _ => .bind (.lift .render) fun _ _ => ?_
  exact .bind (.valueType hw) fun _ _ => .quiet .rvalue

theorem mathCall : hw.Both ⟨os, false⟩ (mathCall · · fn args ty) := by
  cases args with
  | nil => exact .throw rfl
  | cons first later =>
    refine .bind (.exprTy hw) fun firstTy _ => ?_
    cases firstTy.stripReference with
    | builtin kind =>
      refine .bind (.intrinsicValues hw) fun _ _ => .ite (fun _ => ?_) fun _ => ?_
      · exact .bind (.quiet .addInclude) fun _ _ => .libraryCall hw
      · refine .bind (.mapM (Φ := fun _ => True) fun v _ => ?_) fun _ _ => .bind (.valueType hw) fun _ _ => ?_
        · exact .ite (fun _ => .pure trivial) fun _ => .mono .copyToLocal fun _ _ => trivial
        · exact .bind (.lift .operandsOf) fun _ _ => .bind (.lift .integerMathExpr) fun _ _ => .quiet .rvalue
    | _ => exact .throw rfl

theorem optionalOperand {optional : ExprId} : hw.Both ⟨os, false⟩ (optionalOperand · · optional) :=
  .bind (.exprTy hw) fun _ _ => .bind (.node hw) fun _ _ => .bind .materialize fun _ _ => .pure trivial

theorem intrinsicCall {intrinsic : Intrinsic} (hdest : DestPlaced safe dest) :
    hw.Both ⟨os, false⟩ (intrinsicCall · · intrinsic args ty dest) := by
  have hone : Harmless safe (oneArgument intrinsic args) := .oneArgument
  have htwo : Harmless safe (twoArguments intrinsic args) := .twoArguments
  have hthree : Harmless safe (threeArguments intrinsic args) := .threeArguments
  have hvalue : hw.Both ⟨os, false⟩ (Lowering.intrinsicValue · · intrinsic args) := .intrinsicValue hw
  cases intrinsic with
  | unaryOperator => exact .bind (.lift hone) fun _ _ => .unary hw
  | binaryOperator => exact .bind (.lift htwo) fun _ _ => .binary hw hdest
  | strBeginPtr | sliceBeginPtr | rangeBegin | strEndPtr | sliceEndPtr | rangeEnd =>
    exact .bind hvalue fun _ _ => .bind .materialize fun _ _ => .mono (.quiet .member) fun _ _ => trivial
  | strSize | sliceSize | rangeSize => exact .bind hvalue fun _ _ => .memberDistance hw
  | strFromPtrs | sliceFromPtrs | rangeMake =>
    exact .bind (.intrinsicValues hw) fun _ _ => .bind (.valueType hw) fun _ _ => .quiet .structLiteral
  | arrayBeginPtr => exact .bind hvalue fun _ _ => .bind .materialize fun _ _ => .quiet .arrayData
  | arrayEndPtr =>
    refine .bind hvalue fun _ _ => .bind .materialize fun _ _ => .bind (.quiet .arrayData) fun _ _ => ?_
    refine .bind (.quiet .arrayShape) fun _ _ => .bind (.quiet .sizeType) fun _ _ => ?_
    refine .bind (.quiet .integer) fun _ _ => ?_
    exact .bind (.lift (.binary (by decide))) fun _ _ => .quiet .rvalue
  | memcpy | memmove | memset => exact .memoryCall hw
  | pointerCast | intToPointer | pointerToInt =>
    exact .bind hvalue fun _ _ => .bind (.valueType hw) fun _ _ => .quiet .cast
  | optionalGetValue =>
    exact .bind (.lift hone) fun _ _ => .bind (.optionalOperand hw) fun _ _ => .bind (.checkHasValue hw.module)
      fun _ _ => .mono .optionalValue fun _ _ => trivial
  | isOptionSet => exact .bind (.lift hone) fun _ _ => .bind (.optionalOperand hw) fun _ _ => .optionalHasValue
  | panic => exact .bind hvalue fun _ _ => .bind .panicWith fun _ _ => .pure trivial
  | isComptime => exact .bind (.valueType hw) fun _ _ => .quiet .integer
  | trivialSwap => exact .bind (.lift htwo) fun _ _ => .bind (.trivialSwap hw) fun _ _ => .pure trivial
  | clz | ctz | popcount => exact .bind (.lift hone) fun _ _ => .bitCount hw
  | byteswap => exact .bind (.lift hone) fun _ _ => .byteSwap hw
  | bitreverse => exact .bind (.lift hone) fun _ _ => .bitReverse hw
  | fshl | fshr => exact .bind (.lift hthree) fun _ _ => .funnelShift hw
  | math => exact .mathCall hw
  | compileTime => exact .throw rfl

end

end Steps

end CBackend
