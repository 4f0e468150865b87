import CBackend.Lowering.Expressions
import CBackend.Proofs.Bracketing.Operations

/-!
# Nodes in frames

Blocks, conditionals, switches, loops and the statements around them close what they open, and so does
the lowering of every node.
-/

namespace CBackend

open IR Flow Lowering

variable {safe bal : Bool} {m m' : Module} {v : Value} {P : Place} {os : List Opening} {w w' : Walk} {ty : Ty}
  {dest : Option Value} {id test : ExprId} {category : Category} {result : BranchResult} {cases : List SwitchCase}
  {default : Option ExprId} {isComplete : Bool} {var : VarId}

/-- The storage in which branches leave their value has an address, if this is asked for. -/
def Lowering.BranchResult.Placed (safe : Bool) : BranchResult → Prop
  | storage v => v.Placed safe
  | _ => True

theorem Quietly.stringTest {length first : C.Expr} {value : Const} :
    Quietly safe (stringTest length first value) := by
  cases value with
  | str =>
    exact .ite (fun _ => .pure trivial) fun _ =>
      .bind .addInclude fun _ _ => .bind .internString fun _ _ => .pure trivial
  | _ => exact .throw rfl

theorem Quietly.stringCaseCondition {c : SwitchCase} : Quietly safe (stringCaseCondition v c) := by
  refine .bind .member fun _ _ => .bind .member fun _ _ => .bind (.lift (.binary (by decide))) fun _ _ => ?_
  refine .bind (.lift .renderParen) fun _ _ => .bind (.mapM fun _ _ => .stringTest) fun _ _ => ?_
  exact .bind .boolType fun _ _ => .rvalue

namespace Steps

section

variable (hw : w.Bracketed safe m m' w')

include hw

/-! ### Blocks -/

theorem statements {stmts : List StmtId} : hw.Both ⟨os, false⟩ fun _ w => statements w stmts := by
  induction stmts with
  | nil => exact .pure trivial
  | cons s ss ih =>
    exact .bind .isTerminated fun _ _ => .ite (fun _ => .note nofun) fun _ => .bind (hw.stmt os s) fun _ _ => ih

theorem finalValue {final : ExprId} {isRvalue : Bool} {mark : Nat} (hdest : DestPlaced safe dest) :
    hw.Both ⟨.scope mark bal :: os, false⟩ fun _ w => finalValue w final isRvalue mark dest := by
  refine .bind (hw.expr _ final dest hdest) fun value _ => .bind .cleanupsSince fun _ _ => ?_
  exact .ite (fun _ => .mono .copyToLocal fun _ _ => trivial) fun _ => .pure trivial

theorem compound {stmts : List StmtId} {final : Option ExprId} {isRvalue : Bool}
    (hdest : DestPlaced safe dest) : hw.Both P fun _ w => compound w stmts final isRvalue dest := by
  refine .bind .scopeMark fun mark _ => .bind (.statements hw) fun _ _ => ?_
  have hclose (v : Value) : Steps safe ⟨.scope mark P.bal :: P.openings, false⟩
      (w.closeScope mark >>= fun _ => Pure.pure v) (fun _ => P) (w'.closeScope mark >>= fun _ => Pure.pure v) :=
    .bind (.closeScope hw) fun _ _ => .pure trivial
  cases final with
  | some final =>
    refine .bind .isTerminated fun _ _ => .ite (fun _ => ?_) fun _ => ?_
    · exact .bind (.note nofun) fun _ _ => hclose _
    · exact .bind (.finalValue hw hdest) fun v _ => hclose v
  | none => exact hclose _

theorem condition : hw.Both P fun _ w => condition w id := by
  refine .bind .scopeMark fun mark _ => .bind (.node hw) fun _ _ => .bind .cleanupsSince fun _ _ => ?_
  refine .ite (fun _ => .pure_bind ?_) fun _ => .bind .copyToLocal fun _ _ => ?_
  all_goals exact .bind (.closeScope hw) fun _ _ => .pure trivial

/-! ### Branches -/

theorem beginBranches (hdest : DestPlaced safe dest) :
    hw.Both P (fun m _ => beginBranches m ty category dest) fun r => r.Placed safe := by
  refine .ite (fun _ => .pure trivial) fun _ => ?_
  cases category with
  | rvalue => exact .bind (.resultStorage hw.module hdest) fun _ h => .pure h
  | lvalue =>
    exact .bind (.valueType hw) fun _ _ => .bind (.quiet .pointerFor) fun _ _ =>
      .bind .declareLocal fun _ _ => .pure trivial
  | noreturn | none => exact .pure trivial

theorem branch (hresult : result.Placed safe) : hw.Both P fun _ w => branch w id result := by
  cases result with
  | nothing => exact .bind (.discard (.inScope hw .none)) fun _ _ => .isTerminated
  | storage => exact .bind (.discard (.inScope hw (.some hresult))) fun _ _ => .isTerminated
  | pointer pointer =>
    refine .bind .scopeMark fun mark _ => .bind (.node hw) fun value _ => .bind .isTerminated fun _ _ => ?_
    have hclose : Steps safe ⟨.scope mark P.bal :: P.openings, false⟩
        (w.closeScope mark >>= fun _ => Emit.isTerminated) (fun _ => P)
        (w'.closeScope mark >>= fun _ => Emit.isTerminated) :=
      .bind (.closeScope hw) fun _ _ => .isTerminated
    exact .ite (fun _ => hclose) fun _ => .bind .addressOf fun _ _ => .bind .assign fun _ _ => hclose

omit hw in
theorem joinBranches {b : Bool} :
    Stays safe P (joinBranches b result) := by
  refine .ite (fun _ => .bind .setTerminated fun _ _ => .pure trivial) fun _ => ?_
  cases result with
  | nothing | storage => exact .pure trivial
  | pointer => exact .mono .dereference fun _ _ => trivial

theorem ifElse {thenBlock : ExprId} {elseBlock : Option ExprId} (hdest : DestPlaced safe dest) :
    hw.Both P (ifElse · · ty category test thenBlock elseBlock dest) := by
  refine .bind (.condition hw) fun _ _ => .bind (.beginBranches hw hdest) fun _ hresult => ?_
  refine .bind .beginIf fun _ _ => .bind (.branch hw hresult) fun _ _ => ?_
  cases elseBlock with
  | some =>
    exact .bind .beginElse fun _ _ => .bind (.branch hw hresult) fun _ _ => .bind .endIf fun _ _ => .joinBranches
  | none => exact .pure_bind (.bind .endIf fun _ _ => .joinBranches)

/-! ### Switches -/

theorem integralCases (hresult : result.Placed safe) : hw.Both P (integralCases · · ty result cases) := by
  induction cases with
  | nil => exact .pure trivial
  | cons c cs ih =>
    refine .bind (.mapM fun value _ => .quiet (.constantExpr hw.module value ty)) fun _ _ => .bind .beginCase
      fun _ _ => .bind (.branch hw hresult) fun _ _ => .bind .endCase fun _ _ => ?_
    exact .bind ih fun _ _ => .pure trivial

theorem integralDefault (hresult : result.Placed safe) :
    hw.Both P fun _ w => integralDefault w default isComplete result := by
  cases default with
  | some =>
    exact .bind .beginDefaultCase fun _ _ => .bind (.branch hw hresult) fun _ _ =>
      .bind .endCase fun _ _ => .pure trivial
  | none =>
    refine .ite (fun _ => ?_) fun _ => .pure trivial
    exact .bind .beginDefaultCase fun _ _ => .bind .unreachable fun _ _ => .bind .endCase fun _ _ => .pure trivial

theorem integralSwitch {matchedTy : Ty} (hresult : result.Placed safe) :
    hw.Both P (integralSwitch · · v matchedTy cases default isComplete result) :=
  .bind .beginSwitch fun _ _ => .bind (.integralCases hw hresult) fun _ _ =>
    .bind (.integralDefault hw hresult) fun _ _ => .bind .endSwitch fun _ _ => .pure trivial

/-- The cases after the first go on with the conditional that it opens. -/
theorem laterStringCases (hresult : result.Placed safe) :
    hw.Both ⟨.block :: os, bal⟩ fun _ w => stringCases w v result false cases := by
  induction cases with
  | nil => exact .pure trivial
  | cons c cs ih =>
    refine .bind (.quiet .stringCaseCondition) fun _ _ => .bind .beginElseIf fun _ _ => ?_
    exact .bind (.branch hw hresult) fun _ _ => .bind ih fun _ _ => .pure trivial

theorem stringSwitch (hresult : result.Placed safe) :
    hw.Both P fun _ w => stringSwitch w v cases default result := by
  refine .bind .materialize fun matched _ => ?_
  dsimp only
  generalize cases.filter (!·.values.isEmpty) = cases
  cases cases with
  | nil =>
    cases default with
    | some => exact .branch hw hresult
    | none => exact .pure trivial
  | cons c cases =>
    have hfirst : Steps safe P (stringCases w matched result true (c :: cases))
        (fun _ => ⟨.block :: P.openings, P.bal⟩) (stringCases w' matched result true (c :: cases)) :=
      .bind (.quiet .stringCaseCondition) fun _ _ => .bind .beginIf fun _ _ => .bind (.branch hw hresult) fun _ _ =>
        .bind (.laterStringCases hw hresult) fun _ _ => .pure trivial
    refine .bind hfirst fun _ _ => ?_
    cases default with
    | some =>
      exact .bind .beginElse fun _ _ => .bind (.branch hw hresult) fun _ _ => .bind .endIf fun _ _ => .pure trivial
    | none => exact .pure_bind (.bind .endIf fun _ _ => .pure trivial)

theorem switchOn {matched : ExprId} (hdest : DestPlaced safe dest) :
    hw.Both P (switchOn · · ty category matched cases default isComplete dest) := by
  refine .bind (.exprTy hw) fun matchedTy _ => .bind (.condition hw) fun _ _ => ?_
  refine .bind (.beginBranches hw hdest) fun _ hresult => ?_
  cases matchedTy with
  | str => exact .bind (.stringSwitch hw hresult) fun _ _ => .joinBranches
  | _ => exact .bind (.integralSwitch hw hresult) fun _ _ => .joinBranches

theorem breakLoop : hw.Both P fun _ w => breakLoop w := by
  refine .bind (.runLoopCleanups hw) fun _ _ => .bind (.note nofun) fun _ _ => .bind .breakLabel? fun label _ => ?_
  cases label <;> exact .exitLine rfl

theorem continueLoop : hw.Both P fun _ w => continueLoop w := by
  refine .bind (.runLoopCleanups hw) fun _ _ => .bind (.note nofun) fun _ _ => .bind .continueLabel? fun label _ => ?_
  cases label <;> exact .exitLine rfl

/-! ### Variables -/

omit hw in
/-- Declarations may be nested deeper in the longer module. -/
theorem bindVariableWithin (hm : m.ExtendedBy m') {k k' : Nat} (hk : k ≤ k') :
    Stays safe ⟨os, false⟩ (bindVariableWithin m k var v) (bindVariableWithin m' k' var v) := by
  induction k generalizing k' var v with
  | zero => exact .throw rfl
  | succ k ih =>
    obtain ⟨k', rfl⟩ := Nat.exists_eq_add_of_le' hk
    refine .bind (.lift (.found hm.var?)) fun decl _ => .ite (fun _ => ?_) fun _ => .forM fun ⟨elem, i⟩ _ => ?_
    · refine .bind .bindLocal fun _ _ => .when (fun _ => .addIndicator) ?_
      exact .ite (fun _ => .addVariableCleanup) fun _ => .pure trivial
    have hpart (part : Value) : Stays safe ⟨os, false⟩
        (do
          let elemDecl ← CBackend.inRange (m.var? elem)
          let part ← if elemDecl.ty.isAnyReference then Emit.dereference part else Pure.pure part
          Lowering.bindVariableWithin m k elem part)
        (do
          let elemDecl ← CBackend.inRange (m'.var? elem)
          let part ← if elemDecl.ty.isAnyReference then Emit.dereference part else Pure.pure part
          Lowering.bindVariableWithin m' (k' + k) elem part) := by
      refine .bind (.lift (.found hm.var?)) fun _ _ => .ite (fun _ => ?_) fun _ => ?_
      · exact .bind .dereference fun _ _ => ih (Nat.le_add_left ..)
      · exact .pure_bind (ih (Nat.le_add_left ..))
    dsimp only
    cases v.ty.array? with
    | some => exact .bind (.quiet .elementAt) fun part _ => hpart part
    | none => exact .bind (.quiet .member) fun part _ => hpart part

theorem bindVariable : hw.Both ⟨os, false⟩ fun m _ => bindVariable m var v :=
  .bindVariableWithin hw.module hw.module.nestingBound_le

theorem referenceInit {init : ExprId} : hw.Both P fun _ w => referenceInit w init := by
  refine .bind .scopeMark fun _ _ => .bind (.node hw) fun _ _ => .ite (fun _ => .pure_bind ?_) fun _ => ?_
  · exact .bind (.closeScope hw) fun _ _ => .pure trivial
  · exact .bind .addressOf fun _ _ => .bind .dereference fun _ _ =>
      .bind (.closeScope hw) fun _ _ => .pure trivial

theorem initialized {init : Option ExprId} : hw.Both P (initialized · · ty init) := by
  refine .bind (.valueType hw) fun _ _ => ?_
  cases init with
  | none => exact .mono .declareLocal fun _ _ => trivial
  | some init =>
    refine .bind (.lift (.exprAt hw.module)) fun e _ => ?_
    cases e.kind with
    | constant =>
      exact .bind (.quiet (.constantValue hw.module)) fun _ _ => .bind (.lift .renderParen) fun _ _ =>
        .mono .declareWith fun _ _ => trivial
    | _ => exact .bind .declareLocal fun _ h => .bind (.discard (.inScope hw (.some h))) fun _ _ => .pure trivial

theorem variableDecl : hw.Both ⟨os, false⟩ (variableDecl · · var) := by
  refine .bind (.lift (.found hw.module.var?)) fun decl _ => ?_
  refine .ite (fun _ => ?_) fun _ => .ite (fun _ => ?_) fun _ => ?_
  · refine .bind (.quiet .global?) fun _ _ => .ite (fun _ => ?_) fun _ => .pure trivial
    exact .quiet (.defineGlobal hw.module)
  · cases decl.init with
    | none => exact .throw rfl
    | some init => exact .bind (.referenceInit hw) fun _ _ => .bindVariable hw
  · exact .bind (.initialized hw) fun _ _ => .bindVariable hw

/-! ### Loops -/

theorem loopTest : hw.Both P fun _ w => loopTest w test :=
  .bind (.condition hw) fun _ _ => .bind .beginIfNot fun _ _ => .bind (.exitLine rfl) fun _ _ => .endIf

omit hw in
theorem labelIfAny {label : Option Nat} : Stays safe P (labelIfAny label) := by
  cases label with
  | some => exact .line rfl
  | none => exact .pure trivial

theorem loop {test iteration : Option ExprId} {body body' : Emit Unit}
    (hbody : ∀ os, Stays safe ⟨os, bal⟩ body body') :
    Stays safe ⟨os, bal⟩ (loop w test iteration body) (loop w' test iteration body') := by
  refine .bind .enterLoop fun outer _ => .bind .beginWhileTrue fun _ _ => ?_
  have hend : Steps safe ⟨.block :: .loop outer :: os, bal⟩ (do
      Emit.endWhile
      let inner ← Emit.leaveLoop outer
      Lowering.labelIfAny inner.breakLabel
      Emit.note .leavesLoop) (fun _ => ⟨os, bal⟩) :=
    .bind .endWhile fun _ _ => .bind .leaveLoop fun _ _ => .bind .labelIfAny fun _ _ => .note (by simp)
  cases test
  on_goal 2 => refine .bind (.loopTest hw) fun _ _ => ?_
  all_goals
    refine .bind (hbody _) fun _ _ => ?_
    cases iteration with
    | some =>
      exact .bind .getFunction fun _ _ => .bind .labelIfAny fun _ _ => .bind (.note (by simp)) fun _ _ =>
        .bind (.discard (.inScope hw .none)) fun _ _ => hend
    | none => exact hend

theorem foreachLoop {range iter last : VarId} {iteration : ExprId} {element : VarId} {body : ExprId} :
    hw.Both P (foreachLoop · · range iter last test iteration element body) := by
  refine .bind .scopeMark fun _ _ => .bind (.variableDecl hw) fun _ _ => .bind (.variableDecl hw) fun _ _ => ?_
  refine .bind (.variableDecl hw) fun _ _ => .bind (.loop hw fun os => ?_) fun _ _ => .closeScope hw
  exact .bind .scopeMark fun _ _ => .bind (.variableDecl hw) fun _ _ =>
    .bind (.discard (.inScope hw .none)) fun _ _ => .closeScope hw

/-! ### Returns -/

theorem finishReturn {value : Option Value} : hw.Both P fun _ w => finishReturn w value :=
  .bind .isTerminated fun _ _ => .ite (fun _ => .pure trivial) fun _ =>
    .bind (.runAllCleanups hw) fun _ _ => .returnWith

/-- A result that goes through a pointer has a place to go. -/
theorem returnValue : hw.Both ⟨os, false⟩ fun _ w => returnValue w id := by
  intro f₀ d h₀ hd hp
  refine .getFunction_bind ?_
  cases hreturns : d.func.returns with
  | nothing =>
    have h : hw.Both ⟨os, false⟩ fun _ w => Functor.discard (w.expr id none) >>= fun _ => Lowering.finishReturn w none :=
      .bind (.discard (.node hw)) fun _ _ => .finishReturn hw
    exact h f₀ d h₀ hd hp
  | indirect =>
    have hplaced (hs : safe = true) := (hp.sane (h₀ hs)).returnAddress hreturns
    refine .getFunction_bind ?_
    cases haddress : d.func.returnAddress with
    | none =>
      refine ⟨.throw, ⟨fun hs => ?_, fun _ h => h⟩, .throw⟩
      obtain ⟨_, hsome, -⟩ := hplaced hs
      rw [haddress] at hsome
      cases hsome
    | some address =>
      have hdest : address.Placed safe := by
        intro hs
        obtain ⟨v, hv, hrvalue⟩ := hplaced hs
        cases haddress.symm.trans hv
        exact hrvalue
      have h : hw.Both ⟨os, false⟩ fun _ w =>
          Functor.discard (w.expr id (some address)) >>= fun _ => Lowering.finishReturn w none :=
        .bind (.discard (hw.expr os id _ (.some hdest))) fun _ _ => .finishReturn hw
      exact h f₀ d h₀ hd hp
  | reference =>
    have h : hw.Both ⟨os, false⟩ (fun _ w => w.expr id none >>= fun value => do
        unless value.isNone do
          let address ← Emit.copyToLocal (← Emit.addressOf value)
          Lowering.finishReturn w (some address)) :=
      .bind (.node hw) fun _ _ => .ite (fun _ => .pure trivial) fun _ =>
        .bind .addressOf fun _ _ => .bind .copyToLocal fun _ _ => .finishReturn hw
    exact h f₀ d h₀ hd hp
  | direct =>
    have h : hw.Both ⟨os, false⟩ (fun _ w => w.expr id none >>= fun value => do
        unless value.isNone do
          let pending ← Emit.cleanupsSince 0
          let value ← if pending.isEmpty || value.isConstant then Pure.pure value else Emit.copyToLocal value
          Lowering.finishReturn w (some value)) :=
      .bind (.node hw) fun _ _ => .ite (fun _ => .pure trivial) fun _ => .bind .allCleanups fun _ _ =>
        .ite (fun _ => .pure_bind (.finishReturn hw)) fun _ => .bind .copyToLocal fun _ _ => .finishReturn hw
    exact h f₀ d h₀ hd hp

theorem returnStmt {value : Option ExprId} : hw.Both ⟨os, false⟩ fun _ w => returnStmt w value := by
  cases value with
  | some => exact .returnValue hw
  | none => exact .bind (.runAllCleanups hw) fun _ _ => .returnWith

theorem sourceStatement {s : Stmt} : hw.Both ⟨os, false⟩ (Lowering.statement · · s) := by
  cases s with
  | expression => exact .discard (.inScope hw .none)
  | varDecl => exact .variableDecl hw
  | whileLoop =>
    unfold Lowering.statement
    exact .loop hw fun _ => .discard (.inScope hw .none)
  | forLoop init =>
    refine .bind .scopeMark fun _ _ => ?_
    cases init with
    | some =>
      exact .bind (hw.stmt _ _) fun _ _ => .bind (.loop hw fun _ => .discard (.inScope hw .none)) fun _ _ =>
        .closeScope hw
    | none => exact .bind (.loop hw fun _ => .discard (.inScope hw .none)) fun _ _ => .closeScope hw
  | foreachLoop => exact .foreachLoop hw
  | returnWith => exact .returnStmt hw
  | defer => exact .addDeferred
  | noOp | staticAssert => exact .pure trivial

/-! ### Expressions -/

theorem variableRef : hw.Both P fun m _ => variableRef m var := by
  refine .bind .local? fun found _ => ?_
  cases found with
  | some => exact .pure trivial
  | none =>
    refine .bind (.quiet .global?) fun found _ => ?_
    cases found with
    | some => exact .pure trivial
    | none => exact .bind (.lift (.found hw.module.var?)) fun _ _ => .throw rfl

theorem call {func : FuncId} {args : List ExprId} {order : ArgOrder} (hdest : DestPlaced safe dest) :
    hw.Both ⟨os, false⟩ (call · · func args order ty dest) := by
  refine .bind (.lift (.found hw.module.function?)) fun f _ => ?_
  cases f.intrinsic with
  | some => exact .intrinsicCall hw hdest
  | none => exact .directCall hw hdest

theorem destructorCall {call : Option ExprId} : hw.Both P fun _ w => destructorCall w v call := by
  cases call with
  | some => exact .withBound hw .none
  | none => exact .pure trivial

theorem exprKind {e : Expr} (hdest : DestPlaced safe dest) : hw.Both ⟨os, false⟩ (exprKind · · e dest) := by
  unfold Lowering.exprKind
  cases e.kind with
  | variableRef => exact .variableRef hw
  | functionRef =>
    exact .bind (.quiet (.declareFunction hw.module)) fun _ _ => .bind (.valueType hw) fun _ _ => .quiet .rvalue
  | constant => exact .quiet (.constantValue hw.module)
  | valueReference => exact .boundValue
  | unary => exact .unary hw
  | binary => exact .binary hw hdest
  | call => exact .call hw hdest
  | indirectCall => exact .indirectCall hw hdest
  | cast => exact .castTo hw
  | bitCast => exact .bitCast hw hdest
  | optionalCast => exact .optionalCast hw hdest
  | takeReference | takeMoveReference => exact .bind (.node hw) fun _ _ => .mono .materialize fun _ _ => trivial
  | tuple | aggregateInit => exact .memberInit hw hdest
  | arrayValueInit => exact .arrayValueInit hw hdest
  | aggregateDefaultConstruct => exact .aggregateDefault hw hdest
  | arrayDefaultConstruct => exact .arrayDefault hw hdest
  | optionalDefaultConstruct | builtinDefaultConstruct => exact .bind (.valueType hw) fun _ _ => .quiet .zeroValue
  | aggregateCopyConstruct | aggregateMoveConstruct => exact .aggregateConstruct hw hdest
  | arrayCopyConstruct | arrayMoveConstruct => exact .arrayConstruct hw hdest
  | optionalCopyConstruct | optionalMoveConstruct => exact .optionalConstruct hw hdest
  | trivialCopyConstruct | trivialRelocate => exact .trivialCopy hw
  | aggregateDestruct =>
    exact .bind (.completeTypeOf hw.module) fun _ _ => .bind (.node hw) fun _ _ =>
      .bind (.memberDestructs hw) fun _ _ => .pure trivial
  | arrayDestruct => exact .bind (.arrayDestruct hw) fun _ _ => .pure trivial
  | optionalDestruct => exact .bind (.optionalDestruct hw) fun _ _ => .pure trivial
  | baseTypeDestruct =>
    exact .bind (.completeTypeOf hw.module) fun _ _ => .bind (.node hw) fun _ _ =>
      .bind (.destructorCall hw) fun _ _ => .bind (.memberDestructs hw) fun _ _ => .pure trivial
  | destructValue => exact .bind (.node hw) fun _ _ => .bind (.destructorCall hw) fun _ _ => .pure trivial
  | aggregateSwap => exact .bind (.aggregateSwap hw) fun _ _ => .pure trivial
  | arraySwap => exact .bind (.arraySwap hw) fun _ _ => .pure trivial
  | optionalSwap => exact .bind (.optionalSwap hw) fun _ _ => .pure trivial
  | baseTypeSwap => exact .bind (.baseTypeSwap hw) fun _ _ => .pure trivial
  | trivialSwap => exact .bind (.trivialSwap hw) fun _ _ => .pure trivial
  | aggregateAssign => exact .aggregateAssign hw
  | arrayAssign => exact .arrayAssign hw
  | optionalAssign => exact .optionalAssign hw
  | optionalNullAssign => exact .optionalNullAssign hw
  | optionalValueAssign => exact .optionalValueAssign hw
  | optionalReferenceValueAssign => exact .optionalReferenceAssign hw
  | baseTypeAssign => exact .baseTypeAssign hw
  | trivialAssign => exact .trivialAssign hw
  | memberAccess => exact .memberAccess hw
  | rvalueMemberAccess => exact .rvalueMemberAccess hw hdest
  | optionalExtractValue => exact .optionalExtract hw hdest
  | subscript => exact .subscript hw
  | rvalueArraySubscript => exact .rvalueArraySubscript hw
  | tupleSubscript => exact .tupleSubscript hw hdest
  | rvalueTupleSubscript => exact .rvalueTupleSubscript hw hdest
  | compound => exact .compound hw hdest
  | ifElse => exact .ifElse hw hdest
  | ifDecided test thenBlock elseBlock =>
    dsimp only
    cases if test then some thenBlock else elseBlock with
    | some => exact hw.expr os _ dest hdest
    | none => exact .pure trivial
  | switch => exact .switchOn hw hdest
  | breakLoop => exact .bind (.breakLoop hw) fun _ _ => .pure trivial
  | continueLoop => exact .bind (.continueLoop hw) fun _ _ => .pure trivial
  | unreachable => exact .bind .unreachable fun _ _ => .pure trivial

omit hw in
theorem storeResult : Stays safe P (storeResult v dest) := by
  cases dest with
  | some => exact .ite (fun _ => .pure trivial) fun _ => .whenNot (fun _ => .assign) (.pure trivial)
  | none => exact .pure trivial

omit hw in
theorem addOwnCleanup {e : Expr} : Stays safe ⟨os, false⟩ (addOwnCleanup e v) := by
  unfold Lowering.addOwnCleanup
  cases e.cleanup.action with
  | arrayRest => exact .pure trivial
  | ofTemporary =>
    refine .ite (fun _ => .bind .addTemporaryCleanup fun _ _ => .pure trivial) fun _ => ?_
    exact .bind .materialize fun _ _ => .bind .addTemporaryCleanup fun _ _ => .pure trivial
  | none | ofVariable | trivial | deferred => exact .bind .addTemporaryCleanup fun _ _ => .pure trivial

theorem exprNode (hdest : DestPlaced safe dest) : hw.Both ⟨os, false⟩ (exprNode · · id dest) := by
  refine .bind (.lift (.exprAt hw.module)) fun e _ => ?_
  have hdest' : DestPlaced safe (if e.category == .noreturn then none else dest) := by
    split
    · exact .none
    · exact hdest
  refine .bind (.exprKind hw hdest') fun _ _ => .bind .storeResult fun _ _ => .bind .addOwnCleanup fun _ _ => ?_
  exact .bind (.note nofun) fun _ _ => .pure trivial

theorem stmtNode {id : StmtId} : hw.Both ⟨os, false⟩ (stmtNode · · id) :=
  .bind (.lift (.found hw.module.stmt?)) fun _ _ => .sourceStatement hw

end

end Steps

/-- The nodes of a module are lowered so that nothing is left open, to whichever depth, and in the same way in a longer
module, where they may be nested deeper. The induction is on the depth. -/
theorem Lowering.walk_bracketed_extend (hm : m.ExtendedBy m') {k k' : Nat} (hk : k ≤ k') :
    (walk m k).Bracketed safe m m' (walk m' k') := by
  induction k generalizing k' with
  | zero => exact ⟨hm, fun _ _ _ _ => .throw rfl, fun _ _ => .throw rfl, fun _ _ => .throw rfl⟩
  | succ k ih =>
    obtain ⟨k', rfl⟩ := Nat.exists_eq_add_of_le' hk
    have hw : (walk m k).Bracketed safe m m' (walk m' (k' + k)) := ih (Nat.le_add_left ..)
    exact ⟨hm, fun _ _ _ hdest => .exprNode hw hdest, fun _ _ => .stmtNode hw, fun _ _ => .runCleanup hw⟩

theorem Lowering.walk_bracketed (safe : Bool) (m : Module) (depth : Nat) : (walk m depth).Bracketed safe m :=
  walk_bracketed_extend (.refl m) le_rfl

end CBackend
