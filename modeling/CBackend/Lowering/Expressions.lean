import CBackend.Lowering.Access
import CBackend.Lowering.Calls
import CBackend.Lowering.Intrinsics
import CBackend.Lowering.Statements

/-!
# Expressions

Lowers one expression by its kind, and ties the knot: the nodes below a node are lowered in the same
way. A destination is a place in which the value is to be constructed; without one the value is
given back as a place, an expression or a fresh local variable.

The depth of the nesting is bounded by a number that only lowering without an end exceeds.
-/

namespace CBackend.Lowering

open IR

section

variable (m : Module) (w : Walk)

/-- The value of a variable that has been declared. -/
def variableRef (var : VarId) : Emit Value := do
  match ← Emit.local? var with
  | some value => pure value
  | none =>
    match ← Emit.global? var with
    | some value => pure value
    | none => throw (.undeclaredVariable (← inRange (m.var? var)).name)

/-- A function as a value. -/
def functionRef (func : FuncId) (ty : Ty) : Emit Value := do
  let name ← declareFunction m func
  Emit.rvalue (.name name) (← valueType m ty) .atom

/-- A call of a function of the module. -/
def call (func : FuncId) (args : List ExprId) (order : ArgOrder) (ty : Ty)
    (dest : Option Value) : Emit Value := do
  let f ← inRange (m.function? func)
  match f.intrinsic with
  | some intrinsic => intrinsicCall m w intrinsic args ty dest
  | none => directCall m w func f args order dest

/-- Runs a destructor call for a value, if there is one. -/
def destructorCall (value : Value) (call : Option ExprId) : Emit Unit :=
  match call with
  | some call => w.withBound [value] call none
  | none => pure ()

/-- Lowers an expression by its kind. -/
def exprKind (e : Expr) (dest : Option Value) : Emit Value := do
  match e.kind with
  | .variableRef var => variableRef m var
  | .functionRef func => functionRef m func e.ty
  | .constant value => constantValue m value e.ty
  | .valueReference index => Emit.boundValue index
  | .unary op operand => unary m w op operand e.ty
  | .binary op lhs rhs => binary m w op lhs rhs e.ty dest
  | .call func args order => call m w func args order e.ty dest
  | .indirectCall callee args => indirectCall m w callee args dest
  | .cast inner => castTo m w inner e.ty
  | .bitCast inner => bitCast m w inner e.ty dest
  | .optionalCast inner => optionalCast m w inner e.ty dest
  | .takeReference inner | .takeMoveReference inner => do
    Emit.materialize (← w.expr inner none)
  | .tuple exprs | .aggregateInit exprs => memberInit m w exprs e.ty dest
  | .arrayValueInit value copyExpr => arrayValueInit m w value copyExpr e.ty dest
  | .aggregateDefaultConstruct exprs => aggregateDefault m w exprs e.ty dest
  | .arrayDefaultConstruct elemExpr => arrayDefault m w elemExpr e.ty dest
  | .optionalDefaultConstruct | .builtinDefaultConstruct => do
    Emit.zeroValue (← valueType m e.ty)
  | .aggregateCopyConstruct copied exprs => aggregateConstruct m w copied exprs e.ty dest true
  | .aggregateMoveConstruct moved exprs => aggregateConstruct m w moved exprs e.ty dest false
  | .arrayCopyConstruct copied elemExpr => arrayConstruct m w copied elemExpr e.ty dest true
  | .arrayMoveConstruct moved elemExpr => arrayConstruct m w moved elemExpr e.ty dest false
  | .optionalCopyConstruct copied valueExpr =>
    optionalConstruct m w copied valueExpr e.ty dest true
  | .optionalMoveConstruct moved valueExpr =>
    optionalConstruct m w moved valueExpr e.ty dest false
  | .trivialCopyConstruct value | .trivialRelocate value => trivialCopy w value dest
  | .aggregateDestruct value calls =>
    completeTypeOf m value
    memberDestructs w (← w.expr value none) calls
    pure .none
  | .arrayDestruct value elemCall =>
    arrayDestruct w value elemCall
    pure .none
  | .optionalDestruct value valueCall =>
    optionalDestruct m w value valueCall
    pure .none
  | .baseTypeDestruct value call memberCalls =>
    completeTypeOf m value
    let value ← w.expr value none
    destructorCall w value call
    memberDestructs w value memberCalls
    pure .none
  | .destructValue value call =>
    destructorCall w (← w.expr value none) call
    pure .none
  | .aggregateSwap lhs rhs swapExprs =>
    aggregateSwap m w lhs rhs swapExprs
    pure .none
  | .arraySwap lhs rhs swapExpr =>
    arraySwap m w lhs rhs swapExpr
    pure .none
  | .optionalSwap lhs rhs valueSwapExpr lhsMoveExpr rhsMoveExpr =>
    optionalSwap m w lhs rhs valueSwapExpr lhsMoveExpr rhsMoveExpr
    pure .none
  | .baseTypeSwap lhs rhs lhsMoveExpr rhsMoveExpr tempMoveExpr =>
    baseTypeSwap m w lhs rhs lhsMoveExpr rhsMoveExpr tempMoveExpr
    pure .none
  | .trivialSwap lhs rhs =>
    trivialSwap m w lhs rhs
    pure .none
  | .aggregateAssign lhs rhs assignExprs => aggregateAssign m w lhs rhs assignExprs
  | .arrayAssign lhs rhs assignExpr => arrayAssign m w lhs rhs assignExpr
  | .optionalAssign lhs rhs valueAssignExpr valueConstructExpr valueDestructExpr =>
    optionalAssign m w lhs rhs valueAssignExpr valueConstructExpr valueDestructExpr
  | .optionalNullAssign lhs rhs valueDestructExpr =>
    optionalNullAssign m w lhs rhs valueDestructExpr
  | .optionalValueAssign lhs rhs valueAssignExpr valueConstructExpr =>
    optionalValueAssign m w lhs rhs valueAssignExpr valueConstructExpr
  | .optionalReferenceValueAssign lhs rhs => optionalReferenceAssign w lhs rhs
  | .baseTypeAssign lhs rhs lhsDestructExpr rhsCopyExpr =>
    baseTypeAssign m w lhs rhs lhsDestructExpr rhsCopyExpr
  | .trivialAssign lhs rhs => trivialAssign m w lhs rhs
  | .memberAccess base index => memberAccess m w base index
  | .rvalueMemberAccess base index memberRefs =>
    rvalueMemberAccess m w base index memberRefs e.ty dest
  | .optionalExtractValue optional moveExpr => optionalExtract m w optional moveExpr e.ty dest
  | .subscript base index => subscript m w base index
  | .rvalueArraySubscript base index elemCleanup => rvalueArraySubscript w base index elemCleanup
  | .tupleSubscript elems index => tupleSubscript w elems index dest
  | .rvalueTupleSubscript base index elemRefs =>
    rvalueTupleSubscript m w base index elemRefs e.ty dest
  | .compound stmts final => compound w stmts final (e.category == .rvalue) dest
  | .ifElse test thenBlock elseBlock =>
    ifElse m w e.ty e.category test thenBlock elseBlock dest
  | .ifDecided test thenBlock elseBlock =>
    match if test then some thenBlock else elseBlock with
    | some block => w.expr block dest
    | none => pure .none
  | .switch matched cases default isComplete =>
    switchOn m w e.ty e.category matched cases default isComplete dest
  | .breakLoop =>
    breakLoop w
    pure .none
  | .continueLoop =>
    continueLoop w
    pure .none
  | .unreachable =>
    Emit.unreachable
    pure .none

/-- Puts a value into the destination, unless it was constructed there. -/
def storeResult (value : Value) (dest : Option Value) : Emit Value := do
  match dest with
  | some dest =>
    if value.isNone then pure value
    else
      unless value.same dest do
        Emit.assign dest value
      pure dest
  | none => pure value

/-- Makes the cleanup of a temporary wait. That of an array temporary already waits, since only the
subscript knows which element was moved out. -/
def addOwnCleanup (e : Expr) (value : Value) : Emit Value := do
  match e.cleanup.action with
  | .arrayRest _ => pure value
  | .ofTemporary _ =>
    if value.isNone then
      Emit.addTemporaryCleanup e.cleanup .none
      pure value
    else
      let value ← Emit.materialize value
      Emit.addTemporaryCleanup e.cleanup value
      pure value
  | .none | .ofVariable _ | .trivial | .deferred _ =>
    Emit.addTemporaryCleanup e.cleanup .none
    pure value

/-- Lowers an expression with its destination and its cleanup. An expression that control never
gets past has no destination. -/
def exprNode (id : ExprId) (dest : Option Value) : Emit Value := do
  let e ← exprAt m id
  let dest := if e.category == .noreturn then none else dest
  let value ← exprKind m w e dest
  let value ← storeResult value dest
  let value ← addOwnCleanup e value
  Emit.note (.evaluates e.cleanup)
  pure value

/-- Lowers the statement at a position. -/
def stmtNode (id : StmtId) : Emit Unit := do
  statement m w (← inRange (m.stmt? id))

end

/-- Lowers nodes that are nested at most to the given depth. -/
def walk (m : Module) : Nat → Walk
  | 0 =>
    { expr := fun _ _ => throw .tooDeep
      stmt := fun _ => throw .tooDeep
      cleanup := fun _ => throw .tooDeep }
  | depth + 1 =>
    { expr := fun id dest => exprNode m (walk m depth) id dest
      stmt := fun id => stmtNode m (walk m depth) id
      cleanup := fun p => (walk m depth).runCleanup p }

/-- Lowers the nodes of a module. -/
def Walk.ofModule (m : Module) : Walk :=
  walk m (nestingBound m)

end CBackend.Lowering
