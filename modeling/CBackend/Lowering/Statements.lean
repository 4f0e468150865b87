import CBackend.Lowering.Branches
import CBackend.Lowering.Nesting

/-!
# Statements

Every loop of the source program becomes an endless loop that tests its condition at the top. In a
loop with an iteration expression, `continue` jumps to a label in front of that expression.
-/

namespace CBackend.Lowering

open IR

section

variable (m : Module)

/-- Binds a variable to a value, or the variables of a destructuring declaration to its elements,
and makes the cleanups wait. The number bounds the nesting of such declarations. -/
def bindVariableWithin : Nat → VarId → Value → Emit Unit
  | 0, _, _ => throw .tooDeep
  | depth + 1, var, value => do
    let decl ← inRange (m.var? var)
    if decl.tupleDecls.isEmpty then
      Emit.bindLocal var value
      if decl.everMovedFrom then Emit.addIndicator var
      if decl.everMovedFrom || !decl.ty.isAnyReference then
        Emit.addVariableCleanup decl.destruction var
    else
      decl.tupleDecls.zipIdx.forM fun (elem, i) => do
        let part ← match value.ty.array? with
          | some _ => Emit.elementAt value i
          | none => Emit.member value i
        let elemDecl ← inRange (m.var? elem)
        let part ← if elemDecl.ty.isAnyReference then Emit.dereference part else pure part
        bindVariableWithin depth elem part

/-- Binds a variable to a value, or the variables of a destructuring declaration to its elements,
and makes the cleanups wait. -/
def bindVariable (var : VarId) (value : Value) : Emit Unit :=
  bindVariableWithin m (nestingBound m) var value

end

section

variable (m : Module) (w : Walk)

/-! ### Variables -/

/-- The value to which a reference is bound. -/
def referenceInit (init : ExprId) : Emit Value := do
  let mark ← Emit.scopeMark
  let value ← w.expr init none
  let value ←
    if value.isVariable then pure value
    else do Emit.dereference (← Emit.addressOf value)
  w.closeScope mark
  pure value

/-- A local variable with its initial value. -/
def initialized (ty : Ty) (init : Option ExprId) : Emit Value := do
  let cType ← valueType m ty
  match init with
  | none => Emit.declareLocal cType
  | some init =>
    match (← exprAt m init).kind with
    | .constant value =>
      let value ← constantValue m value ty
      Emit.declareWith cType (← value.asInitializer)
    | _ =>
      let storage ← Emit.declareLocal cType
      discard <| w.inScope init (some storage)
      pure storage

/-- A variable declaration. A global variable is defined where it is first declared. -/
def variableDecl (var : VarId) : Emit Unit := do
  let decl ← inRange (m.var? var)
  if decl.isGlobal then
    if (← Emit.global? var).isNone then defineGlobal m var
  else if decl.ty.isAnyReference then
    match decl.init with
    | none => throw (.referenceWithoutInit decl.name)
    | some init => bindVariable m var (← referenceInit w init)
  else
    bindVariable m var (← initialized m w decl.ty decl.init)

/-! ### Loops -/

/-- Leaves the loop unless a condition holds. -/
def loopTest (test : ExprId) : Emit Unit := do
  let test ← condition w test
  Emit.beginIfNot test
  Emit.exitLine .breakOut
  Emit.endIf

/-- Writes a label if it is needed. -/
def labelIfAny (label : Option Nat) : Emit Unit :=
  match label with
  | some n => Emit.line (.label n)
  | none => pure ()

/-- A loop with a condition at the top and an iteration expression at the bottom. -/
def loop (test iteration : Option ExprId) (body : Emit Unit) : Emit Unit := do
  let outer ← Emit.enterLoop iteration.isSome
  Emit.beginWhileTrue
  match test with
  | some test => loopTest w test
  | none => pure ()
  body
  match iteration with
  | some iteration =>
    labelIfAny (← Emit.getFunction (·.loop.continueLabel))
    Emit.note .iterates
    discard <| w.inScope iteration none
  | none => pure ()
  Emit.endWhile
  let inner ← Emit.leaveLoop outer
  labelIfAny inner.breakLabel
  Emit.note .leavesLoop

/-- A loop over a range. -/
def foreachLoop (range iter last : VarId) (test iteration : ExprId) (element : VarId)
    (body : ExprId) : Emit Unit := do
  let mark ← Emit.scopeMark
  variableDecl m w range
  variableDecl m w iter
  variableDecl m w last
  loop w (some test) (some iteration) do
    let bodyMark ← Emit.scopeMark
    variableDecl m w element
    discard <| w.inScope body none
    w.closeScope bodyMark
  w.closeScope mark

/-! ### Return -/

/-- Runs every cleanup and returns, unless control has left already. -/
def finishReturn (value : Option Value) : Emit Unit := do
  unless ← Emit.isTerminated do
    w.runAllCleanups
    Emit.returnWith value

/-- Returns the value of an expression. A value that a cleanup could change is copied first. -/
def returnValue (id : ExprId) : Emit Unit := do
  match ← Emit.getFunction (·.returns) with
  | .nothing =>
    discard <| w.expr id none
    finishReturn w none
  | .indirect =>
    match ← Emit.getFunction (·.returnAddress) with
    | none => throw .noReturnAddress
    | some address =>
      discard <| w.expr id (some address)
      finishReturn w none
  | .reference =>
    let value ← w.expr id none
    unless value.isNone do
      let address ← Emit.copyToLocal (← Emit.addressOf value)
      finishReturn w (some address)
  | .direct =>
    let value ← w.expr id none
    unless value.isNone do
      let pending ← Emit.cleanupsSince 0
      let value ←
        if pending.isEmpty || value.isConstant then pure value else Emit.copyToLocal value
      finishReturn w (some value)

/-- A return. -/
def returnStmt (value : Option ExprId) : Emit Unit :=
  match value with
  | some id => returnValue w id
  | none => do
    w.runAllCleanups
    Emit.returnWith none

/-- A statement. -/
def statement (s : Stmt) : Emit Unit := do
  match s with
  | .expression id => discard <| w.inScope id none
  | .varDecl var => variableDecl m w var
  | .whileLoop test body => loop w (some test) none (discard <| w.inScope body none)
  | .forLoop init test iteration body =>
    let mark ← Emit.scopeMark
    match init with
    | some init => w.stmt init
    | none => pure ()
    loop w test iteration (discard <| w.inScope body none)
    w.closeScope mark
  | .foreachLoop range iter last test iteration element body =>
    foreachLoop m w range iter last test iteration element body
  | .returnWith value => returnStmt w value
  | .defer cleanup => Emit.addDeferred cleanup
  | .noOp | .staticAssert => pure ()

end

end CBackend.Lowering
