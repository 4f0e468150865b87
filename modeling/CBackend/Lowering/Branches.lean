import CBackend.Lowering.Operands

/-!
# Blocks, conditionals and switches

The branches of a conditional that yields a temporary construct it in one place; the branches of
one that yields storage leave its address in a pointer. Conditions and the values of blocks are
taken before the cleanups of their own temporaries run.
-/

namespace CBackend.Lowering

open IR

/-- Where the branches of a conditional leave their value. -/
inductive BranchResult
  | nothing
  /-- In storage, in which each branch constructs it. -/
  | storage (v : Value)
  /-- In a pointer, which each branch sets to the address of its value. -/
  | pointer (v : Value)

section

variable (m : Module) (w : Walk)

/-- Lowers statements until one of them leaves for good. -/
def statements : List StmtId → Emit Unit
  | [] => pure ()
  | s :: ss => do
    if ← Emit.isTerminated then Emit.note .skips
    else
      w.stmt s
      statements ss

/-- The value of a block's final expression. A temporary that is not a variable is copied if
cleanups are going to run. -/
def finalValue (final : ExprId) (isRvalue : Bool) (mark : Nat) (dest : Option Value) :
    Emit Value := do
  let value ← w.expr final dest
  if isRvalue && dest.isNone && !value.isNone && !value.isVariable &&
      !(← Emit.cleanupsSince mark).isEmpty then
    Emit.copyToLocal value
  else
    pure value

/-- A block: its statements, its value and its cleanups. -/
def compound (stmts : List StmtId) (final : Option ExprId) (isRvalue : Bool)
    (dest : Option Value) : Emit Value := do
  let mark ← Emit.scopeMark
  statements w stmts
  let result ← match final with
    | some final => do
      if ← Emit.isTerminated then
        Emit.note .skips
        pure Value.none
      else finalValue w final isRvalue mark dest
    | none => pure Value.none
  w.closeScope mark
  pure result

/-- The condition of a branch. Its cleanups run before the branch, and its value is kept from
them. -/
def condition (id : ExprId) : Emit Value := do
  let mark ← Emit.scopeMark
  let value ← w.expr id none
  let value ← if (← Emit.cleanupsSince mark).isEmpty then pure value else Emit.copyToLocal value
  w.closeScope mark
  pure value

/-! ### Branches -/

/-- Prepares the place in which the branches leave their value. -/
def beginBranches (ty : Ty) (category : Category) (dest : Option Value) : Emit BranchResult := do
  if ty.isVoid then pure .nothing
  else
    match category with
    | .rvalue => do pure (.storage (← resultStorage m dest ty))
    | .lvalue => do
      let pointer ← Emit.pointerFor (← valueType m ty) false
      pure (.pointer (← Emit.declareLocal pointer))
    | .noreturn | .none => pure .nothing

/-- Lowers one branch, and tells whether control leaves it for good. -/
def branch (id : ExprId) (result : BranchResult) : Emit Bool := do
  match result with
  | .nothing => discard <| w.inScope id none
  | .storage v => discard <| w.inScope id (some v)
  | .pointer pointer =>
    let mark ← Emit.scopeMark
    let value ← w.expr id none
    unless value.isNone || (← Emit.isTerminated) do
      let address ← Emit.addressOf value
      Emit.assign pointer address
    w.closeScope mark
  Emit.isTerminated

/-- The value that the branches left. -/
def endBranches : BranchResult → Emit Value
  | .nothing => pure .none
  | .storage v => pure v
  | .pointer v => Emit.dereference v

/-- The value of a conditional, or none if no branch is left by falling out of it. -/
def joinBranches (allTerminated : Bool) (result : BranchResult) : Emit Value := do
  if allTerminated then
    Emit.setTerminated true
    pure .none
  else
    endBranches result

/-- A conditional. -/
def ifElse (ty : Ty) (category : Category) (test thenBlock : ExprId)
    (elseBlock : Option ExprId) (dest : Option Value) : Emit Value := do
  let test ← condition w test
  let result ← beginBranches m ty category dest
  Emit.beginIf test
  let thenTerminated ← branch w thenBlock result
  let elseTerminated ← match elseBlock with
    | some elseBlock => do
      Emit.beginElse
      branch w elseBlock result
    | none => pure false
  Emit.endIf
  joinBranches (thenTerminated && elseTerminated) result

/-! ### Switches -/

/-- The cases of an integral switch; tells whether control leaves all of them for good. -/
def integralCases (matchedTy : Ty) (result : BranchResult) : List SwitchCase → Emit Bool
  | [] => pure true
  | c :: cs => do
    let labels ← c.values.mapM fun value => constantExpr m true value matchedTy
    Emit.beginCase labels
    let terminated ← branch w c.expr result
    Emit.endCase
    let rest ← integralCases matchedTy result cs
    pure (terminated && rest)

/-- The default of an integral switch. A switch whose cases cover every value has one that control
never reaches. -/
def integralDefault (default : Option ExprId) (isComplete : Bool) (result : BranchResult) :
    Emit Bool := do
  match default with
  | some default =>
    Emit.beginDefaultCase
    let terminated ← branch w default result
    Emit.endCase
    pure terminated
  | none =>
    if isComplete then
      Emit.beginDefaultCase
      Emit.unreachable
      Emit.endCase
      pure true
    else
      pure false

/-- A switch over integers; tells whether control leaves all branches for good. -/
def integralSwitch (matched : Value) (matchedTy : Ty) (cases : List SwitchCase)
    (default : Option ExprId) (isComplete : Bool) (result : BranchResult) : Emit Bool := do
  let outer ← Emit.beginSwitch matched
  let casesTerminated ← integralCases m w matchedTy result cases
  let defaultTerminated ← integralDefault w default isComplete result
  Emit.endSwitch outer
  pure (casesTerminated && defaultTerminated)

/-- The test of a string of the given length against one constant: the lengths are compared, then
the bytes. -/
def stringTest (length first : C.Expr) : Const → Emit C.Expr
  | .str s =>
    if s.isEmpty then pure (.binary "==" length (.nat 0))
    else do
      Emit.addInclude "string.h"
      let n ← Emit.internString s
      let size := C.Expr.nat s.utf8ByteSize
      let bytes := C.Expr.call (.symbol "memcmp") [first, .name (.string n), size]
      pure (.paren (.binary "&&" (.binary "==" length size) (.binary "==" bytes (.nat 0))))
  | value => throw (.nonStringCase value)

/-- The disjunction of tests. -/
def anyOf : List C.Expr → C.Expr
  | [] => .nat 0
  | e :: es => es.foldl (fun acc e => .binary "||" acc e) e

/-- The precedence of a disjunction of tests. -/
def anyOfPrecedence : List C.Expr → C.Precedence
  | [.paren _] => .atom
  | [_] => .equality
  | _ => .logicalOr

/-- The condition under which a string switch takes a case. -/
def stringCaseCondition (matched : Value) (c : SwitchCase) : Emit Value := do
  let first ← Emit.member matched 0
  let last ← Emit.member matched 1
  let length ← last.binary "-" first .additive
  let first ← first.asInitializer
  let tests ← c.values.mapM (stringTest length first)
  Emit.rvalue (anyOf tests) (← Emit.boolType) (anyOfPrecedence tests)

/-- The cases of a string switch as a chain of conditionals; tells whether control leaves all of
them for good. -/
def stringCases (matched : Value) (result : BranchResult) (isFirst : Bool) :
    List SwitchCase → Emit Bool
  | [] => pure true
  | c :: cs => do
    let test ← stringCaseCondition matched c
    if isFirst then Emit.beginIf test else Emit.beginElseIf test
    let terminated ← branch w c.expr result
    let rest ← stringCases matched result false cs
    pure (terminated && rest)

/-- A switch over strings; tells whether control leaves all branches for good. Cases without values
are never taken. -/
def stringSwitch (matched : Value) (cases : List SwitchCase) (default : Option ExprId)
    (result : BranchResult) : Emit Bool := do
  let matched ← Emit.materialize matched
  match cases.filter (!·.values.isEmpty), default with
  | [], some default => branch w default result
  | [], none => pure false
  | cases, default => do
    let casesTerminated ← stringCases w matched result true cases
    let defaultTerminated ← match default with
      | some default => do
        Emit.beginElse
        branch w default result
      | none => pure false
    Emit.endIf
    pure (casesTerminated && defaultTerminated)

/-- A switch. -/
def switchOn (ty : Ty) (category : Category) (matched : ExprId) (cases : List SwitchCase)
    (default : Option ExprId) (isComplete : Bool) (dest : Option Value) : Emit Value := do
  let matchedTy ← exprTy m matched
  let matched ← condition w matched
  let result ← beginBranches m ty category dest
  let allTerminated ← match matchedTy with
    | .str => stringSwitch w matched cases default result
    | _ => integralSwitch m w matched matchedTy cases default isComplete result
  joinBranches allTerminated result

/-! ### Loop exits -/

/-- Leaves the innermost loop. -/
def breakLoop : Emit Unit := do
  w.runLoopCleanups
  Emit.note (.exitsLoop .out)
  match ← Emit.breakLabel? with
  | some label => Emit.exitLine (.goto label)
  | none => Emit.exitLine .breakOut

/-- Goes on to the next round of the innermost loop. -/
def continueLoop : Emit Unit := do
  w.runLoopCleanups
  Emit.note (.exitsLoop .next)
  match ← Emit.continueLabel? with
  | some label => Emit.exitLine (.goto label)
  | none => Emit.exitLine .continueLoop

end

end CBackend.Lowering
