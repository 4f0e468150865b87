import CBackend.Lowering.Operands

/-!
# Calls

Arguments are evaluated in the order that the call states and written in the order of the
parameters. An argument is kept from the effects of those that are evaluated after it.
-/

namespace CBackend.Lowering

open IR

section

variable (m : Module) (w : Walk)

/-- Evaluates an argument, and gives what is passed for it. The flag tells whether nothing that is
evaluated later can have an effect. -/
def argument (passing : ParamPassing) (arg : ExprId) (isSafe : Bool) :
    Emit (Option C.Expr) := do
  match passing with
  | .omitted =>
    discard <| w.expr arg none
    pure none
  | .direct =>
    let value ← stabilizeUnless isSafe (← w.expr arg none)
    pure (some (← value.asInitializer))
  | .indirect =>
    -- the callee owns the temporary and destroys it
    let temp ← Emit.declareLocal (← valueType m (← exprTy m arg))
    discard <| w.expr arg (some temp)
    pure (some (← temp.address))
  | .reference =>
    let value ← w.expr arg none
    let address ← Emit.addressOf value
    let address ← if isSafe || value.isVariable then pure address else Emit.copyToLocal address
    pure (some (← address.asInitializer))

/-- Evaluates arguments, given with their positions in the order of evaluation. -/
def argumentsInOrder (params : List ParamPassing) :
    List (ExprId × Nat) → Emit (List (Option C.Expr))
  | [] => pure []
  | (arg, i) :: later => do
    let isSafe ← allSimple m (later.map (·.1))
    let passing ← inRange params[i]?
    let passed ← argument m w passing arg isSafe
    let rest ← argumentsInOrder params later
    pure (passed :: rest)

/-- Evaluates the arguments of a call in the given order, and gives what is passed for them in the
order of the parameters. -/
def arguments (params : List ParamPassing) (args : List ExprId) (order : ArgOrder) :
    Emit (List C.Expr) := do
  match order with
  | .regular =>
    let passed ← argumentsInOrder m w params args.zipIdx
    pure (passed.filterMap id)
  | .reversed =>
    let passed ← argumentsInOrder m w params args.zipIdx.reverse
    pure (passed.reverse.filterMap id)

/-- A call by a convention. -/
def callWith (callee : C.Expr) (c : Convention) (result : Ty) (args : List ExprId)
    (order : ArgOrder) (dest : Option Value) : Emit Value := do
  let passed ← arguments m w c.params args order
  match c.result with
  | .indirect =>
    let storage ← resultStorage m dest result
    Emit.statement (.call callee ((← storage.address) :: passed))
    pure storage
  | .reference => do
    Emit.dereferenceText (← lowerType m result false) (.call callee passed)
  | .direct =>
    let ty ← valueType m result
    match dest with
    | some dest =>
      let value ← Emit.rvalue (.call callee passed) ty .suffix
      Emit.assign dest value
      pure dest
    | none => Emit.declareWith ty (.call callee passed)
  | .nothing =>
    Emit.statement (.call callee passed)
    pure .none

/-- A call of a function that is not an intrinsic. -/
def directCall (func : FuncId) (f : Function) (args : List ExprId) (order : ArgOrder)
    (dest : Option Value) : Emit Value := do
  let name ← declareFunction m func
  let convention ← Convention.ofFunction m func
  callWith m w (.name name) convention f.result args order dest

/-- A call through a value of function type. -/
def indirectCall (callee : ExprId) (args : List ExprId) (dest : Option Value) : Emit Value := do
  match ← exprTy m callee with
  | .function result params =>
    let convention ← Convention.compute m result params
    let value ← w.expr callee none
    let value ← stabilizeUnless (← allSimple m args) value
    callWith m w (← value.asCallee) convention result args .regular dest
  | _ => throw .callOfNonFunction

end

end CBackend.Lowering
