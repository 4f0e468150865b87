import CBackend.IR.Const
import CBackend.IR.Operator

/-!
# Expressions, statements and cleanups

The nodes of a module. A node refers to other nodes by their positions. Every construction, copy,
move, destruction, swap and assignment of a compound value is spelled out as a plan: the node names
one expression for each element, in which the element is a *value reference*. Value reference `0`
is the element that was bound last.
-/

namespace CBackend.IR

/-- The action of a cleanup. -/
inductive CleanupAction
  | none
  /-- Destroys a variable; the expression names the variable itself. -/
  | ofVariable (call : ExprId)
  /-- Destroys a temporary; the expression names it as value reference `0`. -/
  | ofTemporary (call : ExprId)
  /-- Belongs to a temporary that needs no destruction. -/
  | trivial
  /-- Runs a deferred expression. -/
  | deferred (call : ExprId)
  /-- Destroys the elements of an array temporary other than the one that was moved out; the
  expression names the element as value reference `0`. -/
  | arrayRest (elemCall : ExprId)
  deriving DecidableEq, Repr

/-- Work to be done at the end of a scope. -/
structure Cleanup where
  action : CleanupAction := .none
  /-- The variable that was moved out of; its destruction is called off once this cleanup ran. -/
  moved : Option VarId := .none
  deriving DecidableEq, Repr

/-- Whether the cleanup has no action. -/
def Cleanup.isNull (c : Cleanup) : Bool :=
  match c.action with
  | .none => true
  | _ => false

/-- What evaluating an expression yields. -/
inductive Category
  /-- Existing storage. -/
  | lvalue
  /-- A fresh temporary. -/
  | rvalue
  /-- Control never reaches the end of the expression. -/
  | noreturn
  /-- Nothing. -/
  | none
  deriving DecidableEq, Repr

/-- The order in which the arguments of a call are evaluated. -/
inductive ArgOrder
  | regular
  | reversed
  deriving DecidableEq, Repr

/-- One case of a switch: the constants that select it and its branch. -/
structure SwitchCase where
  values : List Const
  expr : ExprId

/-- The kinds of expressions. -/
inductive ExprKind
  | variableRef (var : VarId)
  | functionRef (func : FuncId)
  | constant (value : Const)
  | valueReference (index : Nat)
  | unary (op : UnaryOp) (operand : ExprId)
  | binary (op : BinaryOp) (lhs rhs : ExprId)
  | call (func : FuncId) (args : List ExprId) (order : ArgOrder)
  /-- A call through a value of function type. -/
  | indirectCall (callee : ExprId) (args : List ExprId)
  | cast (expr : ExprId)
  /-- Reads the bytes of a value as another type. -/
  | bitCast (expr : ExprId)
  /-- Wraps a value into an optional. -/
  | optionalCast (expr : ExprId)
  | takeReference (expr : ExprId)
  | takeMoveReference (expr : ExprId)
  | tuple (elems : List ExprId)
  | aggregateInit (exprs : List ExprId)
  /-- Every element is constructed by `copyExpr` from one value. -/
  | arrayValueInit (value copyExpr : ExprId)
  | aggregateDefaultConstruct (exprs : List ExprId)
  | arrayDefaultConstruct (expr : ExprId)
  | optionalDefaultConstruct
  | builtinDefaultConstruct
  | aggregateCopyConstruct (copied : ExprId) (copyExprs : List ExprId)
  | aggregateMoveConstruct (moved : ExprId) (moveExprs : List ExprId)
  | arrayCopyConstruct (copied copyExpr : ExprId)
  | arrayMoveConstruct (moved moveExpr : ExprId)
  | optionalCopyConstruct (copied valueCopyExpr : ExprId)
  | optionalMoveConstruct (moved valueMoveExpr : ExprId)
  | trivialCopyConstruct (copied : ExprId)
  | trivialRelocate (value : ExprId)
  /-- Destroys the members that have a destructor call. -/
  | aggregateDestruct (value : ExprId) (elemCalls : List (Option ExprId))
  | arrayDestruct (value elemCall : ExprId)
  | optionalDestruct (value valueCall : ExprId)
  /-- A destructor of the type itself, then those of its members. -/
  | baseTypeDestruct (value : ExprId) (call : Option ExprId) (memberCalls : List (Option ExprId))
  | destructValue (value : ExprId) (call : Option ExprId)
  | aggregateSwap (lhs rhs : ExprId) (swapExprs : List ExprId)
  | arraySwap (lhs rhs swapExpr : ExprId)
  | optionalSwap (lhs rhs valueSwapExpr lhsMoveExpr rhsMoveExpr : ExprId)
  /-- Swaps by three moves through a temporary. -/
  | baseTypeSwap (lhs rhs lhsMoveExpr rhsMoveExpr tempMoveExpr : ExprId)
  | trivialSwap (lhs rhs : ExprId)
  | aggregateAssign (lhs rhs : ExprId) (assignExprs : List ExprId)
  | arrayAssign (lhs rhs assignExpr : ExprId)
  | optionalAssign (lhs rhs valueAssignExpr valueConstructExpr valueDestructExpr : ExprId)
  | optionalNullAssign (lhs rhs : ExprId) (valueDestructExpr : Option ExprId)
  | optionalValueAssign (lhs rhs valueAssignExpr valueConstructExpr : ExprId)
  /-- Rebinds an optional reference to the address of the right operand. -/
  | optionalReferenceValueAssign (lhs rhs : ExprId)
  | baseTypeAssign (lhs rhs lhsDestructExpr rhsCopyExpr : ExprId)
  | trivialAssign (lhs rhs : ExprId)
  | memberAccess (base : ExprId) (index : Nat)
  /-- Moves one member out of a temporary and destroys the others; the entry at `index` moves the
  member, every other entry destroys its own. -/
  | rvalueMemberAccess (base : ExprId) (index : Nat) (memberRefs : List (Option ExprId))
  | optionalExtractValue (optional : ExprId) (valueMoveExpr : Option ExprId)
  | subscript (base index : ExprId)
  /-- Takes one element of an array temporary; the rest is destroyed at the end of the scope. -/
  | rvalueArraySubscript (base index : ExprId) (elemCleanup : Cleanup)
  /-- Evaluates every element and yields one of them. -/
  | tupleSubscript (elems : List ExprId) (index : Nat)
  | rvalueTupleSubscript (base : ExprId) (index : Nat) (elemRefs : List (Option ExprId))
  | compound (stmts : List StmtId) (final : Option ExprId)
  | ifElse (condition thenBlock : ExprId) (elseBlock : Option ExprId)
  /-- A conditional that was decided before code generation. -/
  | ifDecided (condition : Bool) (thenBlock : ExprId) (elseBlock : Option ExprId)
  /-- A switch; it is complete when its cases cover every value. -/
  | switch (matched : ExprId) (cases : List SwitchCase) (default : Option ExprId)
      (isComplete : Bool)
  | breakLoop
  | continueLoop
  | unreachable

/-- An expression. -/
structure Expr where
  kind : ExprKind
  ty : Ty
  category : Category
  /-- The cleanup of the temporary that the expression yields. -/
  cleanup : Cleanup := {}

/-- A statement. -/
inductive Stmt
  | whileLoop (condition body : ExprId)
  | forLoop (init : Option StmtId) (condition iteration : Option ExprId) (body : ExprId)
  /-- A loop over a range: the range, its first and its last position are variables, and
  `element` is declared anew in each round. -/
  | foreachLoop (range iter last : VarId) (condition iteration : ExprId) (element : VarId)
      (body : ExprId)
  | returnWith (expr : Option ExprId)
  | defer (cleanup : Cleanup)
  | noOp
  | staticAssert
  | expression (expr : ExprId)
  | varDecl (var : VarId)

end CBackend.IR
