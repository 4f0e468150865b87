import CBackend.IR.Expr

/-!
# Modules

A module holds the declarations and nodes of one program in tables. Nodes refer to each other by
positions, which may be out of range; a look-up is therefore partial.
-/

namespace CBackend.IR

/-- A declared variable. -/
structure VarDecl where
  name : String
  ty : Ty
  init : Option ExprId := none
  /-- The cleanup at the end of the variable's scope. -/
  destruction : Cleanup := {}
  /-- Whether the variable is moved out of anywhere, so that its destruction is conditional. -/
  everMovedFrom : Bool := false
  /-- The variables that a destructuring declaration binds to the elements. -/
  tupleDecls : List VarId := []
  isGlobal : Bool := false

/-- A declared function. -/
structure Function where
  name : String
  /-- The name in the object file, for functions that other code refers to. -/
  symbolName : Option String := none
  params : List VarId
  result : Ty
  body : Option (List StmtId) := none
  intrinsic : Option Intrinsic := none
  /-- The header of the C library that declares the function. -/
  libraryHeader : Option String := none

/-- Whether the compiler provides the function. -/
def Function.isIntrinsic (f : Function) : Bool :=
  f.intrinsic.isSome

/-- Whether the function is defined outside the module. -/
def Function.isExternal (f : Function) : Bool :=
  f.body.isNone && f.intrinsic.isNone

/-- A property of the values of an aggregate. -/
inductive ValueTrait
  /-- Copy construction copies the bytes. -/
  | triviallyCopyConstructible
  /-- Move construction copies the bytes. -/
  | triviallyMoveConstructible
  /-- Destruction does nothing. -/
  | triviallyDestructible
  /-- A move followed by the destruction of the source copies the bytes. -/
  | triviallyRelocatable
  | defaultConstructible
  deriving DecidableEq, Repr

/-- A declared aggregate. One that is never defined can be used behind pointers only. -/
structure Aggregate where
  name : String
  isForward : Bool := false
  /-- The types of the members. -/
  members : List Ty := []
  traits : List ValueTrait := []

/-- The declarations and nodes of one program. -/
structure Module where
  exprs : Array Expr := #[]
  stmts : Array Stmt := #[]
  vars : Array VarDecl := #[]
  functions : Array Function := #[]
  aggregates : Array Aggregate := #[]
  /-- The variables that are defined first, in order. -/
  globals : Array VarId := #[]
  /-- The functions that are emitted whether or not they are called. -/
  roots : Array FuncId := #[]
  entry : Option FuncId := none

namespace Module

variable (m : Module)

/-- The expression at a position. -/
def expr? (id : ExprId) : Option Expr :=
  m.exprs[id.index]?

/-- The statement at a position. -/
def stmt? (id : StmtId) : Option Stmt :=
  m.stmts[id.index]?

/-- The variable at a position. -/
def var? (id : VarId) : Option VarDecl :=
  m.vars[id.index]?

/-- The function at a position. -/
def function? (id : FuncId) : Option Function :=
  m.functions[id.index]?

/-- The aggregate at a position. -/
def aggregate? (id : AggregateId) : Option Aggregate :=
  m.aggregates[id.index]?

/-- The types of the parameters of a function, if every parameter is a variable of the module. -/
def paramTypes? (f : Function) : Option (List Ty) :=
  f.params.mapM fun param => (m.var? param).map (·.ty)

/-- The type of a function as seen through a pointer to it. -/
def functionType? (id : FuncId) : Option Ty := do
  let f ← m.function? id
  let params ← m.paramTypes? f
  pure (.function f.result params)

mutual

/-- Whether every part of a type has a property. Scalars, pointers, references and views have
them all; an aggregate that is never defined has none. The answer is `none` if the search meets
an aggregate outside the module. -/
def hasTrait? (t : ValueTrait) : Ty → Option Bool
  | .aggregate id => (m.aggregate? id).map fun a => !a.isForward && a.traits.contains t
  | .optional payload => hasTrait? t payload
  | .array elem _ => hasTrait? t elem
  | .tuple elems => allHaveTrait? t elems
  | .void | .builtin _ | .str | .enum _ | .pointer .. | .reference .. | .moveReference _
  | .slice .. | .function .. => some true

/-- Whether every part of each type of a list has a property; the search ends at the first type
that has not. -/
def allHaveTrait? (t : ValueTrait) : List Ty → Option Bool
  | [] => some true
  | ty :: tys => do
    if ← hasTrait? t ty then allHaveTrait? t tys else pure false

end

end Module

end CBackend.IR
