import CBackend.C.CompilationUnit
import CBackend.Convention
import CBackend.Target
import CBackend.Value

/-!
# Drafts

A compilation unit in the making, together with the function whose body is being written. Lowering
is a computation that changes a draft and may end in a fault.

A body is kept as a list of steps: its lines, and between them notes of what lowering did there. A
note leaves no text. Cleanups in particular begin to wait without a line of their own, and the notes
say where.
-/

namespace CBackend

open IR
open C (CType)

/-- A cleanup that waits for the end of its scope. -/
structure Pending where
  cleanup : Cleanup
  /-- The temporary to be destroyed, if the cleanup is that of a temporary. -/
  value : Value
  /-- The flag under which the cleanup is done. -/
  condition : Option Value
  /-- The flag of the variable that was moved out of; it is cleared after the cleanup. -/
  indicator : Option Value
  /-- The address of the element of an array temporary that was moved out. -/
  movedElement : Option Value
  /-- The variable that the cleanup destroys, if it is that of a variable. -/
  owner : Option VarId := none

/-- How control leaves a round of a loop of the source program before its end. -/
inductive LoopExit
  /-- By `break`, and with it the loop. -/
  | out
  /-- By `continue`, for the next round. -/
  | next
  deriving DecidableEq, Repr

/-- What lowering did at a point of a body. -/
inductive Note
  /-- A cleanup begins to wait. -/
  | waits (p : Pending)
  /-- The code of a cleanup begins. -/
  | starts (p : Pending)
  /-- The code of a cleanup is over. -/
  | finishes (p : Pending)
  /-- A loop of the source program is about to be entered. -/
  | entersLoop
  /-- A loop of the source program has been left. -/
  | leavesLoop
  /-- A `break` or `continue` of the source program is about to jump. -/
  | exitsLoop (exit : LoopExit)
  /-- The iteration expression of the innermost loop begins. -/
  | iterates
  /-- Control cannot get here. -/
  | ends
  /-- Something is left out, because control cannot get here. -/
  | skips
  /-- A variable is bound. The flag tells whether an earlier binding of it is still in scope. -/
  | declares (var : VarId) (again : Bool)
  /-- An expression with the given cleanup has been evaluated. -/
  | evaluates (cleanup : Cleanup)

/-- A step of a body: a line, or a note that leaves no text. -/
inductive Step
  | line (l : C.Line)
  | note (n : Note)

/-- The line of a step that is one. -/
def Step.line? : Step → Option C.Line
  | line l => some l
  | note _ => none

/-- The innermost loop of the source program. -/
structure LoopState where
  /-- The number of cleanups that were waiting when the loop was entered. -/
  cleanupBase : Nat := 0
  /-- Whether a C `switch` lies between here and the loop, so that `break` would leave only it. -/
  inSwitch : Bool := false
  /-- The label after the loop, once it is needed. -/
  breakLabel : Option Nat := none
  /-- The label before the iteration expression, once it is needed. -/
  continueLabel : Option Nat := none
  /-- Whether C's `continue` would skip an iteration expression. -/
  continueNeedsLabel : Bool := false
  deriving DecidableEq, Repr

/-- The function whose body is being written. -/
structure FunctionDraft where
  /-- The steps written so far. -/
  steps : Array Step := #[]
  /-- The number of open blocks. -/
  indent : Nat := 0
  /-- The next number of a local variable or label. -/
  counter : Nat := 0
  /-- Whether control cannot get past the last line. -/
  terminated : Bool := false
  /-- The values of the variables, the latest binding first. -/
  locals : List (VarId × Value) := []
  /-- The flags of the variables that are moved out of, the latest first. -/
  indicators : List (VarId × Value) := []
  /-- The waiting cleanups, the latest first. -/
  cleanups : List Pending := []
  /-- The cleanups whose scopes are not closed yet, the latest first. Unlike `cleanups` it keeps those
  of a scope that is being closed until their own turn comes. -/
  scope : List Pending := []
  loop : LoopState := {}
  /-- The bound elements, the latest first: value reference `0` is the head. -/
  bindings : List Value := []
  /-- Where a result that is passed back through a pointer goes. -/
  returnAddress : Option Value := none
  returns : ResultPassing := .nothing

/-- The body of a finished function. -/
structure Body where
  name : C.Name
  returns : ResultPassing
  steps : List Step

/-- The lines of a body. -/
def Body.lines (b : Body) : List C.Line :=
  b.steps.filterMap Step.line?

/-- How far an aggregate has been lowered, with the number of its struct. -/
inductive AggregateState
  /-- Named, but its members have not been lowered. -/
  | declared (n : Nat)
  /-- Its members are being lowered. -/
  | resolving (n : Nat)
  | resolved (n : Nat)
  /-- An aggregate that the module never defines. -/
  | incomplete (n : Nat)
  deriving DecidableEq, Repr

/-- The number of the struct. -/
def AggregateState.structNumber : AggregateState → Nat
  | declared n | resolving n | resolved n | incomplete n => n

/-- A compilation unit in the making. -/
structure Draft where
  options : Options
  unit : C.CompilationUnit := {}
  /-- The types of the scalars, in the order of `Builtin.all`. -/
  builtins : Array CType := #[]
  /-- The next number of a named type. -/
  typeCounter : Nat := 0
  /-- The next number of a value. -/
  valueCounter : Nat := 0
  globalCounter : Nat := 0
  functionCounter : Nat := 0
  /-- The string constants; the number of one is its position. -/
  strings : Array String := #[]
  globals : List (VarId × Value) := []
  /-- The functions that have a name in the output. -/
  functions : List (FuncId × C.Name) := []
  /-- The functions whose bodies are still to be written, the next one first. -/
  queue : List FuncId := []
  aggregates : List (AggregateId × AggregateState) := []
  /-- The bodies of the functions that are defined, in the order of their definitions. -/
  bodies : Array Body := #[]
  func : FunctionDraft := {}

/-- A computation on a draft that may end in a fault. -/
abbrev Emit := StateT Draft (Except Fault)

namespace Emit

/-- Changes the function whose body is being written. -/
def modifyFunction (f : FunctionDraft → FunctionDraft) : Emit Unit :=
  modify fun d => { d with func := f d.func }

/-- Reads from the function whose body is being written. -/
def getFunction {α : Type} (f : FunctionDraft → α) : Emit α := do
  pure (f (← get).func)

/-- The C spelling of a type. -/
def typeText (ty : CType) : Emit String := do
  pure ((← get).unit.types.render ty)

end Emit

end CBackend
