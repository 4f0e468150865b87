import CBackend.Lowering.Expressions

/-!
# Function bodies

A function's parameters belong to it: their cleanups wait in the outermost scope of its body. The
entry function is called by a `main` of the usual shape.
-/

namespace CBackend.Lowering

open IR
open C (CType)

section

variable (m : Module)

/-- Takes the parameter through which the result is passed back, if the convention has one. Gives
the parameters so far and the types of the rest. -/
def resultParameter (c : Convention) (types : List CType) :
    Emit (List (CType × Nat) × List CType) := do
  match c.hasResultPointer, types with
  | true, pointer :: rest =>
    let n ← Emit.freshNumber
    match pointer.pointee? with
    | some (result, _) =>
      Emit.setReturnAddress (← Emit.referenceValue (.localVar n) result false)
    | none => pure ()
    pure ([(pointer, n)], rest)
  | _, types => pure ([], types)

/-- The value of a parameter: the parameter itself, or what it points to. -/
def parameterValue (passing : ParamPassing) (ty : CType) (n : Nat) : Emit Value :=
  match ty.pointee? with
  | some (pointee, level) =>
    if passing.isPointer then
      Emit.referenceValue (.localVar n) pointee (level == .readOnly)
    else
      Emit.variableValue (.localVar n) ty
  | none => Emit.variableValue (.localVar n) ty

/-- Binds the parameters that are passed. -/
def parameters : List (VarId × ParamPassing) → List CType → Emit (List (CType × Nat))
  | [], _ => pure []
  | (_, .omitted) :: rest, types => parameters rest types
  | _ :: _, [] => throw .parametersRunOut
  | (var, passing) :: rest, ty :: types => do
    let n ← Emit.freshNumber
    bindVariable m var (← parameterValue passing ty n)
    let later ← parameters rest types
    pure ((ty, n) :: later)

/-- Whether a function may end without a `return` although it yields something, like C's `main`. -/
def mayEndInZero (func : FuncId) (f : Function) : Bool :=
  match m.entry, f.result with
  | some entry, .builtin .i32 => entry == func
  | _, _ => false

/-- Control gets to the end of a body: the entry function returns zero, and any other function that
yields something cannot end there. -/
def fallOffEnd (func : FuncId) (f : Function) : Emit Unit := do
  match ← Emit.getFunction (·.returns) with
  | .nothing => pure ()
  | _ =>
    if mayEndInZero m func f then
      Emit.returnWith (some (← Emit.integer (← Emit.builtin .i32) 0))
    else
      Emit.unreachable

/-- Writes the definition of a function, if it has a body. -/
def functionBody (w : Walk) (func : FuncId) : Emit Unit := do
  let f ← inRange (m.function? func)
  match f.body with
  | none => pure ()
  | some body =>
    let name ← declareFunction m func
    let convention ← Convention.ofFunction m func
    let (result, types) ← signature m convention f.result (← inRange (m.paramTypes? f))
    Emit.beginFunction convention.result
    let mark ← Emit.scopeMark
    let (resultParams, types) ← resultParameter convention types
    let params ← parameters m (f.params.zip convention.params) types
    statements w body
    w.closeScope mark
    unless ← Emit.isTerminated do
      fallOffEnd m func f
    Emit.endFunction f.symbolName.isNone result name (resultParams ++ params)

/-- The lines of a `main` that calls the entry function. -/
def mainLines (c : Convention) (name : C.Name) (f : Function) : Except Fault (List C.Line) :=
  if c.params.any (· != .omitted) then .error (.entryTakesParameters f.name)
  else
    match c.result with
    | .nothing => .ok [.expression (.call (.name name) []), .returnWith (some (.nat 0))]
    | .direct => .ok [.returnWith (some (.cast .int (.call (.name name) [])))]
    | .indirect | .reference => .error (.entryResult f.name)

/-- Writes `main`, unless the entry function is `main` itself. -/
def mainWrapper (entry : FuncId) : Emit Unit := do
  let name ← declareFunction m entry
  unless name.spelling == "main" do
    let f ← inRange (m.function? entry)
    let body ← mainLines (← Convention.ofFunction m entry) name f
    Emit.addDefinition false .int []
      { name := .symbol "main", returns := .direct, steps := body.map .line ++ [.note .ends] }

end

end CBackend.Lowering
