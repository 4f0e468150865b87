import CBackend.Draft.Lines

/-!
# Named entities of a draft

Includes, string constants, global variables and functions. Each is entered once: a second request
for an include or a string finds the first one.
-/

namespace CBackend

open IR
open C (CType)

namespace Emit

/-- Includes a header, once. -/
def addInclude (header : String) : Emit Unit :=
  modify fun d =>
    if d.unit.includes.contains header then d
    else { d with unit.includes := d.unit.includes.push header }

/-- Adds a variable with static storage. -/
def addVariable (v : C.StaticVariable) : Emit Unit :=
  modify fun d => { d with unit.statics := d.unit.statics.push v }

/-- The number of a string constant; equal strings share one. -/
def internString (s : String) : Emit Nat := do
  let d ← get
  match d.strings.findIdx? (· == s) with
  | some n => pure n
  | none =>
    let byteType ← builtin .u8
    modify fun d => { d with strings := d.strings.push s }
    addVariable (.string d.strings.size byteType s)
    pure d.strings.size

/-- Defines a global variable and binds it. -/
def addGlobal (var : VarId) (ty : CType) (init : C.Expr) : Emit Value := do
  let n := (← get).globalCounter
  modify fun d => { d with globalCounter := n + 1 }
  addVariable (.global n ty init)
  let value ← variableValue (.global n) ty
  modify fun d => { d with globals := (var, value) :: d.globals }
  pure value

/-- The value of a global variable that is defined. -/
def global? (var : VarId) : Emit (Option Value) := do
  pure ((← get).globals.lookup var)

/-- The name of a function that has one. -/
def functionName? (func : FuncId) : Emit (Option C.Name) := do
  pure ((← get).functions.lookup func)

/-- Names a function, and queues its body if it has one. -/
def registerFunction (func : FuncId) (name : C.Name) (hasBody : Bool) : Emit Unit :=
  modify fun d =>
    { d with
      functions := (func, name) :: d.functions
      queue := if hasBody then d.queue ++ [func] else d.queue }

/-- Takes the next function whose body is to be written. -/
def nextQueued? : Emit (Option FuncId) := do
  match (← get).queue with
  | [] => pure none
  | func :: rest =>
    modify fun d => { d with queue := rest }
    pure (some func)

/-- The next name of a function that only the unit itself refers to. -/
def freshFunctionName : Emit C.Name := do
  let n := (← get).functionCounter
  modify fun d => { d with functionCounter := n + 1 }
  pure (.function n)

/-- Adds a function declaration. -/
def addPrototype (p : C.Prototype) : Emit Unit :=
  modify fun d => { d with unit.prototypes := d.unit.prototypes.push p }

/-- Adds a function definition with its body. -/
def addDefinition (isStatic : Bool) (result : CType) (params : List (CType × Nat)) (body : Body) :
    Emit Unit :=
  modify fun d =>
    { d with
      unit.definitions :=
        d.unit.definitions.push { isStatic, result, name := body.name, params, body := body.lines }
      bodies := d.bodies.push body }

end Emit

end CBackend
