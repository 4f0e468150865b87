import CBackend.Draft.Control

/-!
# Scopes of a draft

The bookkeeping of a function body: waiting cleanups, bound elements, loops and variables. A scope
is marked by the number of cleanups that wait when it is opened; the cleanups of the scope are those
that were added since.
-/

namespace CBackend

open IR
open C (CType)

namespace Emit

/-! ### Functions -/

/-- Starts a function body. -/
def beginFunction (returns : ResultPassing) : Emit Unit :=
  modify fun d => { d with func := { indent := 1, returns } }

/-- Ends a function body, and adds the definition. -/
def endFunction (isStatic : Bool) (result : CType) (name : C.Name) (params : List (CType × Nat)) :
    Emit Unit := do
  let f := (← get).func
  modify fun d => { d with func := {} }
  if !f.cleanups.isEmpty then throw .unbalancedScopes
  addDefinition isStatic result params { name, returns := f.returns, steps := f.steps.toList }

/-! ### Cleanups -/

/-- The mark of a scope that is opened now. -/
def scopeMark : Emit Nat :=
  getFunction (·.cleanups.length)

/-- The cleanups that were added since a mark, the latest first. -/
def cleanupsSince (mark : Nat) : Emit (List Pending) := do
  let cleanups ← getFunction (·.cleanups)
  if cleanups.length < mark then throw (.cleanupsBelowMark mark cleanups.length)
  pure (cleanups.take (cleanups.length - mark))

/-- Takes away the cleanups that were added since a mark, the latest first. -/
def takeCleanupsSince (mark : Nat) : Emit (List Pending) := do
  let taken ← cleanupsSince mark
  modifyFunction fun f => { f with cleanups := f.cleanups.drop taken.length }
  pure taken

/-- Goes out of the scope of the latest cleanups, of the given number. -/
def leaveScope (n : Nat) : Emit Unit :=
  modifyFunction fun f => { f with scope := f.scope.drop n }

/-- The flag that tells whether a variable still has to be destroyed. -/
def indicator? (var : VarId) : Emit (Option Value) := do
  pure ((← getFunction (·.indicators)).lookup var)

/-- Declares the flag of a variable that is moved out of somewhere. -/
def addIndicator (var : VarId) : Emit Unit := do
  let indicator ← declareWith (← boolType) (.nat 1)
  modifyFunction fun f => { f with indicators := (var, indicator) :: f.indicators }

/-- Makes a cleanup wait. -/
def addPending (p : Pending) : Emit Unit := do
  note (.waits p)
  modifyFunction fun f => { f with cleanups := p :: f.cleanups, scope := p :: f.scope }

/-- Makes a cleanup wait, unless it neither does anything nor clears a flag. -/
def addCleanup (cleanup : Cleanup) (value : Value) (condition movedElement : Option Value)
    (owner : Option VarId) : Emit Unit := do
  let indicator ← match cleanup.moved with
    | some var => indicator? var
    | none => pure none
  unless cleanup.isNull && indicator.isNone do
    addPending { cleanup, value, condition, indicator, movedElement, owner }

/-- Makes a deferred cleanup wait. -/
def addDeferred (cleanup : Cleanup) : Emit Unit :=
  addCleanup cleanup .none none none none

/-- Makes the cleanup of a variable wait, under the variable's flag if it has one. -/
def addVariableCleanup (cleanup : Cleanup) (var : VarId) : Emit Unit := do
  addCleanup cleanup .none (← indicator? var) none (some var)

/-- Makes the cleanup of a temporary wait. -/
def addTemporaryCleanup (cleanup : Cleanup) (value : Value) : Emit Unit :=
  addCleanup cleanup value none none none

/-- Makes the cleanup of an array temporary wait, of which one element was moved out. -/
def addArrayCleanup (cleanup : Cleanup) (value movedElement : Value) : Emit Unit :=
  addCleanup cleanup value none (some movedElement) none

/-! ### Bound elements -/

/-- Binds an element. -/
def bindElement (v : Value) : Emit Unit :=
  modifyFunction fun f => { f with bindings := v :: f.bindings }

/-- Takes away the element that was bound last. -/
def unbindElement : Emit Unit := do
  match ← getFunction (·.bindings) with
  | [] => throw .unbalancedBindings
  | _ :: rest => modifyFunction fun f => { f with bindings := rest }

/-- The bound element with an index; the latest has index `0`. -/
def boundValue (index : Nat) : Emit Value := do
  match (← getFunction (·.bindings))[index]? with
  | some v => pure v
  | none => throw (.unboundReference index)

/-! ### Loops -/

/-- Enters a loop, and gives the state of the loop around it. -/
def enterLoop (continueNeedsLabel : Bool) : Emit LoopState := do
  note .entersLoop
  let outer ← getFunction (·.loop)
  let cleanupBase ← scopeMark
  modifyFunction fun f => { f with loop := { cleanupBase, continueNeedsLabel } }
  pure outer

/-- Leaves a loop, and gives its final state. -/
def leaveLoop (outer : LoopState) : Emit LoopState := do
  let inner ← getFunction (·.loop)
  modifyFunction fun f => { f with loop := outer }
  pure inner

/-- The label that `break` has to jump to where C's own would leave only a switch. -/
def breakLabel? : Emit (Option Nat) := do
  let loop ← getFunction (·.loop)
  if loop.inSwitch then
    match loop.breakLabel with
    | some label => pure (some label)
    | none =>
      let label ← freshNumber
      modifyFunction fun f => { f with loop.breakLabel := some label }
      pure (some label)
  else
    pure none

/-- The label that `continue` has to jump to where C's own would skip an iteration expression. -/
def continueLabel? : Emit (Option Nat) := do
  let loop ← getFunction (·.loop)
  if loop.continueNeedsLabel then
    match loop.continueLabel with
    | some label => pure (some label)
    | none =>
      let label ← freshNumber
      modifyFunction fun f => { f with loop.continueLabel := some label }
      pure (some label)
  else
    pure none

/-! ### Variables -/

/-- Binds a variable to a value. -/
def bindLocal (var : VarId) (v : Value) : Emit Unit := do
  note (.declares var ((← getFunction (·.scope)).any (·.owner == some var)))
  modifyFunction fun f => { f with locals := (var, v) :: f.locals }

/-- The value of a variable of the function. -/
def local? (var : VarId) : Emit (Option Value) := do
  pure ((← getFunction (·.locals)).lookup var)

/-- States where a result that is passed back through a pointer goes. -/
def setReturnAddress (v : Value) : Emit Unit :=
  modifyFunction fun f => { f with returnAddress := some v }

end Emit

end CBackend
