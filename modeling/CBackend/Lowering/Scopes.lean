import CBackend.Lowering.Constants

/-!
# Scopes and cleanups

How the lowering of a node closes the scopes that it opened. The cleanups of a scope are run when it
is closed, the latest first. A `break`, a `continue` or a `return` runs the cleanups that are
waiting inside the loop or the function without taking them away, because their scopes still end in
the usual way for control that does not leave.

The nodes below a node are lowered by a `Walk`, which is given; `Lowering.Expressions` ties the
knot.
-/

namespace CBackend.Lowering

open IR

/-- How the nodes below a node are lowered. -/
structure Walk where
  /-- Lowers an expression; its value goes to the destination if there is one. -/
  expr : ExprId → Option Value → Emit Value
  /-- Lowers a statement. -/
  stmt : StmtId → Emit Unit
  /-- Writes a cleanup. -/
  cleanup : Pending → Emit Unit

namespace Walk

variable (w : Walk)

/-- Runs cleanups one after the other. Where their scope is closed, each is out of scope from its own
turn on. -/
def runInTurn (closing : Bool) : List Pending → Emit Unit
  | [] => pure ()
  | p :: ps => do
    if closing then Emit.leaveScope 1
    w.cleanup p
    runInTurn closing ps

/-- Closes the scope that was opened at a mark: its cleanups are taken away, and run unless control
cannot get there. -/
def closeScope (mark : Nat) : Emit Unit := do
  let cleanups ← Emit.takeCleanupsSince mark
  if ← Emit.isTerminated then
    unless cleanups.isEmpty do
      Emit.note .skips
    Emit.leaveScope cleanups.length
  else
    w.runInTurn true cleanups

/-- Lowers an expression in a scope of its own. -/
def inScope (id : ExprId) (dest : Option Value) : Emit Value := do
  let mark ← Emit.scopeMark
  let value ← w.expr id dest
  w.closeScope mark
  pure value

/-- Lowers an expression in a scope of its own with elements bound, the last one as value reference
`0`. -/
def withBound (elements : List Value) (id : ExprId) (dest : Option Value) : Emit Unit := do
  elements.forM Emit.bindElement
  discard <| w.inScope id dest
  elements.forM fun _ => Emit.unbindElement

/-- Runs the cleanups that were added since a mark on the way out. They go on waiting for control
that does not leave. -/
def unwind (mark : Nat) : Emit Unit := do
  w.runInTurn false (← Emit.cleanupsSince mark)

/-- Runs the cleanups that wait inside the innermost loop. -/
def runLoopCleanups : Emit Unit := do
  w.unwind (← Emit.getFunction (·.loop.cleanupBase))

/-- Runs every waiting cleanup of the function. -/
def runAllCleanups : Emit Unit :=
  w.unwind 0

/-- Destroys the elements of an array temporary from the last to the first, except the one that was
moved out. -/
def runArrayCleanup (array : Value) (movedElement : Option Value) (call : ExprId) :
    Emit Unit := do
  let shape ← Emit.arrayShape array.ty
  let index ← Emit.beginReversedIndexLoop shape.size
  let element ← Emit.element array index
  match movedElement with
  | some moved =>
    let address ← Emit.addressOf element
    let differs ← address.binary "!=" moved .equality
    let condition ← Emit.rvalue differs (← Emit.boolType) .equality
    Emit.beginIf condition
    w.withBound [element] call none
    Emit.endIf
  | none => w.withBound [element] call none
  Emit.endWhile

/-- The action of a cleanup. -/
def runAction (p : Pending) : Emit Unit :=
  match p.cleanup.action with
  | .none | .trivial => pure ()
  | .ofVariable call | .deferred call => discard <| w.inScope call none
  | .ofTemporary call => w.withBound [p.value] call none
  | .arrayRest call => w.runArrayCleanup p.value p.movedElement call

/-- Writes one cleanup: its action, under its flag if it has one, and then the clearing of the flag
of the variable that was moved out of. -/
def runCleanup (p : Pending) : Emit Unit := do
  Emit.note (.starts p)
  match p.condition with
  | some condition =>
    Emit.beginIf condition
    w.runAction p
    Emit.endIf
  | none => w.runAction p
  match p.indicator with
  | some indicator => Emit.assign indicator (← Emit.integer indicator.ty 0)
  | none => pure ()
  Emit.note (.finishes p)

end Walk

end CBackend.Lowering
