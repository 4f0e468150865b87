import CBackend.Draft.Entities

/-!
# Control flow of a draft

Conditionals, loops, switches and the lines that leave them. A construct is opened and closed by
separate steps, between which its body is written.
-/

namespace CBackend

open IR
open C (CType)

namespace Emit

/-! ### Conditionals -/

/-- Opens a conditional. -/
def beginIfExpr (condition : C.Expr) : Emit Unit := do
  line (.ifThen condition)
  openBlock

/-- Opens a conditional on a value. -/
def beginIf (condition : Value) : Emit Unit := do
  beginIfExpr (← condition.render)

/-- Opens a conditional on the negation of a value. -/
def beginIfNot (condition : Value) : Emit Unit := do
  beginIfExpr (.before "!" (← condition.asUnaryOperand))

/-- Opens a conditional on two values not being the same object. -/
def beginIfDistinct (lhs rhs : Value) : Emit Unit := do
  beginIfExpr (.binary "!=" (← lhs.address) (← rhs.address))

/-- Goes on to the alternative of a conditional. -/
def beginElse : Emit Unit := do
  closeBlock
  line .otherwise
  openBlock

/-- Goes on to a further condition; one `endIf` closes the whole chain. -/
def beginElseIf (condition : Value) : Emit Unit := do
  closeBlock
  line (.elseIf (← condition.render))
  openBlock

/-- Closes a conditional. -/
def endIf : Emit Unit :=
  closeBlock

/-! ### Loops -/

/-- Opens a loop without a condition. -/
def beginWhileTrue : Emit Unit := do
  line (.whileLoop (.nat 1))
  openBlock

/-- Closes a loop. -/
def endWhile : Emit Unit :=
  closeBlock

/-- Opens a loop over the indices below `size`, and gives the index. -/
def beginIndexLoop (size : Nat) : Emit Value := do
  let index ← declareWith (← sizeType) (.nat 0)
  line (.whileLoop (.binary "<" (← index.render) (.nat size)))
  openBlock
  pure index

/-- Closes a loop that `beginIndexLoop` opened. -/
def endIndexLoop (index : Value) : Emit Unit := do
  increment index "++"
  closeBlock

/-- Opens a loop over the indices below `size` from the last to the first; `endWhile` closes it. -/
def beginReversedIndexLoop (size : Nat) : Emit Value := do
  let index ← declareWith (← sizeType) (.nat size)
  line (.whileLoop (.binary "!=" (← index.render) (.nat 0)))
  openBlock
  increment index "--"
  pure index

/-! ### Switches -/

/-- Opens a switch, and tells whether another one already lies between it and the loop. -/
def beginSwitch (matched : Value) : Emit Bool := do
  line (.switchOn (← matched.render))
  openBlock
  let outer ← getFunction (·.loop.inSwitch)
  modifyFunction fun f => { f with loop.inSwitch := true }
  pure outer

/-- Closes a switch. -/
def endSwitch (outer : Bool) : Emit Unit := do
  closeBlock
  modifyFunction fun f => { f with loop.inSwitch := outer }

/-- Opens a case with the given labels. -/
def beginCase (labels : List C.Expr) : Emit Unit := do
  labels.forM fun label => line (.caseLabel label)
  openBlock

/-- Opens the default case. -/
def beginDefaultCase : Emit Unit := do
  line .defaultLabel
  openBlock

/-- Closes a case, and leaves the switch unless control has left already. -/
def endCase : Emit Unit := do
  unless ← isTerminated do
    exitLine .breakOut
  closeBlock

/-! ### Exits -/

/-- Returns from the function. -/
def returnWith (v : Option Value) : Emit Unit := do
  match v with
  | some v => exitLine (.returnWith (some (← v.render)))
  | none => exitLine (.returnWith none)

/-- Marks a point that control never reaches. -/
def unreachable : Emit Unit :=
  exitLine .unreachable

/-- Prints a message, given as a pair of pointers, and aborts. -/
def panicWith (message : Value) : Emit Unit := do
  addInclude "stdio.h"
  addInclude "stdlib.h"
  let message ← materialize message
  let first ← member message 0
  let last ← member message 1
  let length ← last.binary "-" first .additive
  let first ← first.asInitializer
  statement (.call (.symbol "fwrite") [first, .nat 1, length, .symbol "stderr"])
  statement (.call (.symbol "fputc") [.literal (.char '\n'), .symbol "stderr"])
  exitLine .abort

end Emit

end CBackend
