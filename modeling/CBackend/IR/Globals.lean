import CBackend.Fault
import CBackend.IR.Module

/-!
# Listing global variables

The globals of a module are listed after its variables, and every entry has to be a variable that is
declared global.
-/

namespace CBackend.IR

namespace Module

/-- Lists a variable as a global. -/
def addGlobal (m : Module) (var : VarId) : Except Fault Module := do
  let decl ← inRange (m.var? var)
  if decl.isGlobal then pure { m with globals := m.globals.push var } else throw .notGlobal

/-- Lists variables as globals, in order. -/
def addGlobals (m : Module) (vars : List VarId) : Except Fault Module :=
  vars.foldlM addGlobal m

end Module

end CBackend.IR
