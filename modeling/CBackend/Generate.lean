import CBackend.Draft.Types
import CBackend.Lowering.Functions

/-!
# Generating a C file

The global variables are defined first. Then the functions to be kept and the entry function are
declared, and the bodies of the declared functions are written in the order of their declaration;
calling a function declares it, so what cannot be reached is not written.
-/

namespace CBackend

open IR

namespace Lowering

/-- Writes the bodies of queued functions, at most the given number of them. -/
def drainQueue (m : Module) (w : Walk) : Nat → Emit Unit
  | 0 => pure ()
  | n + 1 => do
    match ← Emit.nextQueued? with
    | none => pure ()
    | some func =>
      functionBody m w func
      drainQueue m w n

/-- Writes everything that a module defines. Every function is queued at most once, so the number
of functions bounds the number of bodies. -/
def wholeModule (m : Module) : Emit Unit := do
  m.globals.toList.forM (defineGlobal m)
  m.roots.toList.forM fun root => discard <| declareFunction m root
  match m.entry with
  | some entry => discard <| declareFunction m entry
  | none => pure ()
  drainQueue m (Walk.ofModule m) m.functions.size
  match m.entry with
  | some entry => mainWrapper m entry
  | none => pure ()

end Lowering

/-- The finished draft of a module. -/
def generateDraft (m : Module) (options : Options) : Except Fault Draft := do
  let draft ← Draft.new options
  let (_, draft) ← (Lowering.wholeModule m).run draft
  pure draft

/-- The compilation unit of a module. -/
def generateUnit (m : Module) (options : Options) : Except Fault C.CompilationUnit := do
  pure (← generateDraft m options).unit

/-- The text of a module's C file. -/
def generate (m : Module) (options : Options) : Except Fault String := do
  pure ((← generateUnit m options).print options.indentation)

end CBackend
