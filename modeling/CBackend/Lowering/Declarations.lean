import CBackend.Lowering.Types

/-!
# Declaring functions

A function gets its name and its declaration when it is first referred to; its body is queued at the
same moment. A function of the C library is declared by its header.
-/

namespace CBackend.Lowering

open IR

/-- The name of a function, which is declared and has its body queued when it is first asked for. -/
def declareFunction (m : Module) (func : FuncId) : Emit C.Name := do
  match ← Emit.functionName? func with
  | some name => pure name
  | none =>
    let f ← inRange (m.function? func)
    if f.isIntrinsic then throw (.intrinsicNotDeclarable f.name)
    match f.libraryHeader with
    | some header =>
      Emit.addInclude header
      let name := C.Name.symbol (f.symbolName.getD f.name)
      Emit.registerFunction func name false
      pure name
    | none =>
      let (name, isStatic) ← match f.symbolName with
        | some symbol => pure (C.Name.symbol symbol, false)
        | none =>
          if f.isExternal then pure (C.Name.symbol f.name, false)
          else do pure (← Emit.freshFunctionName, true)
      Emit.registerFunction func name f.body.isSome
      let convention ← Convention.ofFunction m func
      let params ← inRange (m.paramTypes? f)
      let (result, params) ← signature m convention f.result params
      Emit.addPrototype { isStatic, result, name, params }
      pure name

end CBackend.Lowering
