import CBackend.Fault

/-!
# Calling conventions

How parameters and results cross a call in C. C copies the bytes of a struct that is passed by
value, which is a valid move only for a type whose values may be relocated that way. Every other
value travels by address: the callee owns the argument that it is given the address of, and writes
its result through a pointer that comes first in the parameter list.
-/

namespace CBackend

open IR

/-- How a parameter is passed. -/
inductive ParamPassing
  /-- By value. -/
  | direct
  /-- The address of a temporary that the callee owns and destroys. -/
  | indirect
  /-- The address of the argument's storage. -/
  | reference
  /-- Not at all: the parameter is of type `void`. -/
  | omitted
  deriving DecidableEq, Repr

/-- Whether the callee receives an address instead of the value. -/
def ParamPassing.isPointer : ParamPassing → Bool
  | indirect | reference => true
  | direct | omitted => false

/-- How a result is passed back. -/
inductive ResultPassing
  /-- By value. -/
  | direct
  /-- Through a pointer to its storage, which is the first parameter. -/
  | indirect
  /-- The address of the object that is referred to. -/
  | reference
  /-- Not at all: the result is of type `void`. -/
  | nothing
  deriving DecidableEq, Repr

/-- Whether the values of a type may be moved by copying their bytes. -/
def isRelocatable (m : Module) (ty : Ty) : Except Fault Bool :=
  inRange (m.hasTrait? .triviallyRelocatable ty)

/-- How a parameter of a type is passed. -/
def ParamPassing.ofType (m : Module) (ty : Ty) : Except Fault ParamPassing :=
  if ty.isVoid then .ok .omitted
  else if ty.isAnyReference then .ok .reference
  else do pure (if ← isRelocatable m ty then .direct else .indirect)

/-- How a result of a type is passed. -/
def ResultPassing.ofType (m : Module) (ty : Ty) : Except Fault ResultPassing :=
  if ty.isVoid then .ok .nothing
  else if ty.isAnyReference then .ok .reference
  else do pure (if ← isRelocatable m ty then .direct else .indirect)

/-- How the parameters and the result of a signature are passed. -/
structure Convention where
  params : List ParamPassing
  result : ResultPassing
  deriving DecidableEq, Repr

namespace Convention

/-- The convention of a signature. -/
def compute (m : Module) (result : Ty) (params : List Ty) : Except Fault Convention := do
  let params ← params.mapM (ParamPassing.ofType m)
  let result ← ResultPassing.ofType m result
  pure ⟨params, result⟩

/-- The convention of a function. -/
def ofFunction (m : Module) (id : FuncId) : Except Fault Convention := do
  let f ← inRange (m.function? id)
  let params ← inRange (m.paramTypes? f)
  compute m f.result params

/-- Whether the result is written through the first parameter. -/
def hasResultPointer (c : Convention) : Bool :=
  c.result == .indirect

end Convention

end CBackend
