import CBackend.Draft.Basic

/-!
# Types of a draft

A draft names every type when it registers it, and notes at once where the type has to be declared
and defined. A new draft has the typedefs of the scalars.
-/

namespace CBackend

open IR
open C (CType)

namespace Draft

/-- The C type of a scalar. -/
def builtin? (d : Draft) (kind : Builtin) : Option CType :=
  d.builtins[Builtin.all.idxOf kind]?

/-- The C type that the typedef of a scalar stands for. A `char` is stored as the unsigned integer
of 32 bits. -/
def aliasedType (d : Draft) (kind : Builtin) : Except Fault CType :=
  match kind with
  | .f32 => .ok (.ofScalar .float)
  | .f64 => .ok (.ofScalar .double)
  | .bool => .ok (.ofScalar .bool)
  | .char =>
    match d.builtin? .u32 with
    | some ty => .ok ty
    | none => .error .builtinUnregistered
  | kind =>
    match d.options.target.integerOfSize? kind.size kind.isSigned with
    | some scalar => .ok (.ofScalar scalar)
    | none => .error (.noIntegerOfSize kind)

/-- Registers the typedef of a scalar. -/
def registerBuiltin (d : Draft) (kind : Builtin) : Except Fault Draft := do
  let aliased ← d.aliasedType kind
  let ((n, isNew), types) := d.unit.types.internTypedef aliased
  if isNew then
    let types ← types.setName (.typedef n) ("t_" ++ kind.name)
    pure { d with
      unit := { d.unit with types, typedefs := d.unit.typedefs.push (.typedef n) }
      builtins := d.builtins.push { head := .typedef n } }
  else
    .error (.builtinAliasTaken kind)

/-- The draft with the typedefs of the scalars and nothing else. -/
def new (options : Options) : Except Fault Draft :=
  Builtin.all.foldlM registerBuiltin { options }

end Draft

namespace Emit

/-- The C type of a scalar. -/
def builtin (kind : Builtin) : Emit CType := do
  match (← get).builtin? kind with
  | some ty => pure ty
  | none => throw .builtinUnregistered

/-- The unsigned integer of a pointer's size, for indices and sizes. -/
def sizeType : Emit CType := do
  builtin (if (← get).options.target.pointer = 8 then .u64 else .u32)

/-- The type of flags. -/
def boolType : Emit CType :=
  builtin .bool

/-- Replaces the table of types. -/
def setTypes (types : C.TypeTable) : Emit Unit :=
  modify fun d => { d with unit.types := types }

/-- Gives a new type the next name. -/
def nameType (head : C.Head) : Emit Unit := do
  let d ← get
  let types ← d.unit.types.setName head s!"t_{d.typeCounter}"
  set { d with unit.types := types, typeCounter := d.typeCounter + 1 }

/-- Notes that a struct is to be declared. -/
def addForward (head : C.Head) : Emit Unit :=
  modify fun d => { d with unit.forwards := d.unit.forwards.push head }

/-- Notes that a typedef is to be written. -/
def addTypedef (head : C.Head) : Emit Unit :=
  modify fun d => { d with unit.typedefs := d.unit.typedefs.push head }

/-- Notes that the body of a struct is to be written. -/
def addBody (head : C.Head) : Emit Unit :=
  modify fun d => { d with unit.bodies := d.unit.bodies.push head }

/-- The struct with the given members, defined when it is first asked for. -/
def structType (members : List CType) : Emit CType := do
  let ((n, isNew), types) := (← get).unit.types.internStruct members
  setTypes types
  if isNew then
    nameType (.struct n)
    addForward (.struct n)
    addBody (.struct n)
  pure { head := .struct n }

/-- A struct of its own, named and declared; its members follow by `resolveStruct`. -/
def declareStruct : Emit Nat := do
  let (n, types) := (← get).unit.types.declareStruct
  setTypes types
  nameType (.struct n)
  addForward (.struct n)
  pure n

/-- Defines a declared struct. -/
def resolveStruct (n : Nat) (members : List CType) : Emit Unit := do
  let types ← (← get).unit.types.resolveStruct n members
  setTypes types
  addBody (.struct n)

/-- The struct that wraps an array of the given element type and size. -/
def arrayType (elem : CType) (size : Nat) : Emit CType := do
  let ((n, isNew), types) := (← get).unit.types.internArray ⟨elem, size⟩
  setTypes types
  if isNew then
    nameType (.array n)
    addForward (.array n)
    addBody (.array n)
  pure { head := .array n }

/-- The pointer to functions of a signature. -/
def functionType (result : CType) (params : List CType) : Emit CType := do
  let ((n, isNew), types) := (← get).unit.types.internFunction ⟨result, params⟩
  setTypes types
  if isNew then
    nameType (.function n)
    addTypedef (.function n)
  pure { head := .function n }

/-- The pointer to a type. -/
def pointerTo (ty : CType) (level : C.PointerLevel) : Emit CType :=
  match ty.pointerTo? level with
  | some pointer => pure pointer
  | none => throw .pointerTooDeep

/-- The pointer to a type whose storage is read-only or not. -/
def pointerFor (ty : CType) (isConst : Bool) : Emit CType :=
  pointerTo ty (if isConst then .readOnly else .plain)

/-- The type of a member of a struct, or of the elements of a wrapped array. -/
def memberType (ty : CType) (index : Nat) : Emit CType := do
  let types := (← get).unit.types
  match ty.struct?, ty.array? with
  | some n, _ =>
    let shape ← inRange (types.structs.get? n)
    if shape.isResolved then inRange shape.members[index]? else throw .memberOfIncomplete
  | none, some n =>
    let shape ← inRange (types.arrays.get? n)
    pure shape.elem
  | none, none => throw (.memberOfNonStruct (types.render ty))

/-- The element type and size of a wrapped array. -/
def arrayShape (ty : CType) : Emit C.ArrayShape := do
  let types := (← get).unit.types
  match ty.array? with
  | some n => inRange (types.arrays.get? n)
  | none => throw (.notArray (types.render ty))

end Emit

end CBackend
