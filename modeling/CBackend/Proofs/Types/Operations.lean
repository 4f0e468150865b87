import CBackend.Proofs.Bracketing.Types

/-!
# Operations on the types of a draft

What a draft is after a type has been asked for. A type that is known already leaves the draft as it is. A new one is
registered under the next number and the next name, and it is noted where it has to be declared and defined.
-/

namespace CBackend

open IR
open C (CType StructShape ArrayShape FunctionShape)

/-- The name of the type that is the given one in the order of registration. -/
def typeName (n : Nat) : String :=
  s!"t_{n}"

namespace Draft

variable (d : Draft)

/-- The number that the next struct is given. -/
abbrev structCount : Nat :=
  d.unit.types.structs.shapes.size

/-- The number that the next wrapped array is given. -/
abbrev arrayCount : Nat :=
  d.unit.types.arrays.shapes.size

/-- The number that the next function type is given. -/
abbrev functionCount : Nat :=
  d.unit.types.functions.shapes.size

/-- The draft with a new struct, which is declared, and defined if its members are known. -/
def addStruct (shape : StructShape) : Draft :=
  { d with
    unit := { d.unit with
      types := { d.unit.types with
        structs := ⟨d.unit.types.structs.shapes.push shape, d.unit.types.structs.names.push (typeName d.typeCounter)⟩ }
      forwards := d.unit.forwards.push (.struct d.structCount)
      bodies := if shape.isResolved then d.unit.bodies.push (.struct d.structCount) else d.unit.bodies }
    typeCounter := d.typeCounter + 1 }

/-- The draft with a new wrapped array, which is declared and defined. -/
def addArray (shape : ArrayShape) : Draft :=
  { d with
    unit := { d.unit with
      types := { d.unit.types with
        arrays := ⟨d.unit.types.arrays.shapes.push shape, d.unit.types.arrays.names.push (typeName d.typeCounter)⟩ }
      forwards := d.unit.forwards.push (.array d.arrayCount)
      bodies := d.unit.bodies.push (.array d.arrayCount) }
    typeCounter := d.typeCounter + 1 }

/-- The draft with a new function type, which has a typedef. -/
def addFunction (shape : FunctionShape) : Draft :=
  { d with
    unit := { d.unit with
      types := { d.unit.types with
        functions := ⟨d.unit.types.functions.shapes.push shape,
          d.unit.types.functions.names.push (typeName d.typeCounter)⟩ }
      typedefs := d.unit.typedefs.push (.function d.functionCount) }
    typeCounter := d.typeCounter + 1 }

/-- The draft with the members of a struct, which is now defined. -/
def fillStruct (n : Nat) (members : List CType) : Draft :=
  { d with
    unit := { d.unit with
      types := { d.unit.types with
        structs.shapes := d.unit.types.structs.shapes.setIfInBounds n (.resolved members) }
      bodies := d.unit.bodies.push (.struct n) } }

end Draft

variable {d : Draft}

/-- A shape that is interned is known, or it gets the next number. -/
theorem C.Shapes.intern_eq {α : Type} [BEq α] (s : C.Shapes α) (shape : α) :
    (∃ n, s.shapes.findIdx? (· == shape) = some n ∧ s.intern shape = ((n, false), s)) ∨
      (s.shapes.findIdx? (· == shape) = none ∧
        s.intern shape = ((s.shapes.size, true), { s with shapes := s.shapes.push shape })) := by
  unfold C.Shapes.intern
  split
  · next n hn => exact .inl ⟨n, hn, rfl⟩
  · next hnone => exact .inr ⟨hnone, rfl⟩

namespace Ensures

/-- Naming a type. -/
theorem nameType_eq {head : C.Head} : Ensures d (Emit.nameType head) fun _ d' =>
    ∃ types, d.unit.types.setName head (typeName d.typeCounter) = .ok types ∧
      d' = { d with unit.types := types, typeCounter := d.typeCounter + 1 } := by
  refine .get_bind (.lift_bind fun types htypes => ?_)
  rintro _ _ ⟨⟩
  exact ⟨types, htypes, rfl⟩

/-- A struct by its members. -/
theorem structType_cases {members : List CType} : Ensures d (Emit.structType members) fun ty d' =>
    (∃ n, d.unit.types.structs.shapes.findIdx? (· == .interned members) = some n ∧
      ty = { head := .struct n } ∧ d' = d) ∨
    d.unit.types.structs.shapes.findIdx? (· == .interned members) = none ∧
      d.unit.types.structs.names.size = d.structCount ∧
      ty = { head := .struct d.structCount } ∧ d' = d.addStruct (.interned members) := by
  refine .get_bind ?_
  obtain ⟨n, hn, heq⟩ | ⟨hnone, heq⟩ := d.unit.types.structs.intern_eq (.interned members)
  · rw [C.TypeTable.internStruct, heq]
    refine .bind (.modify (Φ := fun _ d' => d' = d) rfl) ?_
    rintro _ _ rfl
    exact .pure (.inl ⟨n, hn, rfl, rfl⟩)
  · rw [C.TypeTable.internStruct, heq]
    refine .bind (.modify (Φ := fun _ d' => d' = _) rfl) ?_
    rintro _ _ rfl
    refine .bind nameType_eq ?_
    rintro _ _ ⟨types, htypes, rfl⟩
    obtain ⟨structs, hstructs, htypes⟩ := exists_of_bind_eq_ok htypes
    obtain ⟨hsize, rfl⟩ := C.Shapes.setName_eq hstructs
    cases htypes
    rintro _ _ ⟨⟩
    exact .inr ⟨hnone, hsize.symm, rfl, rfl⟩

/-- A wrapped array by its shape. -/
theorem arrayType_cases {elem : CType} {size : Nat} : Ensures d (Emit.arrayType elem size) fun ty d' =>
    (∃ n, d.unit.types.arrays.shapes.findIdx? (· == ⟨elem, size⟩) = some n ∧
      ty = { head := .array n } ∧ d' = d) ∨
    d.unit.types.arrays.shapes.findIdx? (· == ⟨elem, size⟩) = none ∧
      d.unit.types.arrays.names.size = d.arrayCount ∧
      ty = { head := .array d.arrayCount } ∧ d' = d.addArray ⟨elem, size⟩ := by
  refine .get_bind ?_
  obtain ⟨n, hn, heq⟩ | ⟨hnone, heq⟩ := d.unit.types.arrays.intern_eq ⟨elem, size⟩
  · rw [C.TypeTable.internArray, heq]
    refine .bind (.modify (Φ := fun _ d' => d' = d) rfl) ?_
    rintro _ _ rfl
    exact .pure (.inl ⟨n, hn, rfl, rfl⟩)
  · rw [C.TypeTable.internArray, heq]
    refine .bind (.modify (Φ := fun _ d' => d' = _) rfl) ?_
    rintro _ _ rfl
    refine .bind nameType_eq ?_
    rintro _ _ ⟨types, htypes, rfl⟩
    obtain ⟨arrays, harrays, htypes⟩ := exists_of_bind_eq_ok htypes
    obtain ⟨hsize, rfl⟩ := C.Shapes.setName_eq harrays
    cases htypes
    rintro _ _ ⟨⟩
    exact .inr ⟨hnone, hsize.symm, rfl, rfl⟩

/-- A function type by its shape. -/
theorem functionType_cases {result : CType} {params : List CType} :
    Ensures d (Emit.functionType result params) fun ty d' =>
      (∃ n, d.unit.types.functions.shapes.findIdx? (· == ⟨result, params⟩) = some n ∧
        ty = { head := .function n } ∧ d' = d) ∨
      d.unit.types.functions.shapes.findIdx? (· == ⟨result, params⟩) = none ∧
        d.unit.types.functions.names.size = d.functionCount ∧
        ty = { head := .function d.functionCount } ∧ d' = d.addFunction ⟨result, params⟩ := by
  refine .get_bind ?_
  obtain ⟨n, hn, heq⟩ | ⟨hnone, heq⟩ := d.unit.types.functions.intern_eq ⟨result, params⟩
  · rw [C.TypeTable.internFunction, heq]
    refine .bind (.modify (Φ := fun _ d' => d' = d) rfl) ?_
    rintro _ _ rfl
    exact .pure (.inl ⟨n, hn, rfl, rfl⟩)
  · rw [C.TypeTable.internFunction, heq]
    refine .bind (.modify (Φ := fun _ d' => d' = _) rfl) ?_
    rintro _ _ rfl
    refine .bind nameType_eq ?_
    rintro _ _ ⟨types, htypes, rfl⟩
    obtain ⟨functions, hfunctions, htypes⟩ := exists_of_bind_eq_ok htypes
    obtain ⟨hsize, rfl⟩ := C.Shapes.setName_eq hfunctions
    cases htypes
    rintro _ _ ⟨⟩
    exact .inr ⟨hnone, hsize.symm, rfl, rfl⟩

/-- A struct of its own. -/
theorem declareStruct_eq : Ensures d Emit.declareStruct fun n d' =>
    d.unit.types.structs.names.size = d.structCount ∧ n = d.structCount ∧ d' = d.addStruct .declared := by
  refine .get_bind (.bind (.modify (Φ := fun _ d' => d' = _) rfl) ?_)
  rintro _ _ rfl
  refine .bind nameType_eq ?_
  rintro _ _ ⟨types, htypes, rfl⟩
  obtain ⟨structs, hstructs, htypes⟩ := exists_of_bind_eq_ok htypes
  obtain ⟨hsize, rfl⟩ := C.Shapes.setName_eq hstructs
  cases htypes
  rintro _ _ ⟨⟩
  exact ⟨hsize.symm, rfl, rfl⟩

/-- The members of a declared struct. -/
theorem resolveStruct_eq {n : Nat} {members : List CType} : Ensures d (Emit.resolveStruct n members) fun _ d' =>
    d.unit.types.structs.get? n = some .declared ∧ d' = d.fillStruct n members := by
  refine .get_bind (.lift_bind fun types htypes => ?_)
  unfold C.TypeTable.resolveStruct at htypes
  split at htypes <;> cases htypes
  next hdeclared =>
  rintro _ _ ⟨⟩
  exact ⟨hdeclared, rfl⟩

end Ensures

end CBackend
