import CBackend.C.CType
import CBackend.Fault

/-!
# The table of C types

Structs, arrays, function pointers and typedefs are numbered in a table, so that equal shapes share
one number and one name. A struct can also be declared before its members are known; such a struct
is never the answer to a look-up by shape, so that two declared aggregates with the same members
stay distinct. Names are given after registration and in the order of registration.
-/

namespace CBackend.C

/-- The shapes of one kind in the order of registration, and the names of the first of them. -/
structure Shapes (α : Type) where
  shapes : Array α := #[]
  names : Array String := #[]

namespace Shapes

variable {α : Type}

/-- Registers a shape under the next number. -/
def add (s : Shapes α) (shape : α) : Nat × Shapes α :=
  (s.shapes.size, { s with shapes := s.shapes.push shape })

/-- The number of an equal shape, or the next number with the shape registered under it; the flag
tells whether the shape is new. -/
def intern [BEq α] (s : Shapes α) (shape : α) : (Nat × Bool) × Shapes α :=
  match s.shapes.findIdx? (· == shape) with
  | some n => ((n, false), s)
  | none =>
    let (n, s) := s.add shape
    ((n, true), s)

/-- Names a shape; names are given in the order of registration. -/
def setName (s : Shapes α) (n : Nat) (name : String) : Except Fault (Shapes α) :=
  if n = s.names.size then .ok { s with names := s.names.push name }
  else .error (.nameOutOfOrder n s.names.size)

/-- The shape with a number. -/
def get? (s : Shapes α) (n : Nat) : Option α :=
  s.shapes[n]?

/-- The name of the shape with a number. -/
def name? (s : Shapes α) (n : Nat) : Option String :=
  s.names[n]?

end Shapes

/-- How much is known of a struct. Member `i` is called `m_i`. -/
inductive StructShape
  /-- A struct that is found by its members. -/
  | interned (members : List CType)
  /-- A struct whose members are not known yet. -/
  | declared
  /-- A declared struct whose members became known. -/
  | resolved (members : List CType)
  deriving DecidableEq, Repr

namespace StructShape

/-- The members as far as they are known. -/
def members : StructShape → List CType
  | interned ms | resolved ms => ms
  | declared => []

/-- Whether the members are known. -/
def isResolved : StructShape → Bool
  | declared => false
  | _ => true

end StructShape

/-- A struct that wraps an array. -/
structure ArrayShape where
  elem : CType
  size : Nat
  deriving DecidableEq, Repr

/-- A pointer to a function. -/
structure FunctionShape where
  result : CType
  params : List CType
  deriving DecidableEq, Repr

/-- The numbered types of one compilation unit. -/
structure TypeTable where
  structs : Shapes StructShape := {}
  arrays : Shapes ArrayShape := {}
  functions : Shapes FunctionShape := {}
  /-- The types that typedefs stand for. -/
  typedefs : Shapes CType := {}

namespace TypeTable

variable (t : TypeTable)

/-- The struct with the given members, and whether it is new. -/
def internStruct (members : List CType) : (Nat × Bool) × TypeTable :=
  let (found, structs) := t.structs.intern (.interned members)
  (found, { t with structs })

/-- A struct of its own, whose members are not known yet. -/
def declareStruct : Nat × TypeTable :=
  let (n, structs) := t.structs.add .declared
  (n, { t with structs })

/-- Gives a declared struct its members. -/
def resolveStruct (n : Nat) (members : List CType) : Except Fault TypeTable :=
  match t.structs.get? n with
  | none => .error .outOfRange
  | some .declared =>
    .ok { t with structs.shapes := t.structs.shapes.setIfInBounds n (.resolved members) }
  | some _ => .error (.structResolvedTwice n)

/-- Whether the members of a struct are known. -/
def isStructResolved (n : Nat) : Bool :=
  match t.structs.get? n with
  | some shape => shape.isResolved
  | none => false

/-- The wrapped array of the given shape, and whether it is new. -/
def internArray (shape : ArrayShape) : (Nat × Bool) × TypeTable :=
  let (found, arrays) := t.arrays.intern shape
  (found, { t with arrays })

/-- The function pointer of the given shape, and whether it is new. -/
def internFunction (shape : FunctionShape) : (Nat × Bool) × TypeTable :=
  let (found, functions) := t.functions.intern shape
  (found, { t with functions })

/-- The typedef of the given type, and whether it is new. -/
def internTypedef (aliased : CType) : (Nat × Bool) × TypeTable :=
  let (found, typedefs) := t.typedefs.intern aliased
  (found, { t with typedefs })

/-- Names the shape that a head refers to; a scalar needs no name. -/
def setName (head : Head) (name : String) : Except Fault TypeTable :=
  match head with
  | .scalar _ => .ok t
  | .struct n => do pure { t with structs := ← t.structs.setName n name }
  | .array n => do pure { t with arrays := ← t.arrays.setName n name }
  | .function n => do pure { t with functions := ← t.functions.setName n name }
  | .typedef n => do pure { t with typedefs := ← t.typedefs.setName n name }

/-- The name of a head, if it has been given. -/
def headName? : Head → Option String
  | .scalar s => some s.spelling
  | .struct n => t.structs.name? n
  | .array n => t.arrays.name? n
  | .function n => t.functions.name? n
  | .typedef n => t.typedefs.name? n

/-- How a pointer level is written after a type. -/
def levelSuffix : PointerLevel → String
  | .plain => "*"
  | .readOnly => " const *"

/-- The C spelling of a type, such as `t_int32 const **`, if its head is named. -/
def render? (ty : CType) : Option String :=
  (t.headName? ty.head).map fun name => name ++ String.join (ty.chain.levels.map levelSuffix)

/-- The C spelling of a type of the table. -/
def render (ty : CType) : String :=
  (t.render? ty).getD ""

end TypeTable

end CBackend.C
