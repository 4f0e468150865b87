import CBackend.Proofs.Initialisers.Layouts

/-!
# The objects of constants

The object that the initialiser of a constant makes, as a function of the constant and its type. The two forms of an
initialiser, the compound literal of a function body and the plain list of a global variable, are lowered by the same
function. The compound literal always makes this object. The plain list makes it as long as no array has elements that
are lists themselves, since their braces are then taken for those of the array inside of the struct around it.
-/

namespace CBackend

open IR
open C (CType Part Atom Object Whole Wholes Inits memberParts)

/-! ### Constants of a type -/

/-- An array type, perhaps of arrays, with so many numbers of a scalar type in all. -/
inductive Rows (kind : Builtin) : Ty → Nat → Prop
  | numbers (size : Nat) : Rows kind (.array (.builtin kind) size) size
  | rows {elem : Ty} {inner count : Nat} (size : Nat) (h : Rows kind (.array elem inner) count) :
      Rows kind (.array (.array elem inner) size) (size * count)

/-- A constant is one of a type: an array has as many values as its type says, tuples and aggregates have one for each
component or member, and an optional holds nothing or a constant of its payload's type. -/
inductive WellTyped (m : Module) : Const → Ty → Prop
  | null (payload : Ty) : WellTyped m .null (.optional payload)
  | present {c : Const} {payload : Ty} (hc : c ≠ .null) (h : WellTyped m c payload) : WellTyped m c (.optional payload)
  | sint (v : Int64) {kind : Builtin} (hkind : kind.isSigned = true) : WellTyped m (.sint v) (.builtin kind)
  | uint (v : UInt64) {kind : Builtin} (hkind : kind.isUnsigned = true) : WellTyped m (.uint v) (.builtin kind)
  | float32 (bits : UInt32) : WellTyped m (.float32 bits) (.builtin .f32)
  | float64 (bits : UInt64) : WellTyped m (.float64 bits) (.builtin .f64)
  | char (c : Char) : WellTyped m (.char c) (.builtin .char)
  | str (s : String) : WellTyped m (.str s) .str
  | bool (b : Bool) : WellTyped m (.bool b) (.builtin .bool)
  | void : WellTyped m .void .void
  | enum (v : UInt64) (underlying : Builtin) : WellTyped m (.enum v) (.enum underlying)
  | function (func : FuncId) (result : Ty) (params : List Ty) : WellTyped m (.function func) (.function result params)
  | array {vs : List Const} {elem : Ty} {size : Nat} (hsize : vs.length = size) (h : ∀ v ∈ vs, WellTyped m v elem) :
      WellTyped m (.array vs) (.array elem size)
  | sintArray {vs : List Int64} {kind : Builtin} {ty : Ty} (hkind : kind.isSigned = true) (h : Rows kind ty vs.length) :
      WellTyped m (.sintArray vs) ty
  | uintArray {vs : List UInt64} {kind : Builtin} {ty : Ty} (hkind : kind.isUnsigned = true)
      (h : Rows kind ty vs.length) : WellTyped m (.uintArray vs) ty
  | float32Array {vs : List UInt32} {ty : Ty} (h : Rows .f32 ty vs.length) : WellTyped m (.float32Array vs) ty
  | float64Array {vs : List UInt64} {ty : Ty} (h : Rows .f64 ty vs.length) : WellTyped m (.float64Array vs) ty
  | tuple {vs : List Const} {elems : List Ty} (hlength : vs.length = elems.length)
      (h : ∀ x ∈ vs.zip elems, WellTyped m x.1 x.2) : WellTyped m (.tuple vs) (.tuple elems)
  | aggregate {vs : List Const} {id : AggregateId} {decl : Aggregate} (hdecl : m.aggregate? id = some decl)
      (hlength : vs.length = decl.members.length) (h : ∀ x ∈ vs.zip decl.members, WellTyped m x.1 x.2) :
      WellTyped m (.aggregate vs) (.aggregate id)

/-- A constant at a type stands inside of another one, or is that one. The flag tells whether arrays are entered all of
whose values are zero; those are not written out. -/
inductive Occurs (m : Module) (all : Bool) : Const → Ty → Const → Ty → Prop
  | here {c : Const} {ty : Ty} : Occurs m all c ty c ty
  | payload {c c' : Const} {payload ty' : Ty} (hc : c ≠ .null) (h : Occurs m all c payload c' ty') :
      Occurs m all c (.optional payload) c' ty'
  | element {vs : List Const} {v c' : Const} {elem ty' : Ty} {size : Nat}
      (hall : all = true ∨ Const.allZero vs = false) (hv : v ∈ vs) (h : Occurs m all v elem c' ty') :
      Occurs m all (.array vs) (.array elem size) c' ty'
  | component {vs : List Const} {elems : List Ty} {x : Const × Ty} {c' : Const} {ty' : Ty} (hx : x ∈ vs.zip elems)
      (h : Occurs m all x.1 x.2 c' ty') : Occurs m all (.tuple vs) (.tuple elems) c' ty'
  | member {vs : List Const} {id : AggregateId} {decl : Aggregate} {x : Const × Ty} {c' : Const} {ty' : Ty}
      (hdecl : m.aggregate? id = some decl) (hx : x ∈ vs.zip decl.members) (h : Occurs m all x.1 x.2 c' ty') :
      Occurs m all (.aggregate vs) (.aggregate id) c' ty'

/-- The arrays that are written out have elements without braces. -/
def PlainArrays (m : Module) (c : Const) (ty : Ty) : Prop :=
  ∀ c' elem size, Occurs m false c ty c' (.array elem size) → c'.isZero = true ∨ elem.isLeaf = true

/-! ### The object of a constant -/

/-- The object of a constant at a type that may be an optional. -/
def objectThrough (payload : Ty → Object) : Ty → Object
  | .optional ty =>
    if (Ty.optional ty).isOptionalPointerLike then objectThrough payload ty
    else .parts [objectThrough payload ty, .leaf (.int 1)]
  | ty => payload ty

/-- The object of the numbers of an array in row-major order. -/
def rowsObject : Ty → List Atom → Object
  | .array (.array elem inner) size, vs =>
    if vs.isEmpty then .zero
    else
      let stride := max (vs.length / max size 1) 1
      .parts [.parts ((Lowering.chunks stride vs).map (rowsObject (.array elem inner)))]
  | .array _ _, vs => if vs.isEmpty then .zero else .parts [.parts (vs.map .leaf)]
  | _, _ => .zero

/-- The object of an array of numbers; one that is all zero is not written out. -/
def numbersObject (isZero : Bool) (vs : List Atom) (ty : Ty) : Object :=
  if isZero then .zero else rowsObject ty vs

/-- The name of a function, if it has one. -/
def functionAtom (D : Draft) (func : FuncId) : Atom :=
  ((D.functions.lookup func).map fun name => .address name 0).getD .nothing

/-- A position in the bytes of a string constant, if it has storage. -/
def stringAtom (D : Draft) (s : String) (offset : Nat) : Atom :=
  ((D.strings.findIdx? (· == s)).map fun n => .address (.string n) offset).getD .nothing

/-- The number of an enumerator. -/
def enumInt (v : UInt64) (underlying : Builtin) : Int :=
  if underlying.isSigned then v.toInt64.toInt else v.toNat

mutual

/-- The object of a constant at a type. -/
def objectOf (m : Module) (D : Draft) : Const → Ty → Object
  | .null, ty => if ty.isOptionalPointerLike then .leaf (.int 0) else .zero
  | .sint v, ty => objectThrough (fun _ => .leaf (.int v.toInt)) ty
  | .uint v, ty => objectThrough (fun _ => .leaf (.int v.toNat)) ty
  | .float32 bits, ty => objectThrough (fun _ => .leaf (.float (C.Literal.float32 bits).spelling)) ty
  | .float64 bits, ty => objectThrough (fun _ => .leaf (.float (C.Literal.float64 bits).spelling)) ty
  | .char c, ty => objectThrough (fun _ => .leaf (.int c.toNat)) ty
  | .str s, ty => objectThrough (fun _ => .parts [.leaf (stringAtom D s 0), .leaf (stringAtom D s s.utf8ByteSize)]) ty
  | .bool b, ty => objectThrough (fun _ => .leaf (.int b.toNat)) ty
  | .void, ty => objectThrough (fun _ => .leaf .nothing) ty
  | .enum v, ty =>
    objectThrough
      (fun
        | .enum underlying => .leaf (.int (enumInt v underlying))
        | _ => .zero) ty
  | .array vs, ty =>
    objectThrough
      (fun
        | .array elem _ =>
          if Const.allZero vs then .zero else .parts [.parts ((objectsOf m D vs).map (· elem))]
        | _ => .zero) ty
  | .sintArray vs, ty =>
    objectThrough (numbersObject (Const.isZero (.sintArray vs)) (vs.map fun v => .int v.toInt)) ty
  | .uintArray vs, ty =>
    objectThrough (numbersObject (Const.isZero (.uintArray vs)) (vs.map fun v => .int v.toNat)) ty
  | .float32Array vs, ty =>
    objectThrough (numbersObject (Const.isZero (.float32Array vs))
      (vs.map fun bits => .float (C.Literal.float32 bits).spelling)) ty
  | .float64Array vs, ty =>
    objectThrough (numbersObject (Const.isZero (.float64Array vs))
      (vs.map fun bits => .float (C.Literal.float64 bits).spelling)) ty
  | .tuple vs, ty =>
    objectThrough
      (fun
        | .tuple elems => .ofParts (((objectsOf m D vs).zip elems).map fun x => x.1 x.2)
        | _ => .zero) ty
  | .aggregate vs, ty =>
    objectThrough
      (fun
        | .aggregate id =>
          .ofParts (((objectsOf m D vs).zip ((m.aggregate? id).elim [] Aggregate.members)).map fun x => x.1 x.2)
        | _ => .zero) ty
  | .function func, ty => objectThrough (fun _ => .leaf (functionAtom D func)) ty

/-- The objects of the constants of a list. -/
def objectsOf (m : Module) (D : Draft) : List Const → List (Ty → Object)
  | [] => []
  | v :: vs => objectOf m D v :: objectsOf m D vs

end

variable {m : Module} {d D : Draft} {compound : Bool}

theorem objectsOf_eq_map (vs : List Const) : objectsOf m D vs = vs.map (objectOf m D) := by
  induction vs with
  | nil => rfl
  | cons v vs ih => rw [objectsOf, ih, List.map_cons]

theorem constantExprs_eq_map (vs : List Const) :
    Lowering.constantExprs m compound vs = vs.map (Lowering.constantExpr m compound) := by
  induction vs with
  | nil => rfl
  | cons v vs ih => rw [Lowering.constantExprs, ih, List.map_cons]

/-- A constant at an optional is the constant at the payload's type, with a flag if the optional stores one. -/
theorem objectOf_optional {c : Const} (hc : c ≠ .null) (payload : Ty) :
    objectOf m D c (.optional payload) =
      if (Ty.optional payload).isOptionalPointerLike then objectOf m D c payload
      else .parts [objectOf m D c payload, .leaf (.int 1)] := by
  cases c with
  | null => exact absurd rfl hc
  | _ => simp only [objectOf, objectThrough]

theorem constantExpr_optional {c : Const} (hc : c ≠ .null) (payload : Ty) :
    Lowering.constantExpr m compound c (.optional payload) = (do
      let e ← Lowering.constantExpr m compound c payload
      if (Ty.optional payload).isOptionalPointerLike then pure e
      else Lowering.braced m compound (.optional payload) [e, .nat 1]) := by
  cases c with
  | null => exact absurd rfl hc
  | _ => simp only [Lowering.constantExpr, Lowering.throughOptionals]

end CBackend
