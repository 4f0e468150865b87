import CBackend.Proofs.Initialisers.Literals
import Mathlib.Data.List.Forall2

/-!
# Initialisers and the objects that they make

C's rules for initialisers, on the types that the output defines. A list between braces, or a compound literal of the
very type, initialises the next place as a whole. Any other item goes to the first scalar of that place, and the
following items to the scalars after it, as if the braces had been written. Places without an item are zero, and items
without a place are an error.
-/

namespace CBackend.C

/-! ### Places -/

/-- A place that an initialiser fills: an object of a type, or the array inside of a struct that wraps one. -/
inductive Part
  | object (ty : CType)
  | elements (elem : CType) (size : Nat)

/-- The places of the members of a struct; a struct without members holds one character. -/
def memberParts : List CType → List Part
  | [] => [.object (.ofScalar .signedChar)]
  | members => members.map .object

/-- The places in a struct, if its members are known. -/
def StructShape.parts? : StructShape → Option (List Part)
  | interned members | resolved members => some (memberParts members)
  | declared => none

/-- The places in a place, as the definitions of the output lay them out. A scalar has none in it. -/
def TypeTable.parts? (t : TypeTable) : Part → Option (List Part)
  | .elements elem size => some (List.replicate size (.object elem))
  | .object ty =>
    if ty.isPointer then some []
    else
      match ty.head with
      | .struct n => (t.structs.get? n).bind StructShape.parts?
      | .array n => (t.arrays.get? n).map fun shape => [.elements shape.elem (max shape.size 1)]
      | .scalar _ | .function _ | .typedef _ => some []

/-! ### Contents -/

/-- A value without parts. -/
inductive Atom
  | int (v : Int)
  /-- A function, or a position in the bytes of a string constant. -/
  | address (n : Name) (offset : Nat)
  /-- A floating-point number, as it is written. -/
  | float (text : String)
  | nothing
  deriving DecidableEq

/-- The value of a sum or a difference. -/
def Atom.combine (op : String) : Atom → Atom → Option Atom
  | .int x, .int y => if op = "-" then some (.int (x - y)) else none
  | .address n k, .int j => if op = "+" then some (.address n (k + j.toNat)) else none
  | _, _ => none

/-- What an expression without parts stands for. -/
def Expr.atom? : Expr → Option Atom
  | .literal (.float32 bits) => some (.float (Literal.float32 bits).spelling)
  | .literal (.float64 bits) => some (.float (Literal.float64 bits).spelling)
  | .literal l => (readConstant l.spelling.toList).map .int
  | .name n => some (.address n 0)
  | .paren e => e.atom?
  | .binary op lhs rhs => do Atom.combine op (← lhs.atom?) (← rhs.atom?)
  | .cast ty _ => if ty.isVoid then some .nothing else none
  | _ => none

/-- The contents of a place. -/
inductive Object
  /-- Every byte is zero. -/
  | zero
  | leaf (a : Atom)
  | parts (os : List Object)

variable {os : List Object} {o : Object} {e : Expr} {es : List Expr}

namespace Object

/-- The contents of the place with a number in a place. -/
def part : Object → Nat → Object
  | parts os, i => os.getD i zero
  | _, _ => zero

/-- The contents of a scalar. -/
def atom? : Object → Option Atom
  | zero => some (.int 0)
  | leaf a => some a
  | parts _ => none

/-- The contents that a list between braces gives; the one without items stands for zeros. -/
def ofParts : List Object → Object
  | [] => zero
  | os => parts os

@[simp]
theorem part_zero (i : Nat) : zero.part i = zero :=
  rfl

@[simp]
theorem atom?_zero : zero.atom? = some (.int 0) :=
  rfl

@[simp]
theorem atom?_leaf (a : Atom) : (leaf a).atom? = some a :=
  rfl

theorem part_parts {i : Nat} (h : os[i]? = some o) : (parts os).part i = o := by
  simp [part, h]

theorem part_ofParts {i : Nat} (h : os[i]? = some o) : (ofParts os).part i = o := by
  cases os with
  | nil => simp at h
  | cons => exact part_parts h

end Object

/-! ### The rules -/

/-- An item that initialises a place as a whole: a list between braces, or a literal of the place's type. -/
def Starts (part : Part) : Expr → Prop
  | .braces none _ _ => True
  | .braces (some ty) _ _ => part = .object ty
  | _ => False

/-- The items of a list initialise the places of a list, and some items are left. -/
inductive Inits (t : TypeTable) :
    List Part → List Expr → List Object → List Expr → Prop
  | nil {items : List Expr} : Inits t [] items [] items
  /-- A place without an item is zero. -/
  | missing {part : Part} {parts : List Part} {os : List Object} (h : Inits t parts [] os []) :
      Inits t (part :: parts) [] (.zero :: os) []
  /-- The list `{0}`. -/
  | zeroed {part : Part} {parts : List Part} {ty : Option CType} {style : BraceStyle} {items rest : List Expr}
      {os : List Object} (hstarts : Starts part (.braces ty style [])) (h : Inits t parts items os rest) :
      Inits t (part :: parts) (.braces ty style [] :: items) (.zero :: os) rest
  /-- A list between braces for the places in the next place; no item of it may be left. -/
  | braces {part : Part} {own parts : List Part} {ty : Option CType} {style : BraceStyle}
      {elems items rest : List Expr} {inner os : List Object} (hstarts : Starts part (.braces ty style elems))
      (helems : elems ≠ []) (hown : t.parts? part = some own) (hinner : Inits t own elems inner [])
      (h : Inits t parts items os rest) :
      Inits t (part :: parts) (.braces ty style elems :: items) (.parts inner :: os) rest
  | scalar {part : Part} {parts : List Part} {e : Expr} {items rest : List Expr} {a : Atom} {os : List Object}
      (hscalar : t.parts? part = some []) (ha : e.atom? = some a) (h : Inits t parts items os rest) :
      Inits t (part :: parts) (e :: items) (.leaf a :: os) rest
  /-- Items for the places in the next place, without braces around them. -/
  | elided {part : Part} {own parts : List Part} {e : Expr} {items left rest : List Expr} {inner os : List Object}
      (hstarts : ¬Starts part e) (hown : t.parts? part = some own) (hne : own ≠ [])
      (hinner : Inits t own (e :: items) inner left) (h : Inits t parts left os rest) :
      Inits t (part :: parts) (e :: items) (.parts inner :: os) rest

variable {t : TypeTable}

theorem atom?_of_starts {part : Part} (h : Starts part e) : e.atom? = none := by
  cases e with
  | braces => rfl
  | _ => exact h.elim

/-- An initialiser leaves no choice. -/
theorem Inits.unique {parts : List Part} {items rest rest' : List Expr} {os' : List Object}
    (h : Inits t parts items os rest) (h' : Inits t parts items os' rest') : os = os' ∧ rest = rest' := by
  induction h generalizing os' rest' with
  | nil =>
    cases h'
    exact ⟨rfl, rfl⟩
  | missing h ih =>
    cases h' with
    | missing h' => exact ⟨by rw [(ih h').1], rfl⟩
  | zeroed hstarts h ih =>
    cases h' with
    | zeroed _ h' => exact ⟨by rw [(ih h').1], (ih h').2⟩
    | braces _ helems => exact absurd rfl helems
    | scalar _ ha => cases (atom?_of_starts hstarts).symm.trans ha
    | elided hnot => exact absurd hstarts hnot
  | braces hstarts helems hown _ _ ihinner ih =>
    cases h' with
    | zeroed => exact absurd rfl helems
    | braces _ _ hown' hinner' h' =>
      cases hown.symm.trans hown'
      exact ⟨by rw [(ihinner hinner').1, (ih h').1], (ih h').2⟩
    | scalar _ ha => cases (atom?_of_starts hstarts).symm.trans ha
    | elided hnot => exact absurd hstarts hnot
  | scalar hscalar ha _ ih =>
    cases h' with
    | zeroed hstarts => cases (atom?_of_starts hstarts).symm.trans ha
    | braces hstarts => cases (atom?_of_starts hstarts).symm.trans ha
    | scalar _ ha' h' =>
      cases ha.symm.trans ha'
      exact ⟨by rw [(ih h').1], (ih h').2⟩
    | elided _ hown hne =>
      cases hscalar.symm.trans hown
      exact absurd rfl hne
  | elided hnot hown hne _ _ ihinner ih =>
    cases h' with
    | zeroed hstarts => exact absurd hstarts hnot
    | braces hstarts => exact absurd hstarts hnot
    | scalar hscalar =>
      cases hscalar.symm.trans hown
      exact absurd rfl hne
    | elided _ hown' _ hinner' h' =>
      cases hown.symm.trans hown'
      obtain ⟨rfl, rfl⟩ := ihinner hinner'
      obtain ⟨rfl, rfl⟩ := ih h'
      exact ⟨rfl, rfl⟩

/-! ### Items for whole places -/

/-- An item initialises the next place as a whole, whatever comes after it. -/
def Whole (t : TypeTable) (part : Part) (e : Expr) (o : Object) : Prop :=
  ∀ parts items os rest, Inits t parts items os rest →
    Inits t (part :: parts) (e :: items) (o :: os) rest

/-- The items of a list initialise one place each. -/
inductive Wholes (t : TypeTable) : List Part → List Expr → List Object → Prop
  | nil : Wholes t [] [] []
  | cons {part : Part} {parts : List Part} {e : Expr} {es : List Expr} {o : Object} {os : List Object}
      (h : Whole t part e o) (hs : Wholes t parts es os) :
      Wholes t (part :: parts) (e :: es) (o :: os)

namespace Wholes

theorem inits {parts : List Part} (h : Wholes t parts es os) (rest : List Expr) :
    Inits t parts (es ++ rest) os rest := by
  induction h with
  | nil => exact .nil
  | cons h _ ih => exact h _ _ _ _ ih

theorem replicate {part : Part} (h : List.Forall₂ (Whole t part) es os) :
    Wholes t (List.replicate es.length part) es os := by
  induction h with
  | nil => exact .nil
  | cons h _ ih => exact .cons h ih

end Wholes

namespace Whole

theorem inits {part : Part} (h : Whole t part e o) :
    Inits t [part] [e] [o] [] :=
  h [] [] [] [] .nil

theorem scalar {part : Part} {a : Atom} (hscalar : t.parts? part = some []) (ha : e.atom? = some a) :
    Whole t part e (.leaf a) :=
  fun _ _ _ _ => .scalar hscalar ha

end Whole

/-- Items for the elements of a wrapped array, without braces around them. -/
theorem Wholes.elements {elem : CType} (hstarts : ¬Starts (.elements elem (es.length + 1)) e)
    (h : List.Forall₂ (Whole t (.object elem)) (e :: es) os) :
    Inits t [.elements elem (es.length + 1)] (e :: es) [.parts os] [] := by
  refine .elided hstarts rfl (by simp) ?_ .nil
  simpa using (Wholes.replicate h).inits []

end CBackend.C
