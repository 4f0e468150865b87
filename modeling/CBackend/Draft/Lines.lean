import CBackend.Draft.Types

/-!
# Lines and values of a draft

Writing lines and making values. Places and constants stay expressions, which are repeated where
they are used. Whatever has an effect or depends on storage that may change is put into a fresh
local variable when it is evaluated, so that later uses see the value as it was.
-/

namespace CBackend

open IR
open C (CType Precedence)

namespace Emit

/-! ### Lines -/

/-- Writes a line. -/
def line (l : C.Line) : Emit Unit :=
  modifyFunction fun f => { f with steps := f.steps.push (.line l), terminated := false }

/-- Writes a note. -/
def note (n : Note) : Emit Unit :=
  modifyFunction fun f => { f with steps := f.steps.push (.note n) }

/-- Whether control cannot get past the last line. -/
def isTerminated : Emit Bool :=
  getFunction (·.terminated)

/-- States whether control can get past the last line. -/
def setTerminated (b : Bool) : Emit Unit := do
  if b then note .ends
  modifyFunction fun f => { f with terminated := b }

/-- Writes a line that control cannot get past. -/
def exitLine (l : C.Line) : Emit Unit := do
  line l
  setTerminated true

/-- Writes an expression as a statement. -/
def statement (e : C.Expr) : Emit Unit :=
  line (.expression e)

/-- Opens a block. -/
def openBlock : Emit Unit := do
  line .openBlock
  modifyFunction fun f => { f with indent := f.indent + 1 }

/-- Closes the innermost block. -/
def closeBlock : Emit Unit := do
  if (← getFunction (·.indent)) = 0 then throw .closeWithoutOpen
  modifyFunction fun f => { f with indent := f.indent - 1 }
  line .closeBlock

/-- The next number of a local variable or label. -/
def freshNumber : Emit Nat := do
  let n ← getFunction (·.counter)
  modifyFunction fun f => { f with counter := n + 1 }
  pure n

/-! ### Values -/

/-- Makes a value. -/
def newValue (e : C.Expr) (flags : ValueFlags) (p : Precedence) (ty : CType) : Emit Value := do
  let id := (← get).valueCounter
  modify fun d => { d with valueCounter := id + 1 }
  pure { content := some ⟨id, e⟩, flags, precedence := p, ty }

/-- A variable. -/
def variableValue (n : C.Name) (ty : CType) : Emit Value :=
  newValue (.name n) { isVariable := true } .atom ty

/-- What a pointer variable points to. -/
def referenceValue (n : C.Name) (pointee : CType) (isConst : Bool) : Emit Value :=
  newValue (.name n) { isIndirect := true, isVariable := true, isConst } .atom pointee

/-- An expression that stays where it is used. -/
def inlineValue (e : C.Expr) (ty : CType) (p : Precedence) (flags : ValueFlags) : Emit Value :=
  newValue e { flags with isTemporary := true } p ty

/-- An expression without an address. -/
def rvalue (e : C.Expr) (ty : CType) (p : Precedence) : Emit Value :=
  inlineValue e ty p { isRvalue := true }

/-- A fresh local variable without an initialiser. -/
def declareLocal (ty : CType) : Emit Value := do
  let n ← freshNumber
  line (.declare ty n none)
  variableValue (.localVar n) ty

/-- A fresh local variable with an initialiser. -/
def declareWith (ty : CType) (init : C.Expr) : Emit Value := do
  let n ← freshNumber
  line (.declare ty n (some init))
  variableValue (.localVar n) ty

/-- A fresh local variable with the value of another value. -/
def copyToLocal (v : Value) : Emit Value := do
  declareWith v.ty (← v.asInitializer)

/-- The value itself if it has an address, or a fresh local variable with its value. -/
def materialize (v : Value) : Emit Value :=
  if v.isRvalue then copyToLocal v else pure v

/-- What a pointer points to; the pointer is put into a fresh local variable. -/
def dereferenceText (pointer : CType) (init : C.Expr) : Emit Value := do
  match pointer.pointee? with
  | some (pointee, level) =>
    let n ← freshNumber
    line (.declare pointer n (some init))
    referenceValue (.localVar n) pointee (level == .readOnly)
  | none => throw (.dereferenceOfNonPointer (← typeText pointer))

/-- What a pointer value points to. -/
def dereference (v : Value) : Emit Value := do
  dereferenceText v.ty (← v.asInitializer)

/-! ### Places -/

/-- A member of a struct. -/
def member (v : Value) (index : Nat) : Emit Value := do
  let ty ← memberType v.ty index
  inlineValue (← v.member (.member index)) ty .suffix v.partFlags

/-- The element of a wrapped array at an index. -/
def element (v index : Value) : Emit Value := do
  let shape ← arrayShape v.ty
  let base ← v.member .elements
  inlineValue (.index base (← index.render)) shape.elem .suffix v.partFlags

/-- The element of a wrapped array at a constant index. -/
def elementAt (v : Value) (index : Nat) : Emit Value := do
  let shape ← arrayShape v.ty
  let base ← v.member .elements
  inlineValue (.index base (.nat index)) shape.elem .suffix v.partFlags

/-- The pointer to the first element of a wrapped array. -/
def arrayData (v : Value) : Emit Value := do
  let shape ← arrayShape v.ty
  let ty ← pointerFor shape.elem v.flags.isConst
  inlineValue (← v.member .elements) ty .suffix { isRvalue := true }

/-- The element at an index from a pointer. -/
def pointerElement (pointer index : Value) : Emit Value := do
  match pointer.ty.pointee? with
  | some (elem, level) =>
    let base ← pointer.asSuffixOperand
    inlineValue (.index base (← index.render)) elem .suffix { isConst := level == .readOnly }
  | none => throw (.subscriptOfNonPointer (← typeText pointer.ty))

/-- The address of a value, which is materialised if it has none. -/
def addressOf (v : Value) : Emit Value := do
  let v ← materialize v
  let ty ← pointerFor v.ty v.flags.isConst
  if v.flags.isIndirect then
    pure { v with
      flags := { v.flags with isIndirect := false, isConst := false, isRvalue := true }, ty }
  else
    rvalue (← v.address) ty .unary

/-! ### Computations -/

/-- A value converted to a type. -/
def cast (v : Value) (ty : CType) : Emit Value := do
  rvalue (.cast ty (← v.asUnaryOperand)) ty .unary

/-- The result of a binary operator in a fresh local variable. -/
def binaryOperation (lhs rhs : Value) (op : String) (p : Precedence) (ty : CType) :
    Emit Value := do
  let e ← lhs.binary op rhs p
  declareWith ty (.parenIf p.needsInitializerParens e)

/-- The result of a unary operator in a fresh local variable. -/
def unaryOperation (v : Value) (op : String) (ty : CType) : Emit Value := do
  declareWith ty (.unary op (← v.asUnaryOperand))

/-- Writes an assignment, plain or compound. -/
def assignWith (lhs rhs : Value) (op : String) : Emit Unit := do
  statement (← lhs.binary op rhs .assignment)

/-- Writes an assignment. -/
def assign (lhs rhs : Value) : Emit Unit :=
  assignWith lhs rhs "="

/-- Writes an increment or a decrement. -/
def increment (v : Value) (op : String) : Emit Unit := do
  statement (.before op (← v.asUnaryOperand))

/-- A compound literal. -/
def structLiteral (ty : CType) (elems : List Value) : Emit Value := do
  let elems ← elems.mapM (·.asInitializer)
  rvalue (.braces (some ty) .value elems) ty .suffix

/-- The value of a type whose bytes are all zero. -/
def zeroValue (ty : CType) : Emit Value :=
  if ty.isBraced then structLiteral ty [] else rvalue (.nat 0) ty .atom

/-- An integer constant. -/
def integer (ty : CType) (n : Nat) : Emit Value :=
  rvalue (.nat n) ty .atom

end Emit

end CBackend
