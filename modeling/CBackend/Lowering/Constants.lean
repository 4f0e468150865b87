import CBackend.Lowering.Declarations

/-!
# Lowering constants

The C expression of a constant at a type. Inside a function body a compound constant is a compound
literal; as the initialiser of a global variable it is a plain list between braces.
-/

namespace CBackend.Lowering

open IR

/-- A signed integer. The least one of 64 bits has no literal in C, so it is written as a
difference. -/
def signedExpr (v : Int64) : C.Expr :=
  if v == Int64.minValue then
    .paren (.binary "-" (.literal (.int (v.toInt + 1))) (.nat 1))
  else
    .literal (.int v.toInt)

/-- An unsigned integer. -/
def unsignedExpr (v : UInt64) : C.Expr :=
  .literal (.unsigned v.toNat)

/-- An enumerator, read through the integer that represents it. -/
def enumExpr (v : UInt64) (underlying : Builtin) : C.Expr :=
  if underlying.isSigned then signedExpr v.toInt64 else unsignedExpr v

/-- A floating-point number of a format; those without digits need the mathematics library. -/
def floatExpr (format : FloatFormat) (bits : Nat) (l : C.Literal) : Emit C.Expr := do
  unless C.Literal.hasDigits (format.decode bits) do
    Emit.addInclude "math.h"
  pure (.literal l)

/-- A 32-bit floating-point number. -/
def float32Expr (bits : UInt32) : Emit C.Expr :=
  floatExpr .single bits.toNat (.float32 bits)

/-- A 64-bit floating-point number. -/
def float64Expr (bits : UInt64) : Emit C.Expr :=
  floatExpr .double bits.toNat (.float64 bits)

section

variable (m : Module) (compound : Bool)

/-- Elements between braces, after the type in a compound literal. -/
def braced (ty : Ty) (elems : List C.Expr) : Emit C.Expr := do
  if compound then
    pure (.braces (some (← valueType m ty)) .constant elems)
  else
    pure (.braces none .constant elems)

/-- A constant at a type that may be an optional: the payload at the payload's type, with the flag
set where the optional stores one. -/
def throughOptionals (payload : Ty → Emit C.Expr) : Ty → Emit C.Expr
  | .optional ty => do
    let e ← throughOptionals payload ty
    if (Ty.optional ty).isOptionalPointerLike then pure e
    else braced m compound (.optional ty) [e, .nat 1]
  | ty => payload ty

/-- A list cut into pieces of the given length; the last piece may be shorter. -/
def chunks {α : Type} (length : Nat) (xs : List α) : List (List α) :=
  go xs.length xs
where
  go : Nat → List α → List (List α)
    | 0, _ => []
    | _ + 1, [] => []
    | n + 1, x :: xs => (x :: xs).take length :: go n ((x :: xs).drop length)

/-- The numbers of an array in row-major order, nested as its type is. -/
def nestedArray : Ty → List C.Expr → Emit C.Expr
  | .array (.array elem inner) size, vs => do
    if vs.isEmpty then braced m compound (.array (.array elem inner) size) []
    else
      let stride := max (vs.length / max size 1) 1
      let elems ← (chunks stride vs).mapM (nestedArray (.array elem inner))
      braced m compound (.array (.array elem inner) size) elems
  | .array elem size, vs => braced m compound (.array elem size) vs
  | ty, vs =>
    if vs.isEmpty then braced m compound ty []
    else throw (.arrayConstantAt ty)

/-- A flat array of numbers; one that is all zero is written without elements. -/
def numberArray (isZero : Bool) (vs : List C.Expr) (ty : Ty) : Emit C.Expr :=
  if isZero then braced m compound ty [] else nestedArray m compound ty vs

/-- A string constant: pointers to its first byte and past its last one. -/
def strExpr (s : String) : Emit C.Expr := do
  let n ← Emit.internString s
  let storage := C.Expr.name (.string n)
  braced m compound .str [storage, .binary "+" storage (.nat s.utf8ByteSize)]

mutual

/-- The C expression of a constant at a type. -/
def constantExpr : Const → Ty → Emit C.Expr
  | .null, ty =>
    if ty.isOptionalPointerLike then pure (.nat 0) else braced m compound ty []
  | .sint v, ty => throughOptionals m compound (fun _ => pure (signedExpr v)) ty
  | .uint v, ty => throughOptionals m compound (fun _ => pure (unsignedExpr v)) ty
  | .float32 bits, ty => throughOptionals m compound (fun _ => float32Expr bits) ty
  | .float64 bits, ty => throughOptionals m compound (fun _ => float64Expr bits) ty
  | .char c, ty => throughOptionals m compound (fun _ => pure (.literal (.char c))) ty
  | .str s, ty => throughOptionals m compound (fun _ => strExpr m compound s) ty
  | .bool b, ty => throughOptionals m compound (fun _ => pure (.nat b.toNat)) ty
  | .void, ty => throughOptionals m compound (fun _ => pure (.cast .void (.nat 0))) ty
  | .enum v, ty =>
    throughOptionals m compound
      (fun
        | .enum underlying => pure (enumExpr v underlying)
        | ty => throw (.enumConstantAt ty)) ty
  | .array vs, ty =>
    throughOptionals m compound
      (fun ty =>
        if Const.allZero vs then braced m compound ty []
        else
          match ty with
          | .array elem _ => do
            braced m compound ty (← (constantExprs vs).mapM (· elem))
          | ty => throw (.arrayConstantAt ty)) ty
  | .sintArray vs, ty =>
    throughOptionals m compound
      (numberArray m compound (Const.isZero (.sintArray vs)) (vs.map signedExpr)) ty
  | .uintArray vs, ty =>
    throughOptionals m compound
      (numberArray m compound (Const.isZero (.uintArray vs)) (vs.map unsignedExpr)) ty
  | .float32Array vs, ty =>
    throughOptionals m compound
      (fun ty => do
        if Const.isZero (.float32Array vs) then braced m compound ty []
        else nestedArray m compound ty (← vs.mapM float32Expr)) ty
  | .float64Array vs, ty =>
    throughOptionals m compound
      (fun ty => do
        if Const.isZero (.float64Array vs) then braced m compound ty []
        else nestedArray m compound ty (← vs.mapM float64Expr)) ty
  | .tuple vs, ty =>
    throughOptionals m compound
      (fun
        | .tuple elems => do
          let parts ← ((constantExprs vs).zip elems).mapM fun (lower, elem) => lower elem
          braced m compound (.tuple elems) parts
        | ty => throw (.tupleConstantAt ty)) ty
  | .aggregate vs, ty =>
    throughOptionals m compound
      (fun
        | .aggregate id => do
          let aggregate ← inRange (m.aggregate? id)
          let parts ← ((constantExprs vs).zip aggregate.members).mapM
            fun (lower, member) => lower member
          braced m compound (.aggregate id) parts
        | ty => throw (.aggregateConstantAt ty)) ty
  | .function func, ty =>
    throughOptionals m compound (fun _ => do pure (.name (← declareFunction m func))) ty

/-- How each constant of a list is lowered. -/
def constantExprs : List Const → List (Ty → Emit C.Expr)
  | [] => []
  | v :: vs => constantExpr v :: constantExprs vs

end

end

/-- A constant as a value of a function body. -/
def constantValue (m : Module) (value : Const) (ty : Ty) : Emit Value := do
  let e ← constantExpr m true value ty
  let cType ← valueType m ty
  Emit.rvalue e cType e.constantPrecedence

/-- A string constant as a value. -/
def stringValue (m : Module) (s : String) : Emit Value :=
  constantValue m (.str s) .str

/-- Defines a global variable. Without an initialiser its bytes are zero. -/
def defineGlobal (m : Module) (var : VarId) : Emit Unit := do
  let decl ← inRange (m.var? var)
  let ty ← valueType m decl.ty
  let init ← match decl.init with
    | some init => do
      match (← inRange (m.expr? init)).kind with
      | .constant value => constantExpr m false value decl.ty
      | _ => throw (.nonConstantGlobal decl.name)
    | none => pure (if ty.isBraced then .braces none .constant [] else .nat 0)
  discard <| Emit.addGlobal var ty init

end CBackend.Lowering
