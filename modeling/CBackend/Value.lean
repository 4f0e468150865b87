import CBackend.C.Expr

/-!
# Values

What lowering an expression yields: a C expression with its type, its precedence and what may be
done with it. A value may be *held through a pointer*: its expression is then the pointer, and the
value is what the pointer points to. Lowering an expression that yields nothing gives a value
without content.

Values are told apart by the place where they were made, not by their text: two values with the
same expression are the same value only if one is a copy of the other.
-/

namespace CBackend

open C (CType Precedence)

/-- The content of a value: its C expression and the number under which it was made. -/
structure Content where
  id : Nat
  expr : C.Expr

/-- What is known of a value besides its expression. -/
structure ValueFlags where
  /-- The content is a pointer to the value. -/
  isIndirect : Bool := false
  /-- The storage is read-only. -/
  isConst : Bool := false
  /-- The content is an expression rather than the name of a variable. -/
  isTemporary : Bool := false
  /-- The content is the name of a variable. -/
  isVariable : Bool := false
  /-- The value has no address. -/
  isRvalue : Bool := false
  deriving DecidableEq, Repr

/-- A lowered value. -/
structure Value where
  content : Option Content
  flags : ValueFlags := {}
  /-- The precedence of the content. -/
  precedence : Precedence := .atom
  ty : CType

namespace Value

/-- The result of an expression that yields nothing. -/
def none : Value :=
  { content := .none, ty := .void }

/-- Whether the value has no content. -/
def isNone (v : Value) : Bool :=
  v.content.isNone

/-- Whether two values are the same. -/
def same (v w : Value) : Bool :=
  v.content.map (·.id) == w.content.map (·.id) && v.flags == w.flags &&
    v.precedence == w.precedence && v.ty == w.ty

/-- Whether the content is the name of a variable. -/
def isVariable (v : Value) : Bool :=
  v.flags.isVariable

/-- Whether the value has no address. -/
def isRvalue (v : Value) : Bool :=
  v.flags.isRvalue

/-- Whether the value is a constant, which nothing can change. -/
def isConstant (v : Value) : Bool :=
  v.isRvalue && v.precedence == .atom

/-- The precedence of the value's expression. -/
def effectivePrecedence (v : Value) : Precedence :=
  if v.flags.isIndirect then .unary else v.precedence

/-- The expression of the content. -/
def inner (v : Value) : Except Fault C.Expr :=
  match v.content with
  | some c => .ok c.expr
  | .none => .error .noValue

/-- The C expression of the value. -/
def render (v : Value) : Except Fault C.Expr := do
  let e ← v.inner
  pure (if v.flags.isIndirect then .deref (.parenIf v.precedence.needsUnaryParens e) else e)

/-- The value between parentheses if asked for. -/
def renderParen (v : Value) (parens : Bool) : Except Fault C.Expr := do
  pure (.parenIf parens (← v.render))

/-- The value after a unary operator. -/
def asUnaryOperand (v : Value) : Except Fault C.Expr :=
  v.renderParen v.effectivePrecedence.needsUnaryParens

/-- The value as an initialiser, an element of a list or an argument. -/
def asInitializer (v : Value) : Except Fault C.Expr :=
  v.renderParen v.effectivePrecedence.needsInitializerParens

/-- The value before a suffix operator. -/
def asSuffixOperand (v : Value) : Except Fault C.Expr :=
  v.renderParen (v.effectivePrecedence.looser .suffix)

/-- The value as the function of a call. -/
def asCallee (v : Value) : Except Fault C.Expr :=
  v.asSuffixOperand

/-- A binary operator of a precedence between two values. -/
def binary (lhs : Value) (op : String) (rhs : Value) (p : Precedence) : Except Fault C.Expr :=
  match Precedence.binaryParens? lhs.effectivePrecedence rhs.effectivePrecedence p with
  | .none => .error (.noBinaryOperator p)
  | some (lhsParens, rhsParens) => do
    pure (.binary op (← lhs.renderParen lhsParens) (← rhs.renderParen rhsParens))

/-- The address of a value that has one. -/
def address (v : Value) : Except Fault C.Expr :=
  if v.isRvalue then .error .addressOfRvalue
  else if v.flags.isIndirect then v.inner
  else do pure (.addressOf (← v.asUnaryOperand))

/-- A member of a value, through the pointer if the value is held through one. -/
def member (v : Value) (field : C.Field) : Except Fault C.Expr := do
  let base := C.Expr.parenIf (v.precedence.looser .suffix) (← v.inner)
  pure (if v.flags.isIndirect then .arrow base field else .member base field)

/-- The flags of a part of a value: parts share its storage. -/
def partFlags (v : Value) : ValueFlags :=
  { isConst := v.flags.isConst, isRvalue := v.flags.isRvalue }

end Value

end CBackend
