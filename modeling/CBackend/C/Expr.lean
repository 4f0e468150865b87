import CBackend.C.TypeTable
import CBackend.Decimal.Layout
import CBackend.Text.CString

/-!
# C expressions

The C expressions that the generator writes, with their parentheses. An expression knows the types
that it mentions, so that printing it needs a table of types and nothing else.
-/

namespace CBackend.C

/-- An identifier of the output. -/
inductive Name
  /-- A local variable or a parameter. -/
  | localVar (n : Nat)
  | global (n : Nat)
  /-- The bytes of a string constant. -/
  | string (n : Nat)
  | function (n : Nat)
  /-- A name from outside the compilation unit. -/
  | symbol (s : String)
  deriving DecidableEq, Repr

/-- The spelling of an identifier. -/
def Name.spelling : Name → String
  | localVar n => s!"v_{n}"
  | global n => s!"g_{n}"
  | string n => s!"s_{n}"
  | function n => s!"f_{n}"
  | symbol s => s

/-- A constant without parts. -/
inductive Literal
  | int (value : Int)
  | unsigned (value : Nat)
  | float32 (bits : UInt32)
  | float64 (bits : UInt64)
  | char (c : Char)
  deriving DecidableEq, Repr

namespace Literal

/-- The macros of the C mathematics library for the numbers without digits. -/
def floatWords : FloatWords := ⟨"NAN", "INFINITY"⟩

/-- Whether a floating-point number has digits. -/
def hasDigits : FloatValue → Bool
  | .nan | .infinite _ => false
  | .zero _ | .finite .. => true

/-- The spelling of a literal. -/
def spelling : Literal → String
  | int value => toString value
  | unsigned value => s!"{value}u"
  | float32 bits =>
    let text := FloatFormat.single.write floatWords bits.toNat
    if hasDigits (FloatFormat.single.decode bits.toNat) then text ++ "f" else text
  | float64 bits => FloatFormat.double.write floatWords bits.toNat
  | char c => Text.cChar c

/-- Whether the spelling starts with a minus sign. -/
def isNegative : Literal → Bool
  | int value => value < 0
  | unsigned _ | char _ => false
  | float32 bits => signOf (FloatFormat.single.decode bits.toNat)
  | float64 bits => signOf (FloatFormat.double.decode bits.toNat)
where
  signOf : FloatValue → Bool
    | .nan => false
    | .infinite negative | .zero negative | .finite negative _ => negative

end Literal

/-- A member of a struct. -/
inductive Field
  /-- The member with a number. -/
  | member (i : Nat)
  /-- The array that a struct wraps. -/
  | elements
  deriving DecidableEq, Repr

/-- The name of a member. -/
def Field.spelling : Field → String
  | member i => s!"m_{i}"
  | elements => "a"

/-- How a list between braces is written. -/
inductive BraceStyle
  /-- `{ a, b }`, or `{ 0 }` without elements. -/
  | value
  /-- `{ a, b, }`, or `{0}` without elements. -/
  | constant
  deriving DecidableEq, Repr

/-- An expression or an initialiser. -/
inductive Expr
  | name (n : Name)
  | literal (l : Literal)
  /-- Text from outside, written as it is. -/
  | verbatim (text : String)
  | paren (e : Expr)
  /-- `*e` -/
  | deref (e : Expr)
  /-- `&e` -/
  | addressOf (e : Expr)
  /-- An operator before its operand, with a blank if the operand starts with the operator. -/
  | unary (op : String) (e : Expr)
  /-- An operator right before its operand. -/
  | before (op : String) (e : Expr)
  /-- `(T)e` -/
  | cast (ty : CType) (e : Expr)
  | binary (op : String) (lhs rhs : Expr)
  /-- `c ? t : e` -/
  | conditional (c t e : Expr)
  /-- `e.m` -/
  | member (e : Expr) (field : Field)
  /-- `e->m` -/
  | arrow (e : Expr) (field : Field)
  /-- `e[i]` -/
  | index (e i : Expr)
  | call (callee : Expr) (args : List Expr)
  /-- A list between braces, after a type if it is a compound literal. -/
  | braces (ty : Option CType) (style : BraceStyle) (elems : List Expr)
  /-- `sizeof (T)` -/
  | sizeOf (ty : CType)

namespace Expr

/-- A natural number as an expression. -/
def nat (n : Nat) : Expr :=
  literal (.int n)

/-- A name from outside the compilation unit as an expression. -/
def symbol (s : String) : Expr :=
  name (.symbol s)

/-- The expression, between parentheses if asked for. -/
def parenIf (b : Bool) (e : Expr) : Expr :=
  if b then paren e else e

/-- An operator written before the text of its operand. -/
def spaced (op operand : String) : String :=
  if op.toList.isPrefixOf operand.toList then op ++ " " ++ operand else op ++ operand

/-- Elements between braces. -/
def bracesText (style : BraceStyle) (elems : List String) : String :=
  match style, elems with
  | .value, [] => "\x7b 0 \x7d"
  | .value, elems => "\x7b " ++ ", ".intercalate elems ++ " \x7d"
  | .constant, [] => "\x7b0\x7d"
  | .constant, elems => "\x7b " ++ String.join (elems.map (· ++ ", ")) ++ "\x7d"

mutual

/-- The text of an expression, given the spelling of types. -/
def print (types : TypeTable) : Expr → String
  | name n => n.spelling
  | literal l => l.spelling
  | verbatim text => text
  | paren e => "(" ++ print types e ++ ")"
  | deref e => "*" ++ print types e
  | addressOf e => "&" ++ print types e
  | unary op e => spaced op (print types e)
  | before op e => op ++ print types e
  | cast ty e => "(" ++ types.render ty ++ ")" ++ print types e
  | binary op lhs rhs => print types lhs ++ " " ++ op ++ " " ++ print types rhs
  | conditional c t e => print types c ++ " ? " ++ print types t ++ " : " ++ print types e
  | member e field => print types e ++ "." ++ field.spelling
  | arrow e field => print types e ++ "->" ++ field.spelling
  | index e i => print types e ++ "[" ++ print types i ++ "]"
  | call callee args => print types callee ++ "(" ++ ", ".intercalate (printEach types args) ++ ")"
  | braces none style elems => bracesText style (printEach types elems)
  | braces (some ty) style elems =>
    "(" ++ types.render ty ++ ")" ++ bracesText style (printEach types elems)
  | sizeOf ty => "sizeof (" ++ types.render ty ++ ")"

/-- The texts of the expressions of a list. -/
def printEach (types : TypeTable) : List Expr → List String
  | [] => []
  | e :: es => print types e :: printEach types es

end

theorem print_paren (types : TypeTable) (e : Expr) :
    (paren e).print types = "(" ++ e.print types ++ ")" := by
  rw [print]

private def spellingPrecedence (s : String) : Precedence :=
  let cs := s.toList
  if "-".toList.isPrefixOf cs || "(void)".toList.isPrefixOf cs then .unary
  else if "(".toList.isPrefixOf cs && "\x7d".toList.isSuffixOf cs then .suffix
  else .atom

/-- The precedence of the expression of a constant. A minus sign is an operator in C, and a constant
of type `void` is a cast. -/
def constantPrecedence : Expr → Precedence
  | literal l => if l.isNegative then .unary else .atom
  | name (.symbol s) | verbatim s => spellingPrecedence s
  | cast .. => .unary
  | braces (some ty) .. => if ty.isVoid then .unary else .suffix
  | _ => .atom

end Expr

end CBackend.C
