/-!
# C operator precedence

The levels of C's expressions from the tightest to the loosest, and where an operand needs
parentheses. Assignment and the conditional operator share a level and group to the right; every
other level of binary operators groups to the left.
-/

namespace CBackend.C

/-- The levels of C's expressions, tightest first. -/
inductive Precedence
  /-- Names, literals and parenthesised expressions. -/
  | atom
  /-- `a[i]`, `a.b`, `a->b`, `f(x)` and compound literals. -/
  | suffix
  /-- Unary operators and casts. -/
  | unary
  | multiplicative
  | additive
  | shift
  | relational
  | equality
  | bitAnd
  | bitXor
  | bitOr
  | logicalAnd
  | logicalOr
  /-- Assignment and the conditional operator. -/
  | assignment
  | comma
  deriving DecidableEq, Repr

namespace Precedence

/-- Every level, tightest first. -/
def all : List Precedence :=
  [atom, suffix, unary, multiplicative, additive, shift, relational, equality, bitAnd, bitXor,
    bitOr, logicalAnd, logicalOr, assignment, comma]

/-- The position of a level, from `0` for the tightest. -/
def rank : Precedence → Nat
  | atom => 0
  | suffix => 1
  | unary => 2
  | multiplicative => 3
  | additive => 4
  | shift => 5
  | relational => 6
  | equality => 7
  | bitAnd => 8
  | bitXor => 9
  | bitOr => 10
  | logicalAnd => 11
  | logicalOr => 12
  | assignment => 13
  | comma => 14

/-- Whether `p` binds looser than `q`. -/
def looser (p q : Precedence) : Bool :=
  q.rank < p.rank

/-- Whether `p` binds as loosely as `q`, or looser. -/
def looserOrEqual (p q : Precedence) : Bool :=
  q.rank ≤ p.rank

/-- Whether an operand of this level needs parentheses after a unary operator. -/
def needsUnaryParens (p : Precedence) : Bool :=
  p.looser .unary

/-- Whether an expression of this level needs parentheses as an initialiser, an element of a list
or an argument, where a comma separates. -/
def needsInitializerParens (p : Precedence) : Bool :=
  p.looser .assignment

/-- Whether the left and the right operand of a binary operator need parentheses; `none` if no
binary operator has the level `op`. -/
def binaryParens? (lhs rhs op : Precedence) : Option (Bool × Bool) :=
  match op with
  | atom | suffix | unary => none
  | assignment => some (lhs.looserOrEqual op, rhs.looser op)
  | _ => some (lhs.looser op, rhs.looserOrEqual op)

/-- The name of a level in diagnostics. -/
def label : Precedence → String
  | atom => "Literal"
  | suffix => "Suffix"
  | unary => "Prefix"
  | multiplicative => "Multiply"
  | additive => "Addition"
  | shift => "Bitshift"
  | relational => "Relational"
  | equality => "Equality"
  | bitAnd => "BitwiseAnd"
  | bitXor => "BitwiseXor"
  | bitOr => "BitwiseOr"
  | logicalAnd => "LogicalAnd"
  | logicalOr => "LogicalOr"
  | assignment => "Assignment"
  | comma => "Comma"

end Precedence

end CBackend.C
