import CBackend.C.Precedence
import CBackend.IR.Describe

/-!
# Faults

Code generation trusts its module. What it can run into when the module is broken is a fault: it
ends the run, and no text is produced. The first group are the causes that a module or a caller
can bring about; the second group are checks that the generator makes of itself.
-/

namespace CBackend

open IR

/-- Why a run ended without output. -/
inductive Fault
  /-- A position outside its table was used. -/
  | outOfRange
  /-- The nodes of the module are nested deeper than any module without cycles allows. -/
  | tooDeep
  | notGlobal
  | noIntegerOfSize (kind : Builtin)
  | pointerTooDeep
  | emptyPointerChain
  | memberOfIncomplete
  | memberOfNonStruct (ty : String)
  | notArray (ty : String)
  | noValue
  | dereferenceOfNonPointer (ty : String)
  | subscriptOfNonPointer (ty : String)
  | unboundReference (index : Nat)
  | incompleteType (name : String)
  | undeclaredVariable (name : String)
  | noMembers (ty : Ty)
  | tupleIndexOutOfRange (index count : Nat)
  | tupleIndexNotConstant
  | notIndexable (ty : Ty)
  | nonStringCase (value : Const)
  | referenceWithoutInit (name : String)
  | intrinsicNotDeclarable (name : String)
  | entryTakesParameters (name : String)
  | entryResult (name : String)
  | callOfNonFunction
  | argumentCount (intrinsic : Intrinsic) (expected got : Nat)
  | bitOperationOn (ty : Ty)
  | compileTimeOnly (fn : CompileTimeFn)
  | mathWithoutArguments (fn : MathFn)
  | mathOnType (fn : MathFn) (ty : Ty)
  | mathOnIntegers (fn : MathFn)
  | arrayConstantAt (ty : Ty)
  | tupleConstantAt (ty : Ty)
  | aggregateConstantAt (ty : Ty)
  | enumConstantAt (ty : Ty)
  | nonConstantGlobal (name : String)
  | closeWithoutOpen
  | unbalancedScopes
  | unbalancedBindings
  | cleanupsBelowMark (mark depth : Nat)
  | structResolvedTwice (n : Nat)
  | nameOutOfOrder (index expected : Nat)
  | builtinAliasTaken (kind : Builtin)
  | builtinUnregistered
  | parametersRunOut
  | valueCountMismatch
  | noPlainOperator (op : BinaryOp)
  | noCompoundOperator (op : BinaryOp)
  | noBinaryOperator (p : C.Precedence)
  | noIntegerOfWidth (width : Nat)
  | noReturnAddress
  | addressOfRvalue

namespace Fault

private def unreachableText (text : String) : String :=
  "internal error: entered unreachable code: " ++ text

/-- The text of a fault. -/
def message : Fault → String
  | outOfRange => "a position is outside its table"
  | tooDeep => "the module is nested too deeply"
  | notGlobal => "global list entry is not a global"
  | noIntegerOfSize kind =>
    s!"target has no C integer type of {kind.size} bytes for `{kind.name}`"
  | pointerTooDeep => "pointer nesting deeper than the C backend supports"
  | emptyPointerChain => "pop from an empty pointer modifier chain"
  | memberOfIncomplete => "member access into incomplete struct"
  | memberOfNonStruct ty => s!"member access into non-struct type {ty}"
  | notArray ty => s!"{ty} is not an array"
  | noValue => "use of the result of a value-less expression"
  | dereferenceOfNonPointer ty => s!"dereference of non-pointer type {ty}"
  | subscriptOfNonPointer ty => s!"subscript of non-pointer type {ty}"
  | unboundReference index => s!"value reference {index} is not bound"
  | incompleteType name => s!"incomplete type `{name}` used by value"
  | undeclaredVariable name => s!"variable `{name}` used before its declaration"
  | noMembers ty => ty.describe ++ " has no members"
  | tupleIndexOutOfRange index count =>
    s!"tuple subscript index {index} is out of range for {count} elements"
  | tupleIndexNotConstant => "tuple subscript with a non-constant index"
  | notIndexable ty => "subscript of non-indexable type " ++ ty.describe
  | nonStringCase value => "non-string case value " ++ value.describe ++ " in a string switch"
  | referenceWithoutInit name => s!"reference `{name}` declared without an initializer"
  | intrinsicNotDeclarable name => s!"intrinsic `{name}` has no C declaration"
  | entryTakesParameters name => s!"entry function `{name}` takes parameters"
  | entryResult name => s!"entry function `{name}` must return void or an integer"
  | callOfNonFunction => "call through a value of non-function type"
  | argumentCount intrinsic expected got =>
    intrinsic.describe ++ s!" takes {expected} arguments, got {got}"
  | bitOperationOn ty => "bit operation on non-integer type " ++ ty.describe
  | compileTimeOnly fn =>
    "compile-time intrinsic " ++ fn.describe ++ " reached code generation"
  | mathWithoutArguments fn => fn.describe ++ " called without arguments"
  | mathOnType fn ty => fn.describe ++ " on non-numeric type " ++ ty.describe
  | mathOnIntegers fn => fn.describe ++ " on integer operands"
  | arrayConstantAt ty => "array constant of non-array type " ++ ty.describe
  | tupleConstantAt ty => "tuple constant of non-tuple type " ++ ty.describe
  | aggregateConstantAt ty => "aggregate constant of non-aggregate type " ++ ty.describe
  | enumConstantAt ty => "enum constant of non-enum type " ++ ty.describe
  | nonConstantGlobal name => s!"global `{name}` has a non-constant initializer"
  | closeWithoutOpen => "close_block with zero indent"
  | unbalancedScopes => "unbalanced expression scopes"
  | unbalancedBindings => "unbalanced value reference stack"
  | cleanupsBelowMark mark depth =>
    s!"range start index {mark} out of range for slice of length {depth}"
  | structResolvedTwice n => s!"struct StructRef({n}) resolved twice"
  | nameOutOfOrder index expected =>
    "assertion `left == right` failed: type names must be assigned in registration order\n" ++
      s!"  left: {index}\n right: {expected}"
  | builtinAliasTaken kind => s!"builtin `{kind.name}` aliases the C type of another builtin"
  | builtinUnregistered => unreachableText "every builtin is registered"
  | parametersRunOut => unreachableText "parameter list shorter than the ABI"
  | valueCountMismatch => unreachableText "one value per argument"
  | noPlainOperator op => unreachableText (op.describe ++ " has no plain C operator")
  | noCompoundOperator op => unreachableText (op.describe ++ " is not a compound assignment")
  | noBinaryOperator p => unreachableText (p.label ++ " is not a binary operator precedence")
  | noIntegerOfWidth width => unreachableText s!"no {width} bit integer type"
  | noReturnAddress => "indirect return without a return address"
  | addressOfRvalue => "address of an rvalue"

end Fault

/-- The value of a look-up, or the fault of a position outside its table. -/
def inRange {α : Type} : Option α → Except Fault α
  | some a => .ok a
  | none => .error .outOfRange

end CBackend
