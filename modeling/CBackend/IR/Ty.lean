import CBackend.IR.Builtin

/-!
# Source types

A source type is a tree of type constructors over the built-in scalars and the aggregates that a
module declares. Aliases, generic parameters and inferred types are already resolved.
-/

namespace CBackend.IR

/-- The position of an expression in its module. -/
structure ExprId where
  index : Nat
  deriving DecidableEq, Repr

/-- The position of a statement in its module. -/
structure StmtId where
  index : Nat
  deriving DecidableEq, Repr

/-- The position of a variable in its module. -/
structure VarId where
  index : Nat
  deriving DecidableEq, Repr

/-- The position of a function in its module. -/
structure FuncId where
  index : Nat
  deriving DecidableEq, Repr

/-- The position of an aggregate declaration in its module. -/
structure AggregateId where
  index : Nat
  deriving DecidableEq, Repr

/-- A resolved source type. -/
inductive Ty
  | void
  | builtin (kind : Builtin)
  /-- A string view: a pair of pointers to read-only bytes. -/
  | str
  | aggregate (id : AggregateId)
  /-- An enumeration, of which only the integer that represents it is known. -/
  | enum (underlying : Builtin)
  | pointer (pointee : Ty) (mutable : Bool)
  | reference (referenced : Ty) (mutable : Bool)
  /-- A reference to an object that may be moved out of; always mutable. -/
  | moveReference (referenced : Ty)
  | optional (payload : Ty)
  | array (elem : Ty) (size : Nat)
  /-- A view of consecutive elements: a pair of pointers. -/
  | slice (elem : Ty) (mutable : Bool)
  | tuple (elems : List Ty)
  | function (result : Ty) (params : List Ty)

namespace Ty

mutual

/-- The number of levels of a type, over all of its parts. -/
def size : Ty → Nat
  | void | builtin _ | str | aggregate _ | enum _ => 1
  | pointer pointee _ => pointee.size + 1
  | reference referenced _ => referenced.size + 1
  | moveReference referenced => referenced.size + 1
  | optional payload => payload.size + 1
  | array elem _ => elem.size + 1
  | slice elem _ => elem.size + 1
  | tuple elems => sizeEach elems + 1
  | function result params => result.size + sizeEach params + 1

/-- The number of levels of the types of a list together. -/
def sizeEach : List Ty → Nat
  | [] => 0
  | ty :: tys => ty.size + sizeEach tys

end

/-- Whether the type is `void`. -/
def isVoid : Ty → Bool
  | void => true
  | _ => false

/-- Whether the type is a reference or a move reference. -/
def isAnyReference : Ty → Bool
  | reference .. | moveReference _ => true
  | _ => false

/-- Whether the type is a reference to existing storage. -/
def isLvalueReference : Ty → Bool
  | reference .. => true
  | _ => false

/-- Whether the type is a pointer. -/
def isPointer : Ty → Bool
  | pointer .. => true
  | _ => false

/-- The type behind one reference, or the type itself. -/
def stripReference : Ty → Ty
  | reference referenced _ => referenced
  | moveReference referenced => referenced
  | ty => ty

/-- The scalar that represents a built-in or an enumeration. -/
def builtinKind? : Ty → Option Builtin
  | builtin kind => some kind
  | enum underlying => some underlying
  | _ => none

/-- The payload of an optional. -/
def payload? : Ty → Option Ty
  | optional payload => some payload
  | _ => none

/-- Whether the type is an optional whose payload is an address, so that null means empty and no
flag is stored. -/
def isOptionalPointerLike : Ty → Bool
  | optional (pointer ..) | optional (reference ..) | optional (function ..) => true
  | _ => false

/-- Whether the type is an optional reference, whose value is the object referred to. -/
def isOptionalReference : Ty → Bool
  | optional (reference ..) => true
  | _ => false

end Ty

end CBackend.IR
