import CBackend.Draft.Scopes

/-!
# Lowering types

The C type of a source type. A type that is only pointed to needs no definition of its aggregates,
only their declaration; a type that is used by value has them defined first. An aggregate whose
members are being lowered is not entered again, so that a type that leads back to itself does not
go on for ever.
-/

namespace CBackend.Lowering

open IR
open C (CType)

/-- The C result and parameter types of a signature, given its convention and how its types are
lowered; the flag asks for definitions. -/
def signatureOf (c : Convention) (result : Bool → Emit CType) (params : List (Bool → Emit CType)) :
    Emit (CType × List CType) := do
  let (result, hidden) ← match c.result with
    | .nothing => pure (CType.void, [])
    | .direct => do pure (← result true, [])
    | .reference => do pure (← result false, [])
    | .indirect => do pure (CType.void, [← Emit.pointerFor (← result true) false])
  let passed ← (params.zip c.params).mapM fun (lower, passing) =>
    match passing with
    | .omitted => pure []
    | .direct => do pure [← lower true]
    | .reference => do pure [← lower false]
    | .indirect => do pure [← Emit.pointerFor (← lower true) false]
  pure (result, hidden ++ passed.flatten)

/-- The type of string views: two pointers to read-only bytes. -/
def strType : Emit CType := do
  let byte ← Emit.builtin .u8
  let pointer ← Emit.pointerFor byte true
  Emit.structType [pointer, pointer]

section

variable (m : Module) (aggregate : AggregateId → Bool → Emit CType)

mutual

/-- The C type of a source type, given how aggregates are lowered. The flag asks for the definition
of the aggregates that the type holds by value; the elements of an array are always defined, since
the struct around them is. -/
def ofTy : Ty → Bool → Emit CType
  | .void, _ => pure .void
  | .builtin kind, _ | .enum kind, _ => Emit.builtin kind
  | .str, _ => strType
  | .aggregate id, define => aggregate id define
  | .pointer pointee mutable, _ | .reference pointee mutable, _ => do
    Emit.pointerFor (← ofTy pointee false) (!mutable)
  | .moveReference referenced, _ => do
    Emit.pointerFor (← ofTy referenced false) false
  | .optional payload, define =>
    if (Ty.optional payload).isOptionalPointerLike then ofTy payload define
    else do
      let payload ← ofTy payload true
      Emit.structType [payload, ← Emit.boolType]
  | .array elem size, _ => do
    Emit.arrayType (← ofTy elem true) size
  | .slice elem mutable, _ => do
    let pointer ← Emit.pointerFor (← ofTy elem false) (!mutable)
    Emit.structType [pointer, pointer]
  | .tuple elems, _ => do
    Emit.structType (← (ofEach elems).mapM (· true))
  | .function result params, _ => do
    let convention ← Convention.compute m result params
    let (result, params) ← signatureOf convention (ofTy result) (ofEach params)
    Emit.functionType result params

/-- How each type of a list is lowered. -/
def ofEach : List Ty → List (Bool → Emit CType)
  | [] => []
  | ty :: tys => ofTy ty :: ofEach tys

end

end

/-- Records how far an aggregate has been lowered. -/
def setAggregate (id : AggregateId) (state : AggregateState) : Emit Unit :=
  modify fun d => { d with aggregates := (id, state) :: d.aggregates }

/-- The struct of an aggregate, defined if asked for. The number bounds how many aggregates may be
entered inside each other; since none is entered twice, the number of aggregates is enough. -/
def aggregateType (m : Module) : Nat → AggregateId → Bool → Emit CType
  | 0, _, _ => throw .tooDeep
  | depth + 1, id, define => do
    let resolve (n : Nat) : Emit Unit := do
      setAggregate id (.resolving n)
      let aggregate ← inRange (m.aggregate? id)
      let members ← aggregate.members.mapM fun ty => ofTy m (aggregateType m depth) ty true
      Emit.resolveStruct n members
      setAggregate id (.resolved n)
    match (← get).aggregates.lookup id with
    | some (.declared n) =>
      if define then resolve n
      pure { head := .struct n }
    | some (.incomplete n) =>
      if define then throw (.incompleteType (← inRange (m.aggregate? id)).name)
      pure { head := .struct n }
    | some (.resolving n) | some (.resolved n) => pure { head := .struct n }
    | none =>
      let n ← Emit.declareStruct
      let aggregate ← inRange (m.aggregate? id)
      if aggregate.isForward then
        setAggregate id (.incomplete n)
        if define then throw (.incompleteType aggregate.name)
      else if define then
        resolve n
      else
        setAggregate id (.declared n)
      pure { head := .struct n }

/-- The C type of a source type; the flag asks for the definition of what it holds by value. -/
def lowerType (m : Module) (ty : Ty) (define : Bool) : Emit CType :=
  ofTy m (aggregateType m (m.aggregates.size + 1)) ty define

/-- The C type of the values of a source type. -/
def valueType (m : Module) (ty : Ty) : Emit CType :=
  lowerType m ty true

/-- The C result and parameter types of a signature. -/
def signature (m : Module) (c : Convention) (result : Ty) (params : List Ty) :
    Emit (CType × List CType) :=
  signatureOf c (lowerType m result) (params.map (lowerType m))

end CBackend.Lowering
