import CBackend.Lowering.Declarations
import CBackend.Proofs.Lowering.Runs

/-!
# What lowering a type changes

Lowering a type enters types into a draft. Whatever relation allows the types of a draft to change holds between the
drafts before and after.
-/

namespace CBackend

open IR
open C (CType)

variable {head : C.Head} {m : Module}

/-- Of what bodies depend on, nothing changes. -/
structure SameBodies (d d' : Draft) : Prop where
  func : d'.func = d.func
  globals : d'.globals = d.globals
  functions : d'.functions = d.functions
  queue : d'.queue = d.queue
  bodies : d'.bodies = d.bodies
  definitions : d'.unit.definitions = d.unit.definitions

instance : Std.Refl SameBodies :=
  ⟨fun _ => ⟨rfl, rfl, rfl, rfl, rfl, rfl⟩⟩

instance : IsTrans Draft SameBodies :=
  ⟨fun _ _ _ h h' => ⟨h'.func.trans h.func, h'.globals.trans h.globals,
    h'.functions.trans h.functions, h'.queue.trans h.queue, h'.bodies.trans h.bodies, h'.definitions.trans h.definitions⟩⟩

/-- The C parameters for a parameter whose type is lowered in one of two ways. -/
abbrev Lowering.passed (x : (Bool → Emit CType) × ParamPassing) : Emit (List CType) :=
  match x.2 with
  | .omitted => pure []
  | .direct => do pure [← x.1 true]
  | .reference => do pure [← x.1 false]
  | .indirect => do pure [← Emit.pointerFor (← x.1 true) false]

/-- The members of an aggregate are lowered, and those of other aggregates as a function says. -/
abbrev Lowering.resolve (m : Module) (aggregate : AggregateId → Bool → Emit CType) (id : AggregateId) (n : Nat) :
    Emit Unit := do
  setAggregate id (.resolving n)
  let decl ← inRange (m.aggregate? id)
  let members ← decl.members.mapM fun ty => ofTy m aggregate ty true
  Emit.resolveStruct n members
  setAggregate id (.resolved n)

/-- A relation that allows the types of a draft to change in any way. -/
class AllowsTypes (R : Draft → Draft → Prop) : Prop where
  types : ∀ (d : Draft) (types : C.TypeTable) (forwards typedefs bodies : Array C.Head) (typeCounter : Nat)
    (aggregates : List (AggregateId × AggregateState)),
    R d { d with
      unit := { d.unit with types, forwards, typedefs, bodies }
      typeCounter
      aggregates }

instance : AllowsTypes SameBodies :=
  ⟨fun _ _ _ _ _ _ _ => ⟨rfl, rfl, rfl, rfl, rfl, rfl⟩⟩

namespace Keeps

variable {R : Draft → Draft → Prop}

section

variable [Std.Refl R]

theorem pointerFor {ty : CType} {isConst : Bool} : Keeps R (Emit.pointerFor ty isConst) := by
  unfold Emit.pointerFor Emit.pointerTo
  split
  · exact .pure
  · exact .throw

variable [IsTrans Draft R]

theorem builtin {kind : Builtin} : Keeps R (Emit.builtin kind) := by
  refine .bind .get fun d => ?_
  split
  · exact .pure
  · exact .throw

theorem passedType {x : (Bool → Emit CType) × ParamPassing} (hlower : ∀ b, Keeps R (x.1 b)) :
    Keeps R (Lowering.passed x) := by
  unfold Lowering.passed
  split
  · exact .pure
  · exact .bind (hlower true) fun _ => .pure
  · exact .bind (hlower false) fun _ => .pure
  · exact .bind (hlower true) fun _ => .bind .pointerFor fun _ => .pure

theorem signatureOf {c : Convention} {result : Bool → Emit CType}
    {params : List (Bool → Emit CType)} (hresult : ∀ b, Keeps R (result b))
    (hparams : ∀ f ∈ params, ∀ b, Keeps R (f b)) :
    Keeps R (Lowering.signatureOf c result params) := by
  have hpassed := Keeps.mapM (R := R) (l := params.zip c.params) fun x hx =>
    passedType (hparams x.1 (List.of_mem_zip hx).1)
  unfold Lowering.signatureOf
  dsimp only
  split
  · exact .bind .pure fun _ => .bind hpassed fun _ => .pure
  · exact .bind (hresult true) fun _ => .bind .pure fun _ => .bind hpassed fun _ => .pure
  · exact .bind (hresult false) fun _ => .bind .pure fun _ => .bind hpassed fun _ => .pure
  · exact .bind (hresult true) fun _ => .bind .pointerFor fun _ => .bind .pure fun _ =>
      .bind hpassed fun _ => .pure

end

section

variable [AllowsTypes R]

theorem setTypes {types : C.TypeTable} : Keeps R (Emit.setTypes types) :=
  .modify fun d => AllowsTypes.types d types _ _ _ _ _

theorem nameType : Keeps R (Emit.nameType head) := by
  intro d
  refine .get_bind ?_
  refine .bind (.lift (Φ := fun _ d' => d = d') fun _ _ => rfl) ?_
  rintro types _ rfl
  rintro _ _ ⟨⟩
  exact AllowsTypes.types d types _ _ _ _ _

theorem addForward : Keeps R (Emit.addForward head) :=
  .modify fun d => AllowsTypes.types d _ _ _ _ _ _

theorem addTypedef : Keeps R (Emit.addTypedef head) :=
  .modify fun d => AllowsTypes.types d _ _ _ _ _ _

theorem addBody : Keeps R (Emit.addBody head) :=
  .modify fun d => AllowsTypes.types d _ _ _ _ _ _

theorem setAggregate {id : AggregateId} {state : AggregateState} : Keeps R (Lowering.setAggregate id state) :=
  .modify fun d => AllowsTypes.types d _ _ _ _ _ _

variable [Std.Refl R] [IsTrans Draft R]

theorem structType {members : List CType} : Keeps R (Emit.structType members) := by
  refine .bind .get fun d => .bind .setTypes fun _ => .ite ?_ .pure
  exact .bind .nameType fun _ => .bind .addForward fun _ => .bind .addBody fun _ => .pure

theorem declareStruct : Keeps R Emit.declareStruct :=
  .bind .get fun _ => .bind .setTypes fun _ => .bind .nameType fun _ => .bind .addForward fun _ => .pure

theorem resolveStruct {n : Nat} {members : List CType} : Keeps R (Emit.resolveStruct n members) :=
  .bind .get fun _ => .bind .lift fun _ => .bind .setTypes fun _ => .addBody

theorem arrayType {elem : CType} {size : Nat} : Keeps R (Emit.arrayType elem size) := by
  refine .bind .get fun d => .bind .setTypes fun _ => .ite ?_ .pure
  exact .bind .nameType fun _ => .bind .addForward fun _ => .bind .addBody fun _ => .pure

theorem functionType {result : CType} {params : List CType} : Keeps R (Emit.functionType result params) := by
  refine .bind .get fun d => .bind .setTypes fun _ => .ite ?_ .pure
  exact .bind .nameType fun _ => .bind .addTypedef fun _ => .pure

end

end Keeps

/-- A relation that is kept when a type is found by its shape or registered. -/
class KeepsShapes (R : Draft → Draft → Prop) : Prop where
  struct : ∀ members, Keeps R (Emit.structType members)
  array : ∀ elem size, Keeps R (Emit.arrayType elem size)
  function : ∀ result params, Keeps R (Emit.functionType result params)

instance {R : Draft → Draft → Prop} [AllowsTypes R] [Std.Refl R] [IsTrans Draft R] : KeepsShapes R :=
  ⟨fun _ => .structType, fun _ _ => .arrayType, fun _ _ => .functionType⟩

namespace Keeps

variable {R : Draft → Draft → Prop}

section

variable {m : Module} {aggregate : AggregateId → Bool → Emit CType}

theorem strType [KeepsShapes R] [Std.Refl R] [IsTrans Draft R] : Keeps R Lowering.strType :=
  .bind .builtin fun _ => .bind .pointerFor fun _ => KeepsShapes.struct _

mutual

theorem ofTy [KeepsShapes R] [Std.Refl R] [IsTrans Draft R] (h : ∀ id define, Keeps R (aggregate id define)) :
    ∀ (ty : Ty) (define : Bool), Keeps R (Lowering.ofTy m aggregate ty define)
  | .void, _ => .pure
  | .builtin _, _ | .enum _, _ => .builtin
  | .str, _ => .strType
  | .aggregate id, define => h id define
  | .pointer pointee _, _ | .reference pointee _, _ | .moveReference pointee, _ =>
    .bind (ofTy h pointee false) fun _ => .pointerFor
  | .optional payload, define =>
    .ite (ofTy h payload define)
      (.bind (ofTy h payload true) fun _ => .bind .builtin fun _ => KeepsShapes.struct _)
  | .array elem _, _ => .bind (ofTy h elem true) fun _ => KeepsShapes.array _ _
  | .slice elem _, _ => .bind (ofTy h elem false) fun _ => .bind .pointerFor fun _ => KeepsShapes.struct _
  | .tuple elems, _ => .bind (.mapM fun f hf => ofEach h elems f hf true) fun _ => KeepsShapes.struct _
  | .function result params, _ =>
    .bind .lift fun _ => .bind (.signatureOf (ofTy h result) (ofEach h params)) fun _ => KeepsShapes.function _ _

theorem ofEach [KeepsShapes R] [Std.Refl R] [IsTrans Draft R] (h : ∀ id define, Keeps R (aggregate id define)) :
    ∀ (tys : List Ty), ∀ f ∈ Lowering.ofEach m aggregate tys, ∀ b, Keeps R (f b)
  | [], _, hf => nomatch hf
  | ty :: tys, f, hf => by
    obtain rfl | hf := List.mem_cons.1 hf
    · exact ofTy h ty
    · exact ofEach h tys f hf

end

end

section

variable [AllowsTypes R] [Std.Refl R] [IsTrans Draft R]

theorem aggregateType :
    ∀ (depth : Nat) (id : AggregateId) (define : Bool), Keeps R (Lowering.aggregateType m depth id define)
  | 0, _, _ => .throw
  | depth + 1, id, define => by
    have hresolve (n : Nat) : Keeps R (Lowering.resolve m (Lowering.aggregateType m depth) id n) :=
      .bind .setAggregate fun _ => .bind .lift fun _ =>
        .bind (.mapM fun ty _ => ofTy (aggregateType depth) ty true) fun _ =>
          .bind .resolveStruct fun _ => .setAggregate
    refine .bind .get fun d => ?_
    dsimp only
    split
    · exact .ite (.bind (hresolve _) fun _ => .pure) .pure
    · exact .ite (.bind .lift fun _ => .bind .throw fun _ => .pure) .pure
    · exact .pure
    · exact .pure
    · refine .bind .declareStruct fun n => .bind .lift fun _ => .ite ?_ (.ite ?_ ?_)
      · exact .bind .setAggregate fun _ => .ite (.bind .throw fun _ => .pure) .pure
      · exact .bind (hresolve n) fun _ => .pure
      · exact .bind .setAggregate fun _ => .pure

/-- Lowering a type changes a draft as far as changes of the types are allowed. -/
theorem lowerType {ty : Ty} {define : Bool} : Keeps R (Lowering.lowerType m ty define) :=
  ofTy (aggregateType _) ty define

theorem ofSignature {c : Convention} {result : Ty} {params : List Ty} :
    Keeps R (Lowering.signature m c result params) := by
  refine .signatureOf (fun _ => .lowerType) fun f hf _ => ?_
  obtain ⟨ty, -, rfl⟩ := List.mem_map.1 hf
  exact .lowerType

end

end Keeps

end CBackend
