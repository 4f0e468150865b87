import CBackend.Proofs.Bracketing.Types
import CBackend.Proofs.Lowering.Constants

/-!
# Values in frames

Making values, constants and named entities leaves the function alone. A value that is given an
address by its makers keeps it, so that the check for the address of a value without one holds wherever
it is made.
-/

namespace CBackend

open IR Flow Lowering
open C (CType Precedence)

/-- A value has an address, if this is asked for. -/
def Value.Placed (safe : Bool) (v : Value) : Prop :=
  safe = true → v.isRvalue = false

/-- A destination has an address, if this is asked for. -/
def DestPlaced (safe : Bool) (dest : Option Value) : Prop :=
  ∀ v, dest = some v → v.Placed safe

variable {safe : Bool} {m m' : Module} {v w : Value} {ty : CType} {index : Nat} {s : String} {var : VarId}
  {func : FuncId}

theorem DestPlaced.none : DestPlaced safe none := by
  rintro _ ⟨⟩

theorem DestPlaced.of_false {dest : Option Value} : DestPlaced false dest :=
  fun _ _ => nofun

theorem DestPlaced.some (hv : v.Placed safe) : DestPlaced safe (some v) := by
  rintro _ ⟨⟩
  exact hv

/-! ### Expressions of values -/

namespace Harmless

theorem inner : Harmless safe v.inner := by
  unfold Value.inner
  cases v.content with
  | some _ => exact .ok
  | none => exact .error rfl

theorem render : Harmless safe v.render :=
  .bind .inner fun _ _ => .pure

theorem renderParen {b : Bool} : Harmless safe (v.renderParen b) :=
  .bind .render fun _ _ => .pure

theorem binary {op : String} {p : Precedence} (hp : 2 < p.rank) : Harmless safe (v.binary op w p) := by
  unfold Value.binary
  cases h : Precedence.binaryParens? v.effectivePrecedence w.effectivePrecedence p with
  | some _ => exact .bind .renderParen fun _ _ => .bind .renderParen fun _ _ => .pure
  | none => cases p <;> first | exact absurd hp (by decide) | cases h

theorem address (hv : v.Placed safe) : Harmless safe v.address := by
  refine .ite (fun h => ⟨fun hs => ?_, nofun⟩) fun _ =>
    .ite (fun _ => .inner) fun _ => .bind .renderParen fun _ _ => .pure
  rw [hv hs] at h
  cases h

theorem member {field : C.Field} : Harmless safe (v.member field) :=
  .bind .inner fun _ _ => .pure

end Harmless

/-! ### What leaves the function alone -/

namespace Quietly

theorem typeText : Quietly safe (Emit.typeText ty) :=
  .bind .get fun _ _ => .pure trivial

theorem memberType :
    Quietly safe (Emit.memberType ty index) := by
  refine .bind .get fun d _ => ?_
  dsimp only
  cases ty.struct? with
  | some n =>
    refine .bind (.lift .inRange) fun shape _ => .ite (fun _ => ?_) fun _ => .throw rfl
    exact .mono (.lift .inRange) fun _ _ => trivial
  | none =>
    cases ty.array? with
    | some n => exact .bind (.lift .inRange) fun _ _ => .pure trivial
    | none => exact .throw rfl

theorem arrayShape : Quietly safe (Emit.arrayShape ty) := by
  refine .bind .get fun d _ => ?_
  dsimp only
  cases ty.array? with
  | some n => exact .mono (.lift .inRange) fun _ _ => trivial
  | none => exact .throw rfl

variable {e : C.Expr} {ty : CType} {p : Precedence}

theorem newValue {flags : ValueFlags} :
    Quietly safe (Emit.newValue e flags p ty) (Emit.newValue e flags p ty) fun v => v.flags = flags := by
  refine .bind .get fun d _ => ?_
  refine .bind .modifyRest fun _ _ => ?_
  exact .pure rfl

theorem placed {flags : ValueFlags} (h : safe = true → flags.isRvalue = false) :
    Quietly safe (Emit.newValue e flags p ty) (Emit.newValue e flags p ty) (Value.Placed safe) :=
  .mono .newValue fun _ hv hs => (congrArg ValueFlags.isRvalue hv).trans (h hs)

theorem variableValue {n : C.Name} :
    Quietly safe (Emit.variableValue n ty) (Emit.variableValue n ty) (Value.Placed safe) :=
  .placed fun _ => rfl

theorem referenceValue {n : C.Name} {isConst : Bool} :
    Quietly safe (Emit.referenceValue n ty isConst) (Emit.referenceValue n ty isConst) (Value.Placed safe) :=
  .placed fun _ => rfl

theorem rvalue : Quietly safe (Emit.rvalue e ty p) :=
  .mono .newValue fun _ _ => trivial

/-- A part of a value has an address if the value has. -/
theorem part : Quietly safe (Emit.inlineValue e ty p v.partFlags) (Emit.inlineValue e ty p v.partFlags) fun u =>
    v.Placed safe → u.Placed safe :=
  .mono .newValue fun _ hu hv hs => (congrArg ValueFlags.isRvalue hu).trans (hv hs)

theorem member :
    Quietly safe (Emit.member v index) (Emit.member v index) fun u => v.Placed safe → u.Placed safe :=
  .bind .memberType fun _ _ => .bind (.lift .member) fun _ _ => .part

theorem element : Quietly safe (Emit.element v w) (Emit.element v w) fun u => v.Placed safe → u.Placed safe :=
  .bind .arrayShape fun _ _ => .bind (.lift .member) fun _ _ => .bind (.lift .render) fun _ _ => .part

theorem elementAt :
    Quietly safe (Emit.elementAt v index) (Emit.elementAt v index) fun u => v.Placed safe → u.Placed safe :=
  .bind .arrayShape fun _ _ => .bind (.lift .member) fun _ _ => .part

theorem arrayData : Quietly safe (Emit.arrayData v) :=
  .bind .arrayShape fun _ _ => .bind .pointerFor fun _ _ => .bind (.lift .member) fun _ _ => .rvalue

theorem pointerElement : Quietly safe (Emit.pointerElement v w) (Emit.pointerElement v w) (Value.Placed safe) := by
  unfold Emit.pointerElement
  cases v.ty.pointee? with
  | some _ =>
    refine .bind (.lift .renderParen) fun _ _ => .bind (.lift .render) fun _ _ => ?_
    exact .placed fun _ => rfl
  | none => exact .bind .typeText fun _ _ => .throw rfl

theorem cast : Quietly safe (Emit.cast v ty) :=
  .bind (.lift .renderParen) fun _ _ => .rvalue

theorem structLiteral {vs : List Value} : Quietly safe (Emit.structLiteral ty vs) :=
  .bind (.mapM fun _ _ => .ofExcept .renderParen) fun _ _ => .rvalue

theorem zeroValue : Quietly safe (Emit.zeroValue ty) :=
  .ite (fun _ => .structLiteral) fun _ => .rvalue

theorem integer {n : Nat} : Quietly safe (Emit.integer ty n) :=
  .rvalue

/-! ### Entities -/

theorem addInclude {header : String} : Quietly safe (Emit.addInclude header) := by
  refine .modifyRest (fun d => ?_) (fun d => ?_) (fun d => ?_) (fun d => ?_) fun d => ?_ <;> split <;>
    first | rfl | exact ⟨rfl, rfl⟩

/-- A new string constant changes the table of strings and gets a definition. -/
theorem internString : Quietly safe (Emit.internString s) := by
  intro d hd
  have hbyte : Safely safe d (Emit.builtin .u8) _ := builtin d hd
  refine ⟨.get_bind ?_, ?_, fun n d' h => ⟨_, .request h .nil⟩⟩
  · split
    · exact .pure ⟨.refl d, hd, trivial⟩
    · refine hbyte.ok.bind fun _ d₁ ⟨hq, hd₁, _⟩ => ?_
      rintro n d' ⟨⟩
      exact ⟨⟨hq.func, hq.resolving⟩, fun hs => (hd₁ hs).same rfl rfl rfl, trivial⟩
  · have hget : ∀ {f : Draft → Emit Nat}, Harmless safe (f d d) → Harmless safe ((MonadState.get >>= f) d) := id
    refine hget ?_
    cases d.strings.findIdx? (· == s) with
    | some n => exact .ok
    | none => exact .bind hbyte.harmless fun _ _ => .ok

theorem addGlobal : Quietly safe (Emit.addGlobal var ty e) := by
  refine .bind .get fun d _ => .bind .modifyRest fun _ _ => .bind (.modifyRest fun d => ⟨rfl, ?_⟩) fun _ _ => ?_
  · simp [Draft.stringDefinitions, C.StaticVariable.string?]
  · exact .bind .variableValue fun _ _ => .bind .modifyRest fun _ _ => .pure trivial

theorem global? : Quietly safe (Emit.global? var) :=
  .bind .get fun _ _ => .pure trivial

theorem registerFunction {name : C.Name} {hasBody : Bool} :
    Quietly safe (Emit.registerFunction func name hasBody) :=
  .modifyRest

theorem freshFunctionName : Quietly safe Emit.freshFunctionName :=
  .bind .get fun _ _ => .bind
    .modifyRest fun _ _ => .pure trivial

section

variable (hm : m.ExtendedBy m')

include hm

/-- The rest of a declaration, once there is a name. -/
theorem newFunction {f : Function} {name : C.Name} {isStatic : Bool} :
    Quietly safe (do
      Emit.registerFunction func name f.body.isSome
      let convention ← Convention.ofFunction m func
      let params ← inRange (m.paramTypes? f)
      let (result, params) ← Lowering.signature m convention f.result params
      Emit.addPrototype { isStatic, result, name, params }
      Pure.pure name) (do
      Emit.registerFunction func name f.body.isSome
      let convention ← Convention.ofFunction m' func
      let params ← inRange (m'.paramTypes? f)
      let (result, params) ← Lowering.signature m' convention f.result params
      Emit.addPrototype { isStatic, result, name, params }
      Pure.pure name) := by
  refine .bind .registerFunction fun _ _ => .bind (.lift (.ofFunction hm)) fun _ _ => ?_
  refine .bind (.lift (.found hm.paramTypes?)) fun _ _ => .bind (.signature hm) fun _ _ => ?_
  exact .bind .modifyRest fun _ _ => .pure trivial

theorem declareFunction :
    Quietly safe (declareFunction m func) (declareFunction m' func) := by
  refine .bind (Q := fun _ => True) (.bind .get fun _ _ => .pure trivial) fun known _ => ?_
  cases known with
  | some name => exact .pure trivial
  | none =>
    refine .bind (.lift (.found hm.function?)) fun f _ => .when (fun _ => .throw rfl) ?_
    cases f.libraryHeader with
    | some header => exact .bind .addInclude fun _ _ => .bind .registerFunction fun _ _ => .pure trivial
    | none =>
      cases f.symbolName with
      | some symbol => exact .newFunction hm
      | none => exact .ite (fun _ => .newFunction hm) fun _ => .bind .freshFunctionName fun _ _ => .newFunction hm

/-! ### Constants -/

variable {compound : Bool}

theorem braced {ty : Ty} {elems : List C.Expr} :
    Quietly safe (braced m compound ty elems) (braced m' compound ty elems) := by
  unfold Lowering.braced
  exact .ite (fun _ => .bind (.valueType hm) fun _ _ => .pure trivial) fun _ => .pure trivial

omit hm in
theorem floatExpr {format : FloatFormat} {bits : Nat} {l : C.Literal} :
    Quietly safe (floatExpr format bits l) := by
  unfold Lowering.floatExpr
  exact .ite (fun _ => .pure trivial) fun _ => .bind .addInclude fun _ _ => .pure trivial

theorem throughOptionals {payload payload' : Ty → Emit C.Expr} (h : ∀ ty, Quietly safe (payload ty) (payload' ty))
    (ty : Ty) :
    Quietly safe (Lowering.throughOptionals m compound payload ty)
      (Lowering.throughOptionals m' compound payload' ty) := by
  cases ty with
  | optional ty =>
    exact .bind (throughOptionals h ty) fun _ _ => .ite (fun _ => .pure trivial) fun _ => .braced hm
  | _ => exact h _

theorem nestedArray (ty : Ty) (vs : List C.Expr) :
    Quietly safe (Lowering.nestedArray m compound ty vs) (Lowering.nestedArray m' compound ty vs) := by
  cases ty with
  | array elem size =>
    cases elem with
    | array elem inner =>
      unfold Lowering.nestedArray
      refine .ite (fun _ => .braced hm) fun _ => ?_
      exact .bind (.mapM fun c _ => nestedArray (.array elem inner) c) fun _ _ => .braced hm
    | _ => exact .braced hm
  | _ => exact .ite (fun _ => .braced hm) fun _ => .throw rfl
termination_by sizeOf ty

theorem numberArray {isZero : Bool} {vs : List C.Expr} {ty : Ty} :
    Quietly safe (numberArray m compound isZero vs ty) (numberArray m' compound isZero vs ty) :=
  .ite (fun _ => .braced hm) fun _ => .nestedArray hm ty vs

theorem strExpr : Quietly safe (strExpr m compound s) (strExpr m' compound s) :=
  .bind .internString fun _ _ => .braced hm

omit hm in
/-- Several constants at types of their own. -/
theorem parts {fs fs' : List (Ty → Emit C.Expr)} {tys : List Ty}
    (h : List.Forall₂ (fun f f' => ∀ ty, Quietly safe (f ty) (f' ty)) fs fs') :
    Quietly safe ((fs.zip tys).mapM fun x => x.1 x.2) ((fs'.zip tys).mapM fun x => x.1 x.2) := by
  refine .mono (Φ := fun es => es.length = _ ∧ ∀ e ∈ es, True) (.mapM₂ ((forall₂_zip h (P := fun _ => True) (fun _ _ => trivial) tys).imp fun x y hx => ?_))
    fun _ _ => trivial
  rw [← hx.2.1]
  exact hx.1 x.2

end

variable {compound : Bool}

mutual

theorem constantExpr (hm : m.ExtendedBy m') : ∀ (value : Const) (ty : Ty),
    Quietly safe (constantExpr m compound value ty) (constantExpr m' compound value ty)
  | .null, ty => by
    unfold Lowering.constantExpr
    exact .ite (fun _ => .pure trivial) fun _ => .braced hm
  | .sint _, ty | .uint _, ty | .char _, ty | .bool _, ty | .void, ty =>
    throughOptionals hm (fun _ => .pure trivial) ty
  | .float32 _, ty | .float64 _, ty => throughOptionals hm (fun _ => .floatExpr) ty
  | .str _, ty => throughOptionals hm (fun _ => .strExpr hm) ty
  | .enum _, ty => by
    refine throughOptionals hm (fun ty => ?_) ty
    cases ty with
    | enum _ => exact .pure trivial
    | _ => exact .throw rfl
  | .array vs, ty => by
    refine throughOptionals hm (fun ty => .ite (fun _ => .braced hm) fun _ => ?_) ty
    cases ty with
    | array elem _ => exact .bind (.mapM₂ ((constantExprs hm vs).imp fun _ _ hf => hf elem)) fun _ _ => .braced hm
    | _ => exact .throw rfl
  | .sintArray _, ty | .uintArray _, ty => throughOptionals hm (fun _ => .numberArray hm) ty
  | .float32Array vs, ty | .float64Array vs, ty =>
    throughOptionals hm (fun ty => .ite (fun _ => .braced hm) fun _ =>
      .bind (.mapM fun _ _ => .floatExpr) fun es _ => .nestedArray hm ty es) ty
  | .tuple vs, ty => by
    refine throughOptionals hm (fun ty => ?_) ty
    cases ty with
    | tuple _ => exact .bind (.parts (constantExprs hm vs)) fun _ _ => .braced hm
    | _ => exact .throw rfl
  | .aggregate vs, ty => by
    refine throughOptionals hm (fun ty => ?_) ty
    cases ty with
    | aggregate _ =>
      exact .bind (.lift (.found hm.aggregate?)) fun _ _ =>
        .bind (.parts (constantExprs hm vs)) fun _ _ => .braced hm
    | _ => exact .throw rfl
  | .function _, ty => throughOptionals hm (fun _ => .bind (.declareFunction hm) fun _ _ => .pure trivial) ty

theorem constantExprs (hm : m.ExtendedBy m') : ∀ values : List Const,
    List.Forall₂ (fun f f' => ∀ ty, Quietly safe (f ty) (f' ty)) (Lowering.constantExprs m compound values)
      (Lowering.constantExprs m' compound values)
  | [] => .nil
  | v :: vs => .cons (constantExpr hm v) (constantExprs hm vs)

end

section

variable (hm : m.ExtendedBy m')

include hm

theorem constantValue {value : Const} {ty : Ty} :
    Quietly safe (constantValue m value ty) (constantValue m' value ty) :=
  .bind (.constantExpr hm value ty) fun _ _ => .bind (.valueType hm) fun _ _ => .rvalue

theorem stringValue : Quietly safe (stringValue m s) (stringValue m' s) :=
  .constantValue hm

theorem defineGlobal : Quietly safe (defineGlobal m var) (defineGlobal m' var) := by
  refine .bind (.lift (.found hm.var?)) fun decl _ => .bind (.valueType hm) fun ty _ => ?_
  dsimp only
  cases decl.init with
  | some init =>
    refine .bind (.lift (.found hm.expr?)) fun e _ => ?_
    cases e.kind with
    | constant value => exact .bind (.constantExpr hm _ _) fun _ _ => .discard .addGlobal
    | _ => exact .throw rfl
  | none => exact .discard .addGlobal

end

end Quietly

end CBackend
