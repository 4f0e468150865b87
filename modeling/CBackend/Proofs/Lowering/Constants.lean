import CBackend.Lowering.Constants
import CBackend.Proofs.Lowering.Declarations
import CBackend.Proofs.Lowering.Lines

/-!
# Types, declarations and constants in growing drafts

Types, named functions, strings and constants are entered into a draft without a line in the body that
is being written.
-/

namespace CBackend

open IR Flow Emission Lowering
open C (CType)

variable {m : Module} {d : Draft} {ty : Ty} {var : VarId}

namespace Keeps

theorem lowerType_silent {define : Bool} :
    Keeps (Silent m) (Lowering.lowerType m ty define) := by
  intro d c d' hrun
  have hsame : SameBodies d d' := lowerType d c d' hrun
  refine ⟨hsame.func, fun h => ?_, hsame.bodies, hsame.definitions, .single (.type hrun),
    congrArg FunctionDraft.returns hsame.func⟩
  rwa [Outside, hsame.globals, hsame.functions]

theorem signature {c : Convention} {result : Ty} {params : List Ty} :
    Keeps (Silent m) (signature m c result params) := by
  refine .signatureOf (fun _ => .lowerType_silent) fun f hf _ => ?_
  obtain ⟨ty, -, rfl⟩ := List.mem_map.1 hf
  exact .lowerType_silent

end Keeps

namespace Silently

theorem lowerType {define : Bool} : Silently m d (lowerType m ty define) :=
  .of_keeps .lowerType_silent fun _ => rfl

theorem valueType : Silently m d (valueType m ty) :=
  .lowerType

theorem signature {c : Convention} {result : Ty} {params : List Ty} :
    Silently m d (signature m c result params) :=
  .of_keeps .signature fun _ => by simp [Mentions.locals]

theorem addInclude {header : String} (h : header ∈ supportHeaders) : Silently m d (Emit.addInclude header) := by
  refine .modify ?_
  split
  · exact .refl m d
  · next hnew => exact ⟨rfl, id, rfl, rfl, .single (.header h (by simpa using hnew)), rfl⟩

theorem declareFunction {func : FuncId} (h : m.Reached (.func func)) :
    Silently m d (declareFunction m func) := by
  intro hd name d' hrun
  have hrequested := Ensures.declareFunction name d' hrun
  obtain ⟨hfunc, hbodies, hdefinitions⟩ := hrequested.bodies_eq
  refine ⟨⟨hfunc, hrequested.outside, hbodies, hdefinitions, .single (.function h hrun), by rw [hfunc]⟩, ?_⟩
  exact .of_nil ((hrequested.outside hd.outside).2 _ (mem_of_lookup_eq_some hrequested.lookup_eq))

end Silently

/-! ### Constants -/

theorem signedExpr_locals (v : Int64) : (signedExpr v).locals = [] := by
  unfold signedExpr
  split <;> rfl

theorem enumExpr_locals (v : UInt64) (underlying : Builtin) :
    (enumExpr v underlying).locals = [] := by
  unfold enumExpr
  split
  · exact signedExpr_locals _
  · rfl

theorem mem_of_mem_chunks {α : Type} {length : Nat} {xs c : List α} {x : α}
    (hc : c ∈ chunks length xs) (hx : x ∈ c) : x ∈ xs := by
  unfold chunks at hc
  generalize xs.length = n at hc
  fun_induction chunks.go length n xs with
  | case1 => cases hc
  | case2 => cases hc
  | case3 n y ys ih =>
    obtain rfl | hc := List.mem_cons.1 hc
    · exact List.mem_of_mem_take hx
    · exact List.mem_of_mem_drop (ih hc)

namespace Silently

theorem floatExpr {format : FloatFormat} {bits : Nat} {l : C.Literal} :
    Silently m d (floatExpr format bits l) :=
  .whenNot (fun _ => .addInclude (by decide)) fun _ _ => .pure (.of_nil rfl)

variable {compound : Bool}

theorem braced {elems : List C.Expr} (h : Fits d elems) :
    Silently m d (braced m compound ty elems) := by
  unfold Lowering.braced
  split
  · exact .bind .valueType fun _ _ s _ => .pure (s.fits h).expr_list
  · exact .pure h.expr_list

theorem throughOptionals {payload : Ty → Emit C.Expr} (h : ∀ ty d, Silently m d (payload ty)) :
    ∀ ty, Silently m d (throughOptionals m compound payload ty) := by
  intro ty
  fun_induction Lowering.throughOptionals m compound payload ty with
  | case1 ty ih =>
    refine .bind ih fun e d₁ _ he => ?_
    split
    · exact .pure he
    · exact .braced (he.cons (.of_nil rfl))
  | case2 ty => exact h ty d

theorem nestedArray (ty : Ty) (vs : List C.Expr) (d : Draft) (h : Fits d vs) :
    Silently m d (Lowering.nestedArray m compound ty vs) := by
  fun_cases Lowering.nestedArray m compound ty vs with
  | case1 => exact .braced .nil
  | case2 elem inner size _ stride =>
    refine .bind (.mapM fun c hc d₁ s => nestedArray (.array elem inner) c d₁ ?_)
      fun es _ _ hes => .braced hes
    exact .list fun e he => s.fits (h.of_mem (mem_of_mem_chunks hc he))
  | case3 => exact .braced h
  | case4 => exact .braced .nil
  | case5 => exact .throw
termination_by sizeOf ty

theorem numberArray {isZero : Bool} {vs : List C.Expr} (h : Fits d vs) :
    Silently m d (numberArray m compound isZero vs ty) := by
  unfold Lowering.numberArray
  split
  · exact .braced .nil
  · exact nestedArray _ _ _ h

theorem strExpr {s : String} : Silently m d (strExpr m compound s) :=
  .bind .internString fun _ _ _ _ => .braced (.of_nil rfl)

/-- Constants of a kind that is written without a look at the draft. -/
theorem literals {α : Type} {f : α → C.Expr} {vs : List α} (hf : ∀ v, (f v).locals = []) :
    Fits d (vs.map f) := by
  refine .list fun e he => ?_
  obtain ⟨v, -, rfl⟩ := List.mem_map.1 he
  exact .of_nil (hf v)

/-- Several constants at types of their own. -/
theorem parts {fs : List (Ty → Emit C.Expr)} {tys : List Ty}
    (h : ∀ f ∈ fs, ∀ ty d, Silently m d (f ty)) :
    Silently m d ((fs.zip tys).mapM fun x => x.1 x.2) :=
  .mapM fun x hx d₁ _ => h x.1 (List.of_mem_zip hx).1 x.2 d₁

mutual

theorem constantExpr : ∀ (value : Const) (ty : Ty) (d : Draft), (∀ func ∈ value.funcs, m.Reached (.func func)) →
    Silently m d (constantExpr m compound value ty)
  | .null, ty, d, _ => by
    unfold Lowering.constantExpr
    split
    · exact .pure (.of_nil rfl)
    · exact .braced .nil
  | .sint v, ty, d, _ => throughOptionals (fun _ _ => .pure (.of_nil (signedExpr_locals v))) ty
  | .uint _, ty, d, _ => throughOptionals (fun _ _ => .pure (.of_nil rfl)) ty
  | .float32 _, ty, d, _ | .float64 _, ty, d, _ => throughOptionals (fun _ _ => .floatExpr) ty
  | .char _, ty, d, _ | .bool _, ty, d, _ | .void, ty, d, _ =>
    throughOptionals (fun _ _ => .pure (.of_nil rfl)) ty
  | .str _, ty, d, _ => throughOptionals (fun _ _ => .strExpr) ty
  | .enum v, ty, d, _ => by
    refine throughOptionals (fun ty d => ?_) ty
    split
    · exact .pure (.of_nil (enumExpr_locals v _))
    · exact .throw
  | .array vs, ty, d, h => by
    refine throughOptionals (fun ty d => ?_) ty
    split
    · exact .braced .nil
    · split
      · next elem size =>
        refine .bind (.mapM fun f hf d₁ _ => constantExprs vs h f hf elem d₁) fun _ _ _ h => ?_
        exact .braced h
      · exact .throw
  | .sintArray vs, ty, d, _ => throughOptionals (fun _ _ => .numberArray (literals signedExpr_locals)) ty
  | .uintArray vs, ty, d, _ => throughOptionals (fun _ _ => .numberArray (literals fun _ => rfl)) ty
  | .float32Array vs, ty, d, _ | .float64Array vs, ty, d, _ => by
    refine throughOptionals (fun ty d => ?_) ty
    split
    · exact .braced .nil
    · exact .bind (.mapM fun _ _ _ _ => .floatExpr) fun _ _ d h => nestedArray _ _ _ h
  | .tuple vs, ty, d, h => by
    refine throughOptionals (fun ty d => ?_) ty
    split
    · exact .bind (.parts (constantExprs vs h)) fun _ _ _ h => .braced h
    · exact .throw
  | .aggregate vs, ty, d, h => by
    refine throughOptionals (fun ty d => ?_) ty
    split
    · exact .lift fun _ _ => .bind (.parts (constantExprs vs h)) fun _ _ _ h => .braced h
    · exact .throw
  | .function func, ty, d, h =>
    throughOptionals (fun _ _ => .bind (.declareFunction (h func List.mem_cons_self)) fun _ _ _ h => .pure h) ty

theorem constantExprs : ∀ (values : List Const), (∀ func ∈ Const.funcsOf values, m.Reached (.func func)) →
    ∀ f ∈ Lowering.constantExprs m compound values, ∀ ty d, Silently m d (f ty)
  | [], _, _, hf => nomatch hf
  | v :: vs, h, f, hf => by
    obtain rfl | hf := List.mem_cons.1 hf
    · exact fun ty d => constantExpr v ty d fun func hfunc => h func (List.mem_append_left _ hfunc)
    · exact constantExprs vs (fun func hfunc => h func (List.mem_append_right _ hfunc)) f hf

end

theorem constantValue {value : Const} (h : ∀ func ∈ value.funcs, m.Reached (.func func)) :
    Silently m d (constantValue m value ty) :=
  .bind (.constantExpr value ty d h) fun _ _ _ he => .bind .valueType fun _ _ s _ => .rvalue (s.fits he)

theorem stringValue {s : String} : Silently m d (stringValue m s) :=
  .constantValue (by rintro _ ⟨⟩)

/-! ### Global variables -/

theorem addGlobal {ty : CType} {init : C.Expr} :
    Silently m d (Emit.addGlobal var ty init) := by
  refine .get (.bind (.modify ⟨rfl, id, rfl, rfl, .single (.statics _ _ _ _), rfl⟩) fun _ d₁ _ _ => ?_)
  refine .bind .addVariable fun _ d₂ _ _ _ => .bind (.newValue (m := m)) ?_
  rintro _ d₃ ⟨⟨id, rfl⟩, hs⟩
  refine .bind (.modify (Φ := fun _ d' => Silent m d₂ d') (hs.trans ⟨rfl, ?_, rfl, rfl, ?_, rfl⟩))
    fun _ _ hs' => .pure ⟨hs', .of_nil rfl⟩
  · refine fun ⟨hglobals, hfunctions⟩ => ⟨fun entry hentry => ?_, hfunctions⟩
    obtain rfl | hentry := List.mem_cons.1 hentry
    · rfl
    · exact hglobals entry hentry
  · exact .single (.statics _ _ _ _)

theorem global? : Silently m d (Emit.global? var) := by
  refine .get fun hd => .pure ⟨.refl m d, ?_⟩
  cases h : d.globals.lookup var with
  | none => exact .none
  | some v => exact .of_nil (hd.outside.1 _ (mem_of_lookup_eq_some h))

theorem defineGlobal (h : m.Reached (.var var)) : Silently m d (defineGlobal m var) := by
  refine .lift fun decl hdecl => .bind .valueType fun ty d₁ _ _ => ?_
  dsimp only
  split
  · next init hinit =>
    refine .lift fun e he => ?_
    have hreached : m.Reached (.expr init) :=
      h.ofVar (eq_some_of_inRange hdecl) _ (by simp [VarDecl.items, hinit])
    split
    · next value hvalue =>
      refine .bind (.constantExpr value _ _ fun func hfunc => ?_) fun _ _ _ _ => .discard .addGlobal
      exact hreached.ofExpr (eq_some_of_inRange he) _ (by simp [Module.itemsOf, Module.funcsOf, hvalue, hfunc])
    · exact .bind .throw fun _ _ _ _ => .discard .addGlobal
  · exact .bind (.pure (by split <;> exact .of_nil rfl)) fun _ _ _ _ => .discard .addGlobal

end Silently

end CBackend
