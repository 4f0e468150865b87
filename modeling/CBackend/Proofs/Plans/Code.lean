import CBackend.Lowering.Expressions
import CBackend.Proofs.Linkage.Types
import CBackend.Proofs.Memory.Optionals
import CBackend.Proofs.Strings.Interning

/-!
# Code that lowering writes

The steps that a computation adds to a body, together with what it leaves alone. Numbers of local variables only go up,
and variables, bound elements and waiting cleanups stay, so a value means the same after the computation as before.
-/

namespace CBackend

open IR
open Memory (Layout memberPath IsItem)
open C (CType)

variable {e : C.Expr} {v w : Value} {ty : CType} {d : Draft}

/-! ### What stays -/

/-- What lowering leaves alone while it writes the code of a plan. -/
structure Untouched (d d' : Draft) : Prop where
  counter : d.func.counter ≤ d'.func.counter
  values : d.valueCounter ≤ d'.valueCounter
  bindings : d'.func.bindings = d.func.bindings
  locals : d'.func.locals = d.func.locals
  cleanups : d'.func.cleanups = d.func.cleanups
  globals : d'.globals = d.globals
  types : Later d d'
  strings : Interns d d'

namespace Untouched

theorem refl (d : Draft) : Untouched d d :=
  ⟨Nat.le_refl _, Nat.le_refl _, rfl, rfl, rfl, rfl, .refl d, .of_same ⟨rfl, rfl⟩⟩

theorem trans {d₁ d₂ d₃ : Draft} (h : Untouched d₁ d₂) (h' : Untouched d₂ d₃) : Untouched d₁ d₃ where
  counter := h.counter.trans h'.counter
  values := h.values.trans h'.values
  bindings := h'.bindings.trans h.bindings
  locals := h'.locals.trans h.locals
  cleanups := h'.cleanups.trans h.cleanups
  globals := h'.globals.trans h.globals
  types := h.types.trans h'.types
  strings := h.strings.trans h'.strings

end Untouched

/-- Every run of a computation adds steps to the body and leaves alone what stays. -/
def Adds {α : Type} (d : Draft) (x : Emit α) (Φ : α → List Step → Draft → Prop) : Prop :=
  Ensures d x fun a d' => ∃ S, d'.func.steps.toList = d.func.steps.toList ++ S ∧ Untouched d d' ∧ Φ a S d'

namespace Adds

variable {α β : Type} {d : Draft} {Φ Ψ : α → List Step → Draft → Prop} {x : Emit α}

theorem pure {a : α} (h : Φ a [] d) : Adds d (Pure.pure a) Φ :=
  Ensures.pure ⟨[], (List.append_nil _).symm, .refl d, h⟩

theorem mono (h : Adds d x Φ) (hΦ : ∀ a S d', Untouched d d' → Φ a S d' → Ψ a S d') : Adds d x Ψ := by
  refine Ensures.mono h ?_
  rintro a d' ⟨S, hS, hkept, ha⟩
  exact ⟨S, hS, hkept, hΦ a S d' hkept ha⟩

theorem bind {x : Emit β} {f : β → Emit α} {Q : β → List Step → Draft → Prop} (hx : Adds d x Q)
    (hf : ∀ b S d₁, Untouched d d₁ → Q b S d₁ → Adds d₁ (f b) fun a S' d' => Φ a (S ++ S') d') :
    Adds d (x >>= f) Φ := by
  refine Ensures.bind hx ?_
  rintro b d₁ ⟨S, hS, hkept, hb⟩
  refine Ensures.mono (hf b S d₁ hkept hb) ?_
  rintro a d' ⟨S', hS', hkept', ha⟩
  exact ⟨S ++ S', by rw [hS', hS, List.append_assoc], hkept.trans hkept', ha⟩

theorem throw {e : Fault} : Adds d (MonadExcept.throw e : Emit α) Φ :=
  Ensures.throw

theorem ensures {Q : α → Draft → Prop} (h : Adds d x Φ)
    (hQ : ∀ a S d', d'.func.steps.toList = d.func.steps.toList ++ S → Φ a S d' → Q a d') : Ensures d x Q := by
  refine Ensures.mono h ?_
  rintro a d' ⟨S, hsteps, -, ha⟩
  exact hQ a S d' hsteps ha

theorem lift_bind {x : Except Fault β} {f : β → Emit α} (hf : ∀ b, x = .ok b → Adds d (f b) Φ) :
    Adds d (liftM x >>= f) Φ :=
  Ensures.lift_bind hf

theorem discard {Φ : PUnit → List Step → Draft → Prop} (h : Adds d x fun _ S d' => Φ ⟨⟩ S d') :
    Adds d (Functor.discard x) Φ :=
  Ensures.discard h

/-- A computation that adds no step. -/
theorem silent (h : Ensures d x fun a d' => d'.func.steps = d.func.steps ∧ Untouched d d' ∧ Φ a [] d') :
    Adds d x Φ := by
  refine Ensures.mono h ?_
  rintro a d' ⟨hsteps, hkept, ha⟩
  exact ⟨[], by rw [hsteps, List.append_nil], hkept, ha⟩

/-! ### Steps -/

theorem line {l : C.Line} : Adds d (Emit.line l) fun _ S _ => S = [.line l] :=
  Ensures.modifyFunction ⟨[.line l], Array.toList_push, ⟨Nat.le_refl _, Nat.le_refl _, rfl, rfl, rfl, rfl,
    SameTypes.later ⟨rfl, rfl, rfl, rfl, rfl⟩, .of_same ⟨rfl, rfl⟩⟩, rfl⟩

theorem note {n : Note} : Adds d (Emit.note n) fun _ S _ => S = [.note n] :=
  Ensures.modifyFunction ⟨[.note n], Array.toList_push, ⟨Nat.le_refl _, Nat.le_refl _, rfl, rfl, rfl, rfl,
    SameTypes.later ⟨rfl, rfl, rfl, rfl, rfl⟩, .of_same ⟨rfl, rfl⟩⟩, rfl⟩

/-- A change of what only lowering itself looks at. -/
theorem modifyFunction {f : FunctionDraft → FunctionDraft} (hsteps : ∀ g, (f g).steps = g.steps)
    (hcounter : ∀ g, (f g).counter = g.counter) (hbindings : ∀ g, (f g).bindings = g.bindings)
    (hlocals : ∀ g, (f g).locals = g.locals) (hcleanups : ∀ g, (f g).cleanups = g.cleanups) :
    Adds d (Emit.modifyFunction f) fun _ S _ => S = [] := by
  refine .silent (Ensures.modifyFunction ⟨hsteps _, ⟨?_, Nat.le_refl _, hbindings _, hlocals _, hcleanups _, rfl,
    SameTypes.later ⟨rfl, rfl, rfl, rfl, rfl⟩, .of_same ⟨rfl, rfl⟩⟩, rfl⟩)
  exact Nat.le_of_eq (hcounter _).symm

theorem openBlock : Adds d Emit.openBlock fun _ S _ => S = [.line .openBlock] := by
  refine .bind .line ?_
  rintro _ _ d₁ - rfl
  refine .mono (.modifyFunction (fun _ => rfl) (fun _ => rfl) (fun _ => rfl) (fun _ => rfl) fun _ => rfl) ?_
  rintro _ _ _ - rfl
  rfl

theorem closeBlock : Adds d Emit.closeBlock fun _ S _ => S = [.line .closeBlock] := by
  refine Ensures.getFunction_bind ?_
  split
  · exact Ensures.bind (Ensures.throw (Φ := fun _ _ => False)) fun _ _ h => h.elim
  · refine Adds.bind (.modifyFunction (fun _ => rfl) (fun _ => rfl) (fun _ => rfl) (fun _ => rfl) fun _ => rfl) ?_
    rintro _ _ d₁ - rfl
    exact .line

theorem beginIfExpr : Adds d (Emit.beginIfExpr e) fun _ S _ => S = [.line (.ifThen e), .line .openBlock] := by
  refine .bind .line ?_
  rintro _ _ d₁ - rfl
  refine .mono .openBlock ?_
  rintro _ _ _ - rfl
  rfl

theorem beginIf : Adds d (Emit.beginIf v) fun _ S _ => ∃ e, v.render = .ok e ∧
    S = [.line (.ifThen e), .line .openBlock] := by
  refine .lift_bind fun e he => .mono .beginIfExpr ?_
  rintro _ _ _ - rfl
  exact ⟨e, he, rfl⟩

theorem beginIfDistinct : Adds d (Emit.beginIfDistinct v w) fun _ S _ => ∃ a b, v.address = .ok a ∧
    w.address = .ok b ∧ S = [.line (.ifThen (.binary "!=" a b)), .line .openBlock] := by
  refine .lift_bind fun a ha => .lift_bind fun b hb => .mono .beginIfExpr ?_
  rintro _ _ _ - rfl
  exact ⟨a, b, ha, hb, rfl⟩

theorem beginElseIf : Adds d (Emit.beginElseIf v) fun _ S _ => ∃ e, v.render = .ok e ∧
    S = [.line .closeBlock, .line (.elseIf e), .line .openBlock] := by
  refine .bind .closeBlock ?_
  rintro _ _ d₁ - rfl
  refine .lift_bind fun e he => .bind .line ?_
  rintro _ _ d₂ - rfl
  refine .mono .openBlock ?_
  rintro _ _ _ - rfl
  exact ⟨e, he, rfl⟩

theorem beginElse : Adds d Emit.beginElse fun _ S _ => S = [.line .closeBlock, .line .otherwise, .line .openBlock] := by
  refine .bind .closeBlock ?_
  rintro _ _ d₁ - rfl
  refine .bind .line ?_
  rintro _ _ d₂ - rfl
  refine .mono .openBlock ?_
  rintro _ _ _ - rfl
  rfl

theorem assignWith {op : String} : Adds d (Emit.assignWith v w op) fun _ S _ =>
    ∃ e, v.binary op w .assignment = .ok e ∧ S = [.line (.expression e)] := by
  refine .lift_bind fun e he => .mono .line ?_
  rintro _ _ _ - rfl
  exact ⟨e, he, rfl⟩

theorem assign : Adds d (Emit.assign v w) fun _ S _ => ∃ e, v.binary "=" w .assignment = .ok e ∧
    S = [.line (.expression e)] :=
  assignWith

/-! ### Values -/

/-- A new value has a number of its own. -/
theorem newValue {flags : ValueFlags} {p : C.Precedence} :
    Adds d (Emit.newValue e flags p ty) fun v S d' => S = [] ∧
      v = ⟨some ⟨d.valueCounter, e⟩, flags, p, ty⟩ ∧ d.valueCounter < d'.valueCounter := by
  refine Ensures.get_bind (Ensures.bind (Ensures.modify (Φ := fun _ d' => d' = _) rfl) ?_)
  rintro _ _ rfl
  exact Ensures.pure ⟨[], (List.append_nil _).symm, ⟨Nat.le_refl _, Nat.le_succ _, rfl, rfl, rfl, rfl,
    SameTypes.later ⟨rfl, rfl, rfl, rfl, rfl⟩, .of_same ⟨rfl, rfl⟩⟩, rfl, rfl, Nat.lt_succ_self _⟩

theorem freshNumber : Adds d Emit.freshNumber fun n S d' => S = [] ∧ n = d.func.counter ∧ n < d'.func.counter := by
  refine Ensures.getFunction_bind (Ensures.bind (Ensures.modifyFunction (Φ := fun _ d' => d' = _) rfl) ?_)
  rintro _ _ rfl
  exact Ensures.pure ⟨[], (List.append_nil _).symm, ⟨Nat.le_succ _, Nat.le_refl _, rfl, rfl, rfl, rfl,
    SameTypes.later ⟨rfl, rfl, rfl, rfl, rfl⟩, .of_same ⟨rfl, rfl⟩⟩, rfl, rfl, Nat.lt_succ_self _⟩

/-- A fresh local variable with an initialiser. -/
theorem declareWith : Adds d (Emit.declareWith ty e) fun v S d' =>
    S = [.line (.declare ty d.func.counter (some e))] ∧ d.func.counter < d'.func.counter ∧
      ∃ k, v = ⟨some ⟨k, .name (.localVar d.func.counter)⟩, { isVariable := true }, .atom, ty⟩ := by
  refine .bind .freshNumber ?_
  rintro _ _ d₁ - ⟨rfl, rfl, hlt⟩
  refine .bind .line ?_
  rintro _ _ d₂ hkept rfl
  refine .mono .newValue ?_
  rintro _ _ d₃ hkept' ⟨rfl, rfl, -⟩
  exact ⟨rfl, Nat.lt_of_lt_of_le hlt (hkept.counter.trans hkept'.counter), _, rfl⟩

end Adds

/-- A local variable designates its own storage. -/
theorem isLocal_variable {k n : Nat} :
    Value.IsLocal ⟨some ⟨k, .name (.localVar n)⟩, { isVariable := true }, .atom, ty⟩ n :=
  fun _ => ⟨.name (.localVar n), rfl, rfl⟩

theorem Adds.copyToLocal : Adds d (Emit.copyToLocal v) fun u S d' =>
    d.func.counter < d'.func.counter ∧
      (∃ k, u = ⟨some ⟨k, .name (.localVar d.func.counter)⟩, { isVariable := true }, .atom, v.ty⟩) ∧
      ∃ e, v.asInitializer = .ok e ∧ S = [.line (.declare v.ty d.func.counter (some e))] := by
  refine .lift_bind fun e he => .mono .declareWith ?_
  rintro _ _ d' - ⟨rfl, hlt, k, rfl⟩
  exact ⟨hlt, ⟨k, rfl⟩, e, he, rfl⟩

/-! ### Parts of values -/

/-- A value that has a place and a number below the next one. -/
structure Value.Addressable (d : Draft) (v : Value) : Prop where
  lvalue : v.isRvalue = false
  numbered : ∃ c, v.content = some c ∧ c.id < d.valueCounter

theorem Value.Addressable.later {d' : Draft} (h : v.Addressable d) (hvalues : d.valueCounter ≤ d'.valueCounter) :
    v.Addressable d' := by
  obtain ⟨c, hc, hlt⟩ := h.numbered
  exact ⟨h.lvalue, c, hc, Nat.lt_of_lt_of_le hlt hvalues⟩

/-- The layout of the objects of a type, as the definitions of the output say. Every type may be taken as a whole. -/
inductive CLayout (t : C.TypeTable) : CType → Layout → Prop
  | leaf (ty : CType) : CLayout t ty .leaf
  | record {ty : CType} {n k : Nat} {shape : C.StructShape} {part : Nat → Layout} (hstruct : ty.struct? = some n)
      (hshape : t.structs.get? n = some shape) (hresolved : shape.isResolved = true)
      (h : ∀ i mty, i < k → shape.members[i]? = some mty → CLayout t mty (part i)) : CLayout t ty (.record k part)
  | array {ty : CType} {n : Nat} {shape : C.ArrayShape} {elem : Layout} (harray : ty.array? = some n)
      (hshape : t.arrays.get? n = some shape) (h : CLayout t shape.elem elem) : CLayout t ty (.array shape.size elem)
  | optional {ty : CType} {n : Nat} {shape : C.StructShape} {payload : Layout} (hstruct : ty.struct? = some n)
      (hshape : t.structs.get? n = some shape) (hresolved : shape.isResolved = true)
      (h : ∀ mty, shape.members[0]? = some mty → CLayout t mty payload) : CLayout t ty (.optional payload)

/-- A layout stays when types are added. -/
theorem CLayout.later {d' : Draft} {ℓ : Layout} (h : CLayout d.unit.types ty ℓ) (hlater : Later d d') :
    CLayout d'.unit.types ty ℓ := by
  have hstruct {n : Nat} {shape : C.StructShape} (hshape : d.unit.types.structs.get? n = some shape)
      (hresolved : shape.isResolved = true) : d'.unit.types.structs.get? n = some shape := by
    obtain ⟨shape', hshape', rfl | ⟨rfl, -⟩⟩ := hlater.structs n shape hshape
    · exact hshape'
    · cases hresolved
  induction h with
  | leaf ty => exact .leaf ty
  | record hty hshape hresolved _ ih => exact .record hty (hstruct hshape hresolved) hresolved ih
  | array hty hshape _ ih => exact .array hty (hlater.arrays _ _ hshape) ih
  | optional hty hshape hresolved _ ih => exact .optional hty (hstruct hshape hresolved) hresolved ih

namespace Adds

variable {d : Draft} {v : Value}

theorem memberType {i : Nat} : Adds d (Emit.memberType ty i) fun mty S d' => S = [] ∧ d' = d ∧
    ∀ n shape, ty.struct? = some n → d.unit.types.structs.get? n = some shape → shape.members[i]? = some mty := by
  refine Ensures.get_bind ?_
  dsimp only
  split
  · next n hn =>
    refine Ensures.lift_bind fun shape hshape => ?_
    split
    · refine Adds.silent (Ensures.lift fun mty hmty => ⟨rfl, .refl d, rfl, rfl, fun n' shape' hn' hshape' => ?_⟩)
      cases hn.symm.trans hn'
      cases (eq_some_of_inRange hshape).symm.trans hshape'
      exact eq_some_of_inRange hmty
    · exact Ensures.throw
  · next n hnone _ =>
    refine Ensures.lift_bind fun shape _ => Ensures.pure ⟨[], (List.append_nil _).symm, .refl d, rfl, rfl, ?_⟩
    intro n' _ hn'
    cases hnone.symm.trans hn'
  · exact Ensures.throw

theorem arrayShape : Adds d (Emit.arrayShape ty) fun shape S d' => S = [] ∧ d' = d ∧
    ∀ n, ty.array? = some n → d.unit.types.arrays.get? n = some shape := by
  refine Ensures.get_bind ?_
  dsimp only
  split
  · next n hn =>
    refine Adds.silent (Ensures.lift fun shape hshape => ⟨rfl, .refl d, rfl, rfl, fun n' hn' => ?_⟩)
    cases hn.symm.trans hn'
    exact eq_some_of_inRange hshape
  · exact Ensures.throw

/-- A member of a value is a part of it, with a number of its own. -/
theorem member {i : Nat} : Adds d (Emit.member v i) fun u S d' => S = [] ∧ u.IsPart v (memberPath i) ∧
    u.isRvalue = v.isRvalue ∧ (∃ e, u.content = some ⟨d.valueCounter, e⟩) ∧ d.valueCounter < d'.valueCounter ∧
    ∀ n shape, v.ty.struct? = some n → d.unit.types.structs.get? n = some shape → shape.members[i]? = some u.ty := by
  refine .bind .memberType ?_
  rintro mty _ _ - ⟨rfl, rfl, hmty⟩
  refine .lift_bind fun e he => .mono .newValue ?_
  rintro _ _ d' - ⟨rfl, rfl, hlt⟩
  refine ⟨rfl, fun σ p hp => ?_, rfl, ⟨e, rfl⟩, hlt, hmty⟩
  exact ⟨e, rfl, hp.member he⟩

/-- An element of a value at an index that a local variable has. -/
theorem element {index : Value} {j : Nat} (hindex : index.IsLocal j) :
    Adds d (Emit.element v index) fun u S d' => S = [] ∧ IsItem u v j ∧ u.isRvalue = v.isRvalue ∧
      (∃ e, u.content = some ⟨d.valueCounter, e⟩) ∧ d.valueCounter < d'.valueCounter ∧
      ∀ n shape, v.ty.array? = some n → d.unit.types.arrays.get? n = some shape → u.ty = shape.elem := by
  refine .bind .arrayShape ?_
  rintro shape _ _ - ⟨rfl, rfl, hshape⟩
  refine .lift_bind fun a ha => .lift_bind fun e he => .mono .newValue ?_
  rintro _ _ d' - ⟨rfl, rfl, hlt⟩
  refine ⟨rfl, fun σ p i hp hj => ?_, rfl, ⟨_, rfl⟩, hlt, fun n shape' hn hshape' => ?_⟩
  · refine ⟨_, rfl, hp.element ha ((hindex σ).eval_eq he) ?_⟩
    rw [Memory.Denoted.datum, Memory.Denoted.tree_place (Memory.Location.isArray_ofLocal j), Memory.Store.read_nil, hj]
  · cases (hshape n hn).symm.trans hshape'
    rfl

end Adds

end CBackend
