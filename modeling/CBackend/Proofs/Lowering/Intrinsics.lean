import CBackend.Lowering.Intrinsics
import CBackend.Proofs.Lowering.Plans

/-!
# Intrinsics in growing drafts

What lowering writes for the functions that the compiler provides: statements that mention only values
that may be used, and what the walk writes for the arguments.
-/

namespace CBackend

open IR Flow Emission Lowering
open C (CType)

variable {fn : MathFn} {args : List ExprId} {intrinsic : Intrinsic} {operand : ExprId}

/-! ### Expressions -/

section

variable {a b v : C.Expr} {n : Nat}

theorem mem_bitCountExpr_locals {counter : BitCounter} {width : Nat}
    (h : n ∈ (bitCountExpr counter width v).1.locals) : n ∈ v.locals := by
  cases counter with
  | leadingZeros =>
    simp only [bitCountExpr, ifZero] at h
    split at h <;> simpa [C.Expr.locals, C.Expr.localsEach, C.Expr.nat, C.Expr.symbol] using h
  | trailingZeros =>
    simpa [bitCountExpr, ifZero, C.Expr.locals, C.Expr.localsEach, C.Expr.nat,
      C.Expr.symbol] using h
  | ones => simpa [bitCountExpr, C.Expr.locals, C.Expr.localsEach, C.Expr.symbol] using h

theorem mem_funnelShiftExpr_locals {isLeft : Bool} {unsigned : CType} {width : Nat}
    (h : n ∈ (funnelShiftExpr isLeft unsigned width a b v).locals) :
    n ∈ a.locals ∨ n ∈ b.locals ∨ n ∈ v.locals := by
  unfold funnelShiftExpr at h
  split at h <;> simp [ifZero, C.Expr.locals, C.Expr.nat] at h <;> tauto

theorem mem_integerMathExpr_locals {operands : List C.Expr} (hv : integerMathExpr fn operands = .ok v)
    (h : n ∈ v.locals) :
    ∃ e ∈ operands, n ∈ e.locals := by
  unfold integerMathExpr at hv
  split at hv <;> cases hv <;> simp [C.Expr.locals, C.Expr.nat] at h ⊢ <;> tauto

/-- The operands of a mathematical function of integers are its arguments. -/
theorem exists_of_operandsOf {vs : List Value} {es : List C.Expr} {e : C.Expr}
    (h : mathCall.operandsOf fn vs = .ok es) (he : e ∈ es) : ∃ v ∈ vs, v.render = .ok e := by
  unfold mathCall.operandsOf at h
  split at h
  · exact exists_of_mapM_eq_ok h he
  · exact exists_of_mapM_eq_ok h he
  · exact exists_of_mapM_eq_ok h he
  · cases h

end

namespace Lowers

variable {strict : Bool} {m : Module} {bal : Bool} {γ : Exits} {d d₁ : Draft} {v v' : Value}
  {dest : Option Value} {ty : Ty}

theorem memberDistance (hv : Fits d v) : Lowers strict m bal γ d (memberDistance m v ty) := by
  refine .bind (.materialize hv) fun v d₁ _ hv => .bind (.member hv) fun first d₂ g₂ hfirst => ?_
  refine .bind (.member (g₂.fits hv)) fun last d₃ g₃ hlast => .lift fun e he => ?_
  have he := hlast.of_binary (g₃.fits hfirst) he
  refine .bind Silently.valueType.lowers fun _ _ g₄ _ => ?_
  exact .bind (.rvalue (g₄.fits he)) fun _ _ _ hv => .cast hv

theorem libraryCall {name : String} {vs : List Value} (hvs : Fits d vs) :
    Lowers strict m bal γ d (libraryCall m name vs ty) := by
  refine .bind (.initializers hvs) fun args d₁ _ hargs => ?_
  have hcall : Fits d₁ (C.Expr.call (.symbol name) args) := hargs.expr_list
  dsimp only
  split
  · exact .bind (.statement hcall) fun _ _ _ _ => .pure (.of_nil rfl)
  · exact .bind Silently.valueType.lowers fun _ _ g _ => .declareWith (g.fits hcall)

section

variable {w : Walk} (hw : w.Sound strict m)

include hw

/-! ### Arguments -/

theorem intrinsicValues (h : ∀ e ∈ args, Allowed strict m γ (.expr e)) :
    Lowers strict m false γ d (intrinsicValues m w args) := by
  induction args generalizing d with
  | nil => exact .pure .nil
  | cons arg args ih =>
    refine .bind (hw.expr (h arg List.mem_cons_self) .none) fun _ _ _ hv => .lift fun _ _ => ?_
    refine .bind (.stabilizeUnless hv) fun v _ _ hv => ?_
    refine .bind (ih fun e he => h e (List.mem_cons_of_mem _ he)) fun vs _ g hvs => ?_
    exact .pure ((g.fits hv).cons hvs)

omit hw in
theorem mem_of_oneArgument {a : ExprId} (h : oneArgument intrinsic args = .ok a) : a ∈ args := by
  unfold oneArgument at h
  split at h <;> cases h
  exact List.mem_cons_self

omit hw in
theorem mem_of_twoArguments {x : ExprId × ExprId} (h : twoArguments intrinsic args = .ok x) :
    x.1 ∈ args ∧ x.2 ∈ args := by
  unfold twoArguments at h
  split at h <;> cases h
  simp

omit hw in
theorem mem_of_threeArguments {x : ExprId × ExprId × ExprId} (h : threeArguments intrinsic args = .ok x) :
    x.1 ∈ args ∧ x.2.1 ∈ args ∧ x.2.2 ∈ args := by
  unfold threeArguments at h
  split at h <;> cases h
  simp

theorem intrinsicValue (h : ∀ e ∈ args, Allowed strict m γ (.expr e)) :
    Lowers strict m false γ d (intrinsicValue m w intrinsic args) := by
  refine .lift fun a ha => .bind (.intrinsicValues hw ?_) fun vs _ _ hvs => ?_
  · intro e he
    rw [List.mem_singleton.1 he]
    exact h a (mem_of_oneArgument ha)
  · split
    · exact .pure (hvs.of_mem List.mem_cons_self)
    · exact .throw

theorem unsignedOperand (h : Allowed strict m γ (.expr operand)) :
    Lowers strict m false γ d (unsignedOperand m w operand) := by
  refine .lift fun kind _ => .bind (hw.expr h .none) fun v _ _ hv => ?_
  have hcopy {v : Value} {d₁ : Draft} (hv : Fits d₁ v) : Lowers strict m false γ d₁ (do
      let v ← Emit.copyToLocal v
      Pure.pure (kind.bitWidth, v)) :=
    .bind (.copyToLocal hv) fun _ _ _ hv => .pure (.prod (.of_nil rfl) hv)
  dsimp only
  split
  · exact .bind (.pure hv) fun _ _ _ hv => hcopy hv
  · split
    · refine .bind Silently.builtin.lowers fun _ _ g _ => ?_
      exact .bind (.cast (g.fits hv)) fun _ _ _ hv => hcopy hv
    · exact .bind (β := Value) .throw fun _ _ _ hv => hcopy hv

theorem memoryCall {name : String} (h : ∀ e ∈ args, Allowed strict m γ (.expr e)) :
    Lowers strict m false γ d (memoryCall m w name args ty) := by
  refine .bind (.intrinsicValues hw h) fun vs _ _ hvs => ?_
  exact .bind (Silently.addInclude (by decide)).lowers fun _ _ g _ => .libraryCall (g.fits hvs)

/-! ### Bits -/

theorem bitCount {counter : BitCounter} (h : Allowed strict m γ (.expr operand)) :
    Lowers strict m false γ d (bitCount m w counter operand ty) := by
  refine .bind (.unsignedOperand hw h) fun x d₁ _ hx => .lift fun e he => ?_
  have he : Fits d₁ e := hx.snd.of_render he
  refine .bind Silently.valueType.lowers fun _ d₂ g _ => .rvalue ?_
  exact fun n hn => (g.fits he) n (mem_bitCountExpr_locals hn)

theorem byteSwap (h : Allowed strict m γ (.expr operand)) :
    Lowers strict m false γ d (byteSwap m w operand ty) := by
  refine .bind (.unsignedOperand hw h) fun x d₁ _ hx => ?_
  refine .bind Silently.valueType.lowers fun _ d₂ g _ => ?_
  have hv : Fits d₂ x.2 := (g.fits hx).snd
  split
  · exact .cast hv
  · refine .lift fun e he => .rvalue ?_
    have hargs : Fits d₂ [e] := (hv.of_render he).cons .nil
    exact hargs.expr_list

theorem bitReverse (h : Allowed strict m γ (.expr operand)) :
    Lowers strict m false γ d (bitReverse m w operand ty) := by
  refine .bind (.unsignedOperand hw h) fun x d₁ _ hx => ?_
  dsimp only
  refine .bind .zeroValue fun _ _ g₂ hzero => .bind (.copyToLocal hzero) fun result d₃ g₃ hresult => ?_
  have hv : Fits d₃ x.2 := (g₃.fits (g₂.fits hx)).snd
  refine .beginIndexLoop fun index d₄ h₄ hindex => .lift_bind fun r hr => .lift_bind fun e he => ?_
  have hr : Fits d₄ r := (h₄.fits hresult).of_render hr
  have he : Fits d₄ e := (h₄.fits hv).of_render he
  -- one bit is shifted into the result and out of the operand
  have hin : Fits d₄ (shiftedIn x.2.ty r e) := by
    intro n hn
    simp only [Mentions.locals, shiftedIn, C.Expr.locals, C.Expr.nat, List.append_nil,
      List.mem_append] at hn
    exact hn.elim (hr n) (he n)
  have hout : Fits d₄ (shiftedOut x.2.ty e) := by
    intro n hn
    simp only [Mentions.locals, shiftedOut, C.Expr.locals, C.Expr.nat, List.append_nil] at hn
    exact he n hn
  refine .bind (h₄.run (.rvalue hin)) ?_
  rintro a d₅ ⟨h₅, g₅, ha⟩
  refine .bind (h₅.run (.assign (h₅.fits hresult) ha)) ?_
  rintro _ d₆ ⟨h₆, g₆, -⟩
  refine .bind (h₆.run (.rvalue (g₆.fits (g₅.fits hout)))) ?_
  rintro a d₇ ⟨h₇, g₇, ha⟩
  refine .bind (h₇.run (.assign (h₇.fits hv) ha)) ?_
  rintro _ d₈ ⟨h₈, g₈, -⟩
  have hindex := g₈.fits (g₇.fits (g₆.fits (g₅.fits hindex)))
  refine .bind (.endIndexLoop h₈ hindex) fun _ d₉ (g₉ : Grows strict m false γ d₃ d₉) => ?_
  refine .bind (g₉.andThen Silently.valueType.lowers) ?_
  rintro _ d₁₀ ⟨g₁₀, -⟩
  have hresult := g₁₀.fits hresult
  split
  · exact .pure ⟨g₁₀, hresult⟩
  · exact g₁₀.andThen (.cast hresult)

theorem funnelShift {isLeft : Bool} {lhs rhs shift : ExprId} (h₁ : Allowed strict m γ (.expr lhs))
    (h₂ : Allowed strict m γ (.expr rhs)) (h₃ : Allowed strict m γ (.expr shift)) :
    Lowers strict m false γ d (Lowering.funnelShift m w isLeft lhs rhs shift ty) := by
  refine .bind (.unsignedOperand hw h₁) fun x d₁ _ hx => ?_
  refine .bind (.unsignedOperand hw h₂) fun y d₂ g₂ hy => ?_
  refine .bind (.unsignedOperand hw h₃) fun z d₃ g₃ hz => .bind .integer fun modulus d₄ g₄ hmodulus => ?_
  refine .bind (.assignWith (g₄.fits hz).snd hmodulus) fun _ d₅ g₅ _ => ?_
  refine .lift fun a ha => .lift fun b hb => .lift fun s hs => ?_
  have ha : Fits d₅ a := (g₅.fits (g₄.fits (g₃.fits (g₂.fits hx)))).snd.of_render ha
  have hb : Fits d₅ b := (g₅.fits (g₄.fits (g₃.fits hy))).snd.of_render hb
  have hs : Fits d₅ s := (g₅.fits (g₄.fits hz)).snd.of_render hs
  refine .bind Silently.valueType.lowers fun _ d₆ g₆ _ => .rvalue fun n hn => ?_
  obtain hn | hn | hn := mem_funnelShiftExpr_locals hn
  · exact (g₆.fits ha) n hn
  · exact (g₆.fits hb) n hn
  · exact (g₆.fits hs) n hn

/-! ### Mathematics -/

theorem mathCall (h : ∀ e ∈ args, Allowed strict m γ (.expr e)) :
    Lowers strict m false γ d (mathCall m w fn args ty) := by
  unfold Lowering.mathCall
  split
  · exact .throw
  · refine .lift fun firstTy _ => ?_
    split
    · refine .bind (.intrinsicValues hw h) fun vs d₁ _ hvs => ?_
      split
      · exact .bind (Silently.addInclude (by decide)).lowers fun _ _ g _ => .libraryCall (g.fits hvs)
      · refine .bind (.mapM fun v hv d₂ g₂ => ?_) fun vs d₂ _ hvs => ?_
        · have hv := g₂.fits (hvs.of_mem hv)
          split
          · exact .pure hv
          · exact .copyToLocal hv
        · refine .bind Silently.valueType.lowers fun _ d₃ g₃ _ => ?_
          refine .lift fun operands hoperands => .lift fun e he => .rvalue fun n hn => ?_
          obtain ⟨e', he', hn⟩ := mem_integerMathExpr_locals he hn
          obtain ⟨v, hv, hrender⟩ := exists_of_operandsOf hoperands he'
          exact ((g₃.fits hvs).of_mem hv).of_render hrender n hn
    · exact .throw

/-! ### Dispatch -/

theorem optionalOperand {optional : ExprId} (h : Allowed strict m γ (.expr optional)) :
    Lowers strict m false γ d (optionalOperand m w optional) := by
  refine .lift fun _ _ => .bind (hw.expr h .none) fun _ _ _ hv => ?_
  exact .bind (.materialize hv) fun _ _ _ hv => .pure (.prod (.of_nil rfl) hv)

theorem intrinsicCall (h : ∀ e ∈ args, Allowed strict m γ (.expr e)) (hdest : Fits d dest) :
    Lowers strict m false γ d (intrinsicCall m w intrinsic args ty dest) := by
  -- the part of a struct that the only argument is
  have hmember {index : Nat} : Lowers strict m false γ d (do
      let value ← Lowering.intrinsicValue m w intrinsic args
      let value ← Emit.materialize value
      Emit.member value index) :=
    .bind (.intrinsicValue hw h) fun _ _ _ hv => .bind (.materialize hv) fun _ _ _ hv => .member hv
  have hone {f : ExprId → Emit Value} (hf : ∀ a ∈ args, Lowers strict m false γ d (f a)) :
      Lowers strict m false γ d (liftM (oneArgument intrinsic args) >>= f) :=
    .lift fun a ha => hf a (mem_of_oneArgument ha)
  unfold Lowering.intrinsicCall
  cases intrinsic with
  | unaryOperator op => exact hone fun a ha => .unary hw (h a ha)
  | binaryOperator op =>
    refine .lift fun x hx => ?_
    obtain ⟨h₁, h₂⟩ := mem_of_twoArguments hx
    exact .binary hw (h _ h₁) (h _ h₂) hdest
  | strBeginPtr | sliceBeginPtr | rangeBegin => exact hmember
  | strEndPtr | sliceEndPtr | rangeEnd => exact hmember
  | strSize | sliceSize | rangeSize =>
    exact .bind (.intrinsicValue hw h) fun _ _ _ hv => .memberDistance hv
  | strFromPtrs | sliceFromPtrs | rangeMake =>
    refine .bind (.intrinsicValues hw h) fun _ _ _ hvs => ?_
    exact .bind Silently.valueType.lowers fun _ _ g _ => .structLiteral (g.fits hvs)
  | arrayBeginPtr =>
    refine .bind (.intrinsicValue hw h) fun _ _ _ hv => ?_
    exact .bind (.materialize hv) fun _ _ _ hv => .arrayData hv
  | arrayEndPtr =>
    refine .bind (.intrinsicValue hw h) fun _ _ _ hv => .bind (.materialize hv) fun array _ _ harray => ?_
    refine .bind (.arrayData harray) fun first _ _ hfirst => ?_
    refine .bind Silently.arrayShape.lowers fun _ _ g₁ _ => .bind Silently.sizeType.lowers fun _ _ g₂ _ => ?_
    refine .bind .integer fun size _ g₃ hsize => .lift fun e he => ?_
    exact .rvalue ((g₃.fits (g₂.fits (g₁.fits hfirst))).of_binary hsize he)
  | memcpy | memmove | memset => exact .memoryCall hw h
  | pointerCast | intToPointer | pointerToInt =>
    refine .bind (.intrinsicValue hw h) fun _ _ _ hv => ?_
    exact .bind Silently.valueType.lowers fun _ _ g _ => .cast (g.fits hv)
  | optionalGetValue =>
    refine hone fun a ha => .bind (.optionalOperand hw (h a ha)) fun x _ _ hx => ?_
    exact .bind (.checkHasValue hx.snd) fun _ _ g _ => .optionalValue (g.fits hx).snd
  | isOptionSet =>
    exact hone fun a ha => .bind (.optionalOperand hw (h a ha)) fun _ _ _ hx => .optionalHasValue hx.snd
  | panic =>
    refine .bind (.intrinsicValue hw h) fun _ _ _ hv => ?_
    exact .bind (.panicWith hv) fun _ _ _ _ => .pure (.of_nil rfl)
  | isComptime => exact .bind Silently.valueType.lowers fun _ _ _ _ => .integer
  | trivialSwap =>
    refine .lift fun x hx => ?_
    obtain ⟨h₁, h₂⟩ := mem_of_twoArguments hx
    exact .bind (.trivialSwap hw (h _ h₁) (h _ h₂)) fun _ _ _ _ => .pure (.of_nil rfl)
  | clz | ctz | popcount => exact hone fun a ha => .bitCount hw (h a ha)
  | byteswap => exact hone fun a ha => .byteSwap hw (h a ha)
  | bitreverse => exact hone fun a ha => .bitReverse hw (h a ha)
  | fshl | fshr =>
    refine .lift fun x hx => ?_
    obtain ⟨h₁, h₂, h₃⟩ := mem_of_threeArguments hx
    exact .funnelShift hw (h _ h₁) (h _ h₂) (h _ h₃)
  | math fn => exact .mathCall hw h
  | compileTime fn => exact .throw

end

end Lowers

end CBackend
