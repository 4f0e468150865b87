import CBackend.Lowering.Operators
import CBackend.Proofs.Lowering.Scopes

/-!
# Operands and operators in growing drafts

What lowering writes for operands, built-in operators and conversions: statements that mention only
values that may be used, and what the walk writes for the expressions below.
-/

namespace CBackend

open IR Flow Emission Lowering
open C (CType)

namespace Lowers

variable {strict : Bool} {m : Module} {bal : Bool} {γ : Exits} {d d₁ : Draft} {v : Value}
  {dest : Option Value} {ty : Ty} {op : BinaryOp} {inner lhs rhs : ExprId}

/-! ### Operands -/

theorem resultStorage (hdest : Fits d dest) :
    Lowers strict m bal γ d (resultStorage m dest ty) := by
  unfold Lowering.resultStorage
  split
  · exact .pure hdest
  · exact .bind Silently.valueType.lowers fun _ _ _ _ => .declareLocal

theorem completeTypeOf {id : ExprId} : Lowers strict m bal γ d (completeTypeOf m id) :=
  .lift fun _ _ => .discard Silently.valueType.lowers

theorem stabilize (hv : Fits d v) : Lowers strict m bal γ d (stabilize v) := by
  unfold Lowering.stabilize
  split
  · exact .pure hv
  · exact .copyToLocal hv

theorem stabilizeUnless {isSafe : Bool} (hv : Fits d v) :
    Lowers strict m bal γ d (stabilizeUnless isSafe v) := by
  unfold Lowering.stabilizeUnless
  split
  · exact .pure hv
  · exact .stabilize hv

theorem memberValue {index : Nat} (hv : Fits d v) :
    Lowers strict m bal γ d (memberValue m v ty index) := by
  refine .bind (.member hv) fun part _ _ hpart => .lift fun _ _ => ?_
  split
  · exact .dereference hpart
  · exact .pure hpart

theorem optionalHasValue (hv : Fits d v) :
    Lowers strict m bal γ d (optionalHasValue v ty) := by
  unfold Lowering.optionalHasValue
  split
  · refine .bind (.rvalue (.of_nil rfl)) fun null _ g₁ hnull => .lift fun e he => ?_
    have he := (g₁.fits hv).of_binary hnull he
    exact .bind Silently.boolType.lowers fun _ _ g₂ _ => .rvalue (g₂.fits he)
  · exact .member hv

theorem optionalValue (hv : Fits d v) : Lowers strict m bal γ d (optionalValue v ty) := by
  unfold Lowering.optionalValue
  split
  · exact .dereference hv
  · split
    · exact .pure hv
    · exact .member hv

theorem setHasValue {hasValue : Bool} (hv : Fits d v) :
    Lowers strict m bal γ d (setHasValue v hasValue) := by
  refine .bind (.member hv) fun flag _ _ hflag => .bind Silently.boolType.lowers fun _ _ g₂ _ => ?_
  exact .bind .integer fun n _ g₃ hn => .assign (g₃.fits (g₂.fits hflag)) hn

theorem checkHasValue (hv : Fits d v) :
    Lowers strict m bal γ d (checkHasValue m v ty) := by
  refine .bind (.optionalHasValue hv) fun hasValue _ _ hhasValue => ?_
  refine .beginIfNot hhasValue fun d₁ s₁ => ?_
  refine .bind (s₁.run Silently.stringValue.lowers) fun message d₂ ⟨s₂, _, hmessage⟩ => ?_
  refine .bind (s₂.run (.panicWith hmessage)) fun _ d₃ ⟨s₃, _⟩ => ?_
  exact (Ensures.endIf s₃).mono fun _ _ s => ⟨s.grows, .of_nil rfl⟩

section

variable {w : Walk} (hw : w.Sound strict m)

include hw

theorem place {id later : ExprId} (h : Allowed strict m γ (.expr id)) :
    Lowers strict m false γ d (place m w id later) := by
  refine .bind (hw.expr h .none) fun _ _ _ hv => .bind (.materialize hv) fun v _ _ hv => ?_
  split
  · exact .pure hv
  · refine .lift fun _ _ => ?_
    split
    · exact .pure hv
    · exact .bind (.addressOf hv) fun _ _ _ haddress => .dereference haddress

theorem operandPair {first second : ExprId} (h₁ : Allowed strict m γ (.expr first))
    (h₂ : Allowed strict m γ (.expr second)) :
    Lowers strict m false γ d (operandPair m w first second) := by
  refine .bind .completeTypeOf fun _ _ _ _ => .bind (.place hw h₁) fun v _ _ hv => ?_
  refine .bind (hw.expr h₂ .none) fun _ _ g₂ hv' => .bind (.materialize hv') fun v' _ g₃ hv' => ?_
  exact .pure ((g₃.fits (g₂.fits hv)).prod hv')

/-! ### Operators -/

theorem unary {op : UnaryOp} {operand : ExprId} (h : Allowed strict m γ (.expr operand)) :
    Lowers strict m false γ d (unary m w op operand ty) := by
  refine .bind (hw.expr h .none) fun v d₁ _ hv => ?_
  split
  · exact .materialize hv
  · exact .bind Silently.valueType.lowers fun _ _ g _ => .unaryOperation (g.fits hv)
  · exact .bind Silently.valueType.lowers fun _ _ g _ => .unaryOperation (g.fits hv)
  · exact .bind Silently.valueType.lowers fun _ _ g _ => .unaryOperation (g.fits hv)
  · exact .bind (.discard Silently.valueType.lowers) fun _ _ g _ => .dereference (g.fits hv)
  · exact .addressOf hv
  · exact .bind (.increment hv) fun _ _ g _ => .pure (g.fits hv)
  · exact .bind (.increment hv) fun _ _ g _ => .pure (g.fits hv)
  · exact .pure hv
  · exact .pure hv

theorem shortCircuit {isAnd : Bool} (h₁ : Allowed strict m γ (.expr lhs)) (h₂ : Allowed strict m γ (.expr rhs)) :
    Lowers strict m false γ d (shortCircuit w isAnd lhs rhs) := by
  refine .bind (hw.expr h₁ .none) fun _ _ _ hv => .bind (.copyToLocal hv) fun result d₁ _ hresult => ?_
  -- the right operand in a branch of its own
  have hbranch (d₂ : Draft) (s₂ : Since m (Open strict m γ (Conditional strict m γ d₁ true)) d₁ d₂) :
      Ensures d₂ (do
        let mark ← Emit.scopeMark
        let rhs ← w.expr rhs none
        Emit.assign result rhs
        w.closeScope mark
        Emit.endIf
        Pure.pure result) fun a d' => Grows strict m false γ d₁ d' ∧ Fits d' a := by
    refine .getFunction_bind ?_
    have hexpr : Lowers strict m false γ d₂ (w.expr rhs none) := hw.expr h₂ .none
    refine .bind (hexpr s₂.made) fun v d₃ ⟨g₃, hv⟩ => ?_
    have hassign : Lowers strict m false γ d₃ (Emit.assign result v) :=
      .assign (g₃.fits (s₂.fits hresult)) hv
    refine .bind (g₃.andThen hassign) fun _ d₄ ⟨g₄, _⟩ => ?_
    refine .bind (hw.closeScope h₂.admits g₄) fun _ d₅ ⟨g₅, _⟩ => ?_
    exact .bind (.endIf (s₂.grow g₅)) fun _ d₆ s₆ => .pure ⟨s₆.grows, s₆.fits hresult⟩
  dsimp only
  split
  · exact .beginIf hresult fun d₂ s₂ => hbranch d₂ s₂
  · exact .beginIfNot hresult fun d₂ s₂ => hbranch d₂ s₂

theorem compoundAssign (h₁ : Allowed strict m γ (.expr lhs)) (h₂ : Allowed strict m γ (.expr rhs)) :
    Lowers strict m false γ d (compoundAssign m w op lhs rhs) := by
  refine .bind (hw.expr h₂ .none) fun _ _ _ hv => .lift fun _ _ => ?_
  refine .bind (.stabilizeUnless hv) fun v _ _ hv => .bind (hw.expr h₁ .none) fun l _ g hl => ?_
  split
  · exact .bind (.assignWith hl (g.fits hv)) fun _ _ g' _ => .pure (g'.fits hl)
  · exact .throw

theorem plainBinary (h₁ : Allowed strict m γ (.expr lhs)) (h₂ : Allowed strict m γ (.expr rhs)) :
    Lowers strict m false γ d (plainBinary m w op lhs rhs ty) := by
  unfold Lowering.plainBinary
  split
  · refine .bind (hw.expr h₁ .none) fun _ _ _ hv => .lift fun _ _ => ?_
    refine .bind (.stabilizeUnless hv) fun v _ _ hv => .bind (hw.expr h₂ .none) fun r _ g₁ hr => ?_
    refine .bind Silently.valueType.lowers fun _ _ g₂ _ => ?_
    exact .binaryOperation (g₂.fits (g₁.fits hv)) (g₂.fits hr)
  · exact .throw

theorem binary (h₁ : Allowed strict m γ (.expr lhs)) (h₂ : Allowed strict m γ (.expr rhs)) (hdest : Fits d dest) :
    Lowers strict m false γ d (binary m w op lhs rhs ty dest) := by
  unfold Lowering.binary
  split
  · exact .bind (.discard (hw.expr h₁ .none)) fun _ _ g _ => hw.expr h₂ (g.fits hdest)
  · exact .shortCircuit hw h₁ h₂
  · exact .shortCircuit hw h₁ h₂
  · split
    · exact .compoundAssign hw h₁ h₂
    · exact .plainBinary hw h₁ h₂

end

/-! ### Conversions -/

theorem arrayBounds {size : Nat} (hv : Fits d v) :
    Lowers strict m bal γ d (arrayBounds v size) := by
  refine .bind (.arrayData hv) fun first _ _ hfirst => .bind Silently.sizeType.lowers fun _ _ g₂ _ => ?_
  refine .bind .integer fun count _ g₃ hcount => .lift fun e he => ?_
  have hfirst := g₃.fits (g₂.fits hfirst)
  refine .bind (.rvalue (hfirst.of_binary hcount he)) fun past _ g₄ hpast => ?_
  exact .pure ((g₄.fits hfirst).prod hpast)

section

variable {w : Walk} (hw : w.Sound strict m)

include hw

theorem castTo (h : Allowed strict m γ (.expr inner)) :
    Lowers strict m false γ d (castTo m w inner ty) := by
  refine .lift fun source _ => .bind (hw.expr h .none) fun v _ _ hv => ?_
  refine .bind Silently.valueType.lowers fun target d₂ g₂ _ => ?_
  have hv := g₂.fits hv
  split
  · refine .bind (.materialize hv) fun v _ _ hv => .bind (.arrayBounds hv) fun bounds _ _ hbounds => ?_
    exact .structLiteral (hbounds.fst.cons (hbounds.snd.cons .nil))
  · split
    · exact .pure hv
    · split
      · refine .bind (.materialize hv) fun v _ _ hv => .bind (.member hv) fun first _ g₄ hfirst => ?_
        refine .bind (.member (g₄.fits hv)) fun past _ g₅ hpast => ?_
        exact .structLiteral ((g₅.fits hfirst).cons (hpast.cons .nil))
      · exact .cast hv

theorem bitCast (h : Allowed strict m γ (.expr inner)) (hdest : Fits d dest) :
    Lowers strict m false γ d (bitCast m w inner ty dest) := by
  refine .bind (hw.expr h .none) fun v _ g₁ hv => .bind Silently.valueType.lowers fun cType d₂ g₂ _ => ?_
  have hv := g₂.fits hv
  have hdest := g₂.fits (g₁.fits hdest)
  split
  · exact .cast hv
  · refine .bind (.materialize hv) fun v d₃ g₃ hv => ?_
    have hcopy (result : Value) (d : Draft) (hresult : Fits d result) (hv : Fits d v) :
        Lowers strict m false γ d (do
          Emit.addInclude "string.h"
          let target ← result.address
          let source ← v.address
          Emit.statement (.call (.symbol "memcpy") [target, source, .sizeOf cType])
          Pure.pure result) := by
      refine .bind (Silently.addInclude (by decide)).lowers fun _ d₅ g₅ _ => .lift fun a ha => .lift fun b hb => ?_
      have hargs : Fits d₅ [a, b, .sizeOf cType] :=
        .cons ((g₅.fits hresult).of_address ha) (.cons ((g₅.fits hv).of_address hb) (.of_nil rfl))
      refine .bind (.statement (e := .call (.symbol "memcpy") _) hargs.expr_list) fun _ _ g₆ _ => ?_
      exact .pure (g₆.fits (g₅.fits hresult))
    dsimp only
    split
    · exact .bind (.pure (g₃.fits hdest)) fun result _ g₄ hresult => hcopy result _ hresult (g₄.fits hv)
    · exact .bind .declareLocal fun result _ g₄ hresult => hcopy result _ hresult (g₄.fits hv)

theorem optionalCast (h : Allowed strict m γ (.expr inner)) (hdest : Fits d dest) :
    Lowers strict m false γ d (optionalCast m w inner ty dest) := by
  unfold Lowering.optionalCast
  split
  · exact .bind (hw.expr h .none) fun _ _ _ hv => .addressOf hv
  · split
    · exact hw.expr h hdest
    · refine .bind (.resultStorage hdest) fun result _ _ hresult => ?_
      refine .bind (.member hresult) fun payload _ g₂ hpayload => ?_
      refine .bind (.discard (hw.expr h hpayload.some)) fun _ _ g₃ _ => ?_
      have hresult := g₃.fits (g₂.fits hresult)
      exact .bind (.setHasValue hresult) fun _ _ g₄ _ => .pure (g₄.fits hresult)

end

end Lowers

end CBackend
