import CBackend.Lowering.Calls
import CBackend.Proofs.Lowering.Plans

/-!
# Construction, parts and calls in growing drafts

What lowering writes for literals of compound values, for members and elements, and for calls. An element
that is moved out of an array temporary leaves a cleanup behind, which begins to wait.
-/

namespace CBackend

open IR Flow Emission Lowering
open C (CType)

namespace Lowers

variable {strict : Bool} {m : Module} {bal : Bool} {γ : Exits} {d d₁ : Draft} {v v' : Value}
  {dest : Option Value} {ty : Ty} {args es : List ExprId} {base : ExprId} {index : Nat} {order : ArgOrder}

section

variable {w : Walk} (hw : w.Sound strict m)

include hw

/-! ### Construction -/

theorem memberInit (hes : ∀ e ∈ es, Allowed strict m γ (.expr e)) (hdest : Fits d dest) :
    Lowers strict m false γ d (memberInit m w es ty dest) := by
  refine .bind (.resultStorage hdest) fun result d₁ _ hresult => ?_
  refine .bind (.forM fun x hx d₂ g₂ => ?_) fun _ _ g _ => .pure (g.fits hresult)
  have hx := hes x.1 (List.fst_mem_of_mem_zipIdx hx)
  refine .bind (.member (g₂.fits hresult)) fun part d₃ g₃ hpart => .lift fun _ _ => ?_
  split
  · refine .bind (hw.expr hx .none) fun _ _ g₄ hv => .bind (.addressOf hv) fun address _ g₅ haddress => ?_
    exact .assign (g₅.fits (g₄.fits hpart)) haddress
  · exact .discard (hw.expr hx hpart.some)

theorem arrayValueInit {value plan : ExprId} (h : Allowed strict m γ (.expr value))
    (hplan : Allowed strict m (γ.inElements strict) (.expr plan)) (hdest : Fits d dest) :
    Lowers strict m false γ d (arrayValueInit m w value plan ty dest) := by
  refine .bind (.resultStorage hdest) fun result d₁ _ hresult => ?_
  refine .bind (hw.expr h .none) fun _ d₂ g₂ hv => .bind (.materialize hv) fun v d₃ g₃ hv => ?_
  refine .bind Silently.arrayShape.lowers fun shape d₄ g₄ _ => ?_
  have hresult := g₄.fits (g₃.fits (g₂.fits hresult))
  have hv := g₄.fits hv
  refine .beginIndexLoop fun index d₅ h₅ hindex => ?_
  refine .bind (h₅.run (.element (h₅.fits hresult) hindex)) fun elem d₆ ⟨h₆, g₆, helem⟩ => ?_
  refine .bind (h₆.run (hw.withBound hplan ((h₆.fits hv).cons .nil) helem.some))
    fun _ d₇ ⟨h₇, g₇, _⟩ => ?_
  have hindex := g₇.fits (g₆.fits hindex)
  exact .bind (.endIndexLoop h₇ hindex) fun _ _ g => .pure ⟨g, g.fits hresult⟩

theorem aggregateDefault (hes : ∀ e ∈ es, Allowed strict m γ (.expr e)) (hdest : Fits d dest) :
    Lowers strict m bal γ d (aggregateDefault m w es ty dest) := by
  refine .bind (.resultStorage hdest) fun result d₁ _ hresult => ?_
  refine .bind (.forM fun x hx d₂ g₂ => ?_) fun _ _ g _ => .pure (g.fits hresult)
  have hx := hes x.1 (List.fst_mem_of_mem_zipIdx hx)
  refine .bind (.member (g₂.fits hresult)) fun part d₃ g₃ hpart => ?_
  exact .discard (hw.inScope hx hpart.some)

theorem arrayDefault {plan : ExprId} (hplan : Allowed strict m (γ.inElements strict) (.expr plan))
    (hdest : Fits d dest) : Lowers strict m bal γ d (arrayDefault m w plan ty dest) := by
  refine .bind (.resultStorage hdest) fun result d₁ _ hresult => ?_
  refine .bind Silently.arrayShape.lowers fun shape d₂ g₂ _ => ?_
  have hresult := g₂.fits hresult
  refine .beginIndexLoop fun index d₃ h₃ hindex => ?_
  refine .bind (h₃.run (.element (h₃.fits hresult) hindex)) fun elem d₄ ⟨h₄, g₄, helem⟩ => ?_
  refine .bind (h₄.run (.discard (hw.inScope hplan helem.some))) fun _ d₅ ⟨h₅, g₅, _⟩ => ?_
  have hindex := g₅.fits (g₄.fits hindex)
  exact .bind (.endIndexLoop h₅ hindex) fun _ _ g => .pure ⟨g, g.fits hresult⟩

theorem trivialCopy {value : ExprId} (h : Allowed strict m γ (.expr value)) :
    Lowers strict m false γ d (trivialCopy w value dest) := by
  refine .bind (hw.expr h .none) fun v _ _ hv => ?_
  split
  · exact .pure hv
  · exact .copyToLocal hv

/-! ### Parts -/

theorem memberAccess (h : Allowed strict m γ (.expr base)) :
    Lowers strict m false γ d (memberAccess m w base index) :=
  .lift fun _ _ => .bind .completeTypeOf fun _ _ _ _ => .bind (hw.expr h .none) fun _ _ _ hv =>
    .memberValue hv

theorem subscript {index : ExprId} (h₁ : Allowed strict m γ (.expr base)) (h₂ : Allowed strict m γ (.expr index)) :
    Lowers strict m false γ d (subscript m w base index) := by
  refine .lift fun baseTy _ => .bind (.discard Silently.valueType.lowers) fun _ _ _ _ => ?_
  refine .bind (hw.expr h₁ .none) fun v _ _ hv => ?_
  split
  · exact .bind (hw.expr h₂ .none) fun _ _ g hi => .element (g.fits hv) hi
  · refine .bind (.member hv) fun first _ _ hfirst => ?_
    exact .bind (hw.expr h₂ .none) fun _ _ g hi => .pointerElement (g.fits hfirst) hi
  · exact .bind (hw.expr h₂ .none) fun _ _ g hi => .pointerElement (g.fits hv) hi
  · refine .lift fun _ _ => ?_
    split
    · exact .memberValue hv
    · exact .throw
  · exact .throw

theorem destroyOthers {es : List (Option ExprId)} (hv : Fits d v)
    (hes : ∀ e ∈ es.reduceOption, Allowed strict m γ (.expr e)) :
    Lowers strict m bal γ d (destroyOthers w v index es) := by
  refine .forM fun x hx d₁ g₁ => ?_
  dsimp only
  split
  · exact .pure (.of_nil rfl)
  · split
    · next e he =>
      have hmem : some e ∈ es := he ▸ List.fst_mem_of_mem_zipIdx hx
      refine .bind (.member (g₁.fits hv)) fun part d₂ g₂ hpart => ?_
      exact hw.withBound (hes e (List.reduceOption_mem_iff.2 hmem)) (hpart.cons .nil) .none
    · exact .pure (.of_nil rfl)

theorem rvalueMemberAccess {es : List (Option ExprId)} (h : Allowed strict m γ (.expr base))
    (hes : ∀ e ∈ es.reduceOption, Allowed strict m γ (.expr e)) (hdest : Fits d dest) :
    Lowers strict m false γ d (rvalueMemberAccess m w base index es ty dest) := by
  refine .lift fun baseTy _ => .bind (hw.expr h .none) fun _ d₁ g₁ hv => ?_
  refine .bind (.materialize hv) fun v d₂ g₂ hv => .lift fun _ _ => ?_
  have hothers (result : Value) (d₃ : Draft) (g₃ : Grows strict m false γ d₂ d₃)
      (hresult : Fits d₃ result) : Lowers strict m false γ d₃ (do
        Lowering.destroyOthers w v index es
        Pure.pure result) :=
    .bind (.destroyOthers hw (g₃.fits hv) hes) fun _ _ g _ => .pure (g.fits hresult)
  dsimp only
  split
  · next e he =>
    have hmem : some e ∈ es := List.mem_of_getElem? (Option.join_eq_some_iff.1 he)
    have he := hes e (List.reduceOption_mem_iff.2 hmem)
    split
    · exact .bind (.memberValue hv) fun result _ g hresult => hothers result _ g hresult
    · refine .bind (.resultStorage (g₂.fits (g₁.fits hdest))) fun result d₃ g₃ hresult => ?_
      refine .bind (.member (g₃.fits hv)) fun part d₄ g₄ hpart => ?_
      refine .bind (hw.withBound he (hpart.cons .nil) (g₄.fits hresult).some) fun _ d₅ g₅ _ => ?_
      exact .bind (.pure (g₅.fits (g₄.fits hresult))) fun result d₆ g₆ hresult =>
        hothers result d₆ (((g₃.trans g₄).trans g₅).trans g₆) hresult
  · exact .bind (.memberValue hv) fun result _ g hresult => hothers result _ g hresult

theorem rvalueTupleSubscript {es : List (Option ExprId)} (h : Allowed strict m γ (.expr base))
    (hes : ∀ e ∈ es.reduceOption, Allowed strict m γ (.expr e)) (hdest : Fits d dest) :
    Lowers strict m false γ d (rvalueTupleSubscript m w base index es ty dest) := by
  unfold Lowering.rvalueTupleSubscript
  split
  · exact .rvalueMemberAccess hw h hes hdest
  · exact .throw

theorem rvalueArraySubscript {index : ExprId} {cleanup : Cleanup} (h₁ : Allowed strict m γ (.expr base))
    (h₂ : Allowed strict m γ (.expr index)) (hc : Declared m cleanup)
    (hreached : ∀ call ∈ cleanup.call?, m.Reached (.expr call)) :
    Lowers strict m false γ d (rvalueArraySubscript w base index cleanup) := by
  refine .bind (hw.expr h₁ .none) fun _ _ _ hv => .bind (.materialize hv) fun array _ _ harray => ?_
  refine .bind (hw.expr h₂ .none) fun i _ g₁ hi => .bind (.element (g₁.fits harray) hi) fun _ _ g₂ he => ?_
  refine .bind (.addressOf he) fun _ _ g₃ ha => .bind (.dereference ha) fun elem _ g₄ helem => ?_
  refine .bind (.addressOf helem) fun pointer _ g₅ hpointer => ?_
  have harray := g₅.fits (g₄.fits (g₃.fits (g₂.fits (g₁.fits harray))))
  refine .bind (.addCleanup hc harray hpointer.some hreached) fun _ _ g₆ _ => ?_
  exact .pure (g₆.fits (g₅.fits helem))

theorem tupleSubscript (hes : ∀ e ∈ es, Allowed strict m γ (.expr e)) (hdest : Fits d dest) :
    Lowers strict m false γ d (tupleSubscript w es index dest) := by
  refine .bind (.mapM fun x hx d₁ g₁ => ?_) fun results d₁ _ hresults => .pure ?_
  · have hx := hes x.1 (List.fst_mem_of_mem_zipIdx hx)
    dsimp only
    split
    · exact hw.expr hx (g₁.fits hdest)
    · exact hw.expr hx .none
  · cases hget : results[index]? with
    | none => exact .of_nil rfl
    | some v => exact hresults.of_mem (List.mem_of_getElem? hget)

theorem optionalExtract {optional : ExprId} {plan : Option ExprId}
    (h : Allowed strict m γ (.expr optional)) (hplan : ∀ e ∈ plan, Allowed strict m γ (.expr e))
    (hdest : Fits d dest) :
    Lowers strict m false γ d (optionalExtract m w optional plan ty dest) := by
  refine .lift fun optionalTy _ => .bind (hw.expr h .none) fun _ d₁ g₁ hv => ?_
  refine .bind (.materialize hv) fun v d₂ g₂ hv => .bind (.checkHasValue hv) fun _ d₃ g₃ _ => ?_
  refine .bind (.optionalValue (g₃.fits hv)) fun payload d₄ g₄ hpayload => ?_
  have hdest := g₄.fits (g₃.fits (g₂.fits (g₁.fits hdest)))
  split
  · next e =>
    refine .bind (.resultStorage hdest) fun result d₅ g₅ hresult => ?_
    refine .bind (hw.withBound (hplan e rfl) ((g₅.fits hpayload).cons .nil) hresult.some)
      fun _ _ g₆ _ => ?_
    exact .pure (g₆.fits hresult)
  · exact .pure hpayload

/-! ### Calls -/

theorem argument {passing : ParamPassing} {arg : ExprId} {isSafe : Bool}
    (h : Allowed strict m γ (.expr arg)) :
    Lowers strict m false γ d (argument m w passing arg isSafe) := by
  unfold Lowering.argument
  split
  · exact .bind (.discard (hw.expr h .none)) fun _ _ _ _ => .pure .none
  · refine .bind (hw.expr h .none) fun _ _ _ hv => .bind (.stabilizeUnless hv) fun v _ _ hv => ?_
    exact .lift fun _ he => .pure (hv.of_renderParen he).some
  · refine .lift fun _ _ => .bind Silently.valueType.lowers fun _ _ _ _ => ?_
    refine .bind .declareLocal fun temp _ _ htemp => .bind (.discard (hw.expr h htemp.some)) fun _ _ g _ => ?_
    exact .lift fun _ he => .pure ((g.fits htemp).of_address he).some
  · refine .bind (hw.expr h .none) fun v _ _ hv => .bind (.addressOf hv) fun address _ _ haddress => ?_
    dsimp only
    split
    · refine .bind (.pure haddress) fun address _ _ haddress => ?_
      exact .lift fun _ he => .pure (haddress.of_renderParen he).some
    · refine .bind (.copyToLocal haddress) fun address _ _ haddress => ?_
      exact .lift fun _ he => .pure (haddress.of_renderParen he).some

theorem argumentsInOrder {params : List ParamPassing} {args : List (ExprId × Nat)}
    (hargs : ∀ arg ∈ args, Allowed strict m γ (.expr arg.1)) :
    Lowers strict m false γ d (argumentsInOrder m w params args) := by
  induction args generalizing d with
  | nil => exact .pure .nil
  | cons arg args ih =>
    refine .lift fun _ _ => .lift fun _ _ => ?_
    refine .bind (.argument hw (hargs arg List.mem_cons_self)) fun passed _ _ hpassed => ?_
    refine .bind (ih fun arg' h => hargs arg' (List.mem_cons_of_mem _ h)) fun rest _ g hrest => ?_
    exact .pure ((g.fits hpassed).cons hrest)

theorem arguments {params : List ParamPassing} (hargs : ∀ arg ∈ args, Allowed strict m γ (.expr arg)) :
    Lowers strict m false γ d (arguments m w params args order) := by
  unfold Lowering.arguments
  split
  · refine .bind (.argumentsInOrder hw fun x hx => hargs x.1 (List.fst_mem_of_mem_zipIdx hx))
      fun passed _ _ hpassed => .pure (.list fun e he => ?_)
    exact hpassed.of_mem (a := some e) (by simpa using he)
  · refine .bind (.argumentsInOrder hw fun x hx =>
      hargs x.1 (List.fst_mem_of_mem_zipIdx (List.mem_reverse.1 hx)))
      fun passed _ _ hpassed => .pure (.list fun e he => ?_)
    exact hpassed.of_mem (a := some e) (by simpa using he)

theorem callWith {callee : C.Expr} {c : Convention} (hcallee : Fits d callee)
    (hargs : ∀ arg ∈ args, Allowed strict m γ (.expr arg)) (hdest : Fits d dest) :
    Lowers strict m false γ d (callWith m w callee c ty args order dest) := by
  refine .bind (.arguments hw hargs) fun passed d₁ g₁ hpassed => ?_
  have hcallee := g₁.fits hcallee
  have hdest := g₁.fits hdest
  have hcall {d : Draft} {es : List C.Expr} (hcallee : Fits d callee) (hes : Fits d es) :
      Fits d (C.Expr.call callee es) :=
    fun n hn => (List.mem_append.1 hn).elim (hcallee n) (hes.expr_list n)
  split
  · refine .bind (.resultStorage hdest) fun storage d₂ g₂ hstorage => .lift fun address haddress => ?_
    have haddress := hstorage.of_address haddress
    refine .bind (.statement (hcall (g₂.fits hcallee) (haddress.cons (g₂.fits hpassed)))) fun _ _ g₃ _ => ?_
    exact .pure (g₃.fits hstorage)
  · refine .bind Silently.lowerType.lowers fun _ _ g₂ _ => ?_
    exact .dereferenceText (hcall (g₂.fits hcallee) (g₂.fits hpassed))
  · refine .bind Silently.valueType.lowers fun _ _ g₂ _ => ?_
    have hcall := hcall (g₂.fits hcallee) (g₂.fits hpassed)
    split
    · refine .bind (.rvalue hcall) fun v _ g₃ hv => ?_
      have hdest := g₃.fits (g₂.fits hdest)
      exact .bind (.assign hdest hv) fun _ _ g₄ _ => .pure (g₄.fits hdest : Fits _ _)
    · exact .declareWith hcall
  · exact .bind (.statement (hcall hcallee hpassed)) fun _ _ _ _ => .pure (.of_nil rfl)

theorem directCall {func : FuncId} {f : Function} (h : m.Reached (.func func))
    (hargs : ∀ arg ∈ args, Allowed strict m γ (.expr arg)) (hdest : Fits d dest) :
    Lowers strict m false γ d (directCall m w func f args order dest) := by
  refine .bind (Silently.declareFunction h).lowers fun name _ g hname => .lift fun _ _ => ?_
  exact .callWith hw hname hargs (g.fits hdest)

theorem indirectCall {callee : ExprId} (h : Allowed strict m γ (.expr callee))
    (hargs : ∀ arg ∈ args, Allowed strict m γ (.expr arg)) (hdest : Fits d dest) :
    Lowers strict m false γ d (indirectCall m w callee args dest) := by
  refine .lift fun calleeTy _ => ?_
  split
  · refine .lift fun _ _ => .bind (hw.expr h .none) fun _ _ g₁ hv => .lift fun _ _ => ?_
    refine .bind (.stabilizeUnless hv) fun v _ g₂ hv => .lift fun e he => ?_
    exact .callWith hw (hv.of_renderParen he) hargs (g₂.fits (g₁.fits hdest))
  · exact .throw

end

end Lowers

end CBackend
