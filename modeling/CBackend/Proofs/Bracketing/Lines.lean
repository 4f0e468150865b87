import CBackend.Lowering.Operands
import CBackend.Proofs.Bracketing.Values
import CBackend.Proofs.Lowering.Lines

/-!
# Lines and blocks in frames

What the operations on a draft write, open and close.
-/

namespace CBackend

open IR Flow
open C (CType Precedence)

variable {safe bal : Bool} {m : Module} {v w : Value} {P : Place} {os : List Opening}
  {f f₁ f₂ : FunctionDraft} {l : C.Line} {op : String}

/-! ### Functions -/

theorem endsNoted_push (steps : Array Step) (l : C.Line) :
    endsNoted (steps.push (.line l)).toList = false := by
  rw [Array.toList_push, endsNoted_append]

namespace Framed

/-- A complete step is written. -/
theorem push {s : Step} {t : Bool} (hs : s.isComplete = true)
    (ht : f.Recorded → t = endsNoted (f.steps.toList ++ [s])) :
    Framed bal f { f with steps := f.steps.push s, terminated := t } where
  steps := ⟨[s], Array.toList_push .., .step hs .nil⟩
  indent := rfl
  bindings := rfl
  cleanups := List.suffix_refl _
  balanced _ := rfl
  loop := .refl _
  counter := le_rfl
  returns := rfl
  returnAddress := rfl
  recorded hf := (ht hf).trans (congrArg endsNoted (Array.toList_push ..).symm)

theorem line (hl : l.isComplete = true) :
    Framed bal f { f with steps := f.steps.push (.line l), terminated := false } :=
  .push hl fun _ => (endsNoted_append _ (.line l)).symm

theorem note {n : Note} (hn : n ≠ .ends) : Framed bal f { f with steps := f.steps.push (.note n) } := by
  refine .push rfl fun hf => ?_
  rw [endsNoted_append]
  cases n <;> first | exact hf | exact absurd rfl hn

theorem ends : Framed bal f { f with steps := f.steps.push (.note .ends), terminated := true } :=
  .push rfl fun _ => (endsNoted_append _ (.note .ends)).symm

/-- Something is changed that is not a part of the frame. -/
theorem of_eq {f' : FunctionDraft} (hsteps : f'.steps = f.steps) (hindent : f'.indent = f.indent)
    (hbindings : f'.bindings = f.bindings) (hcleanups : f'.cleanups = f.cleanups)
    (hloop : f'.loop = f.loop) (hcounter : f.counter ≤ f'.counter) (hreturns : f'.returns = f.returns)
    (haddress : f'.returnAddress = f.returnAddress) (hterminated : f'.terminated = f.terminated) :
    Framed bal f f' where
  steps := ⟨[], by rw [hsteps, List.append_nil], .nil⟩
  indent := hindent
  bindings := hbindings
  cleanups := hcleanups ▸ List.suffix_refl _
  balanced _ := hcleanups
  loop := hloop ▸ .refl _
  counter := hcounter
  returns := hreturns
  returnAddress := haddress
  recorded hf := by
    rw [FunctionDraft.Recorded, hsteps, hterminated]
    exact hf

end Framed

/-- The function after a block is closed. -/
def FunctionDraft.closed (f : FunctionDraft) : FunctionDraft :=
  { f with indent := f.indent - 1, steps := f.steps.push (.line .closeBlock), terminated := false }

/-- The function after a block is opened. -/
def FunctionDraft.opened (f : FunctionDraft) : FunctionDraft :=
  { f with steps := f.steps.push (.line .openBlock), terminated := false, indent := f.indent + 1 }

namespace Opens

/-- A block is opened on its own. -/
theorem opened : Opens f f.opened where
  steps := ⟨[], Array.toList_push .., fun _ hC => .block hC .nil⟩
  indent := rfl
  bindings := rfl
  cleanups := rfl
  loop := .refl _
  counter := le_rfl
  returns := rfl
  returnAddress := rfl
  recorded _ := (endsNoted_push ..).symm

/-- A block is opened after a line that needs one. -/
theorem head (hl : l.isHead = true) :
    Opens f { f with steps := f.steps.push (.line l), terminated := false }.opened where
  steps := by
    refine ⟨[.line l], ?_, fun _ hC => .head hl (.block hC .nil)⟩
    simp [FunctionDraft.opened]
  indent := rfl
  bindings := rfl
  cleanups := rfl
  loop := .refl _
  counter := le_rfl
  returns := rfl
  returnAddress := rfl
  recorded _ := (endsNoted_push ..).symm

/-- A block is filled and closed. -/
theorem close (h : Opens f f₁) (h' : Framed bal f₁ f₂) : Framed bal f f₂.closed := by
  obtain ⟨H, hH, hnested⟩ := h.steps
  obtain ⟨L, hL, hL'⟩ := h'.steps
  exact
    { steps := by
        refine ⟨H ++ .line .openBlock :: (L ++ [.line .closeBlock]), ?_, hnested L hL'⟩
        simp [FunctionDraft.closed, hL, hH]
      indent := by rw [FunctionDraft.closed, h'.indent, h.indent, Nat.add_sub_cancel]
      bindings := h'.bindings.trans h.bindings
      cleanups := h.cleanups ▸ h'.cleanups
      balanced := fun hb => (h'.balanced hb).trans h.cleanups
      loop := h.loop.trans h'.loop
      counter := h.counter.trans h'.counter
      returns := h'.returns.trans h.returns
      returnAddress := h'.returnAddress.trans h.returnAddress
      recorded := fun _ => (endsNoted_push ..).symm }

theorem indent_pos (h : Opens f f₁) (h' : Framed bal f₁ f₂) : 0 < f₂.indent := by
  rw [h'.indent, h.indent]
  exact Nat.succ_pos _

end Opens

namespace Steps

/-! ### Lines -/

theorem line (hl : l.isComplete = true) : Stays safe P (Emit.line l) :=
  .modifyFunction fun _ => .line hl

theorem note {n : Note} (hn : n ≠ .ends) : Stays safe P (Emit.note n) :=
  .modifyFunction fun _ => .note hn

/-- The note and the flag are set together. -/
theorem setTerminated : Stays safe P (Emit.setTerminated true) :=
  modifyFunction (g := fun f => { f with steps := f.steps.push (.note .ends), terminated := true })
    fun _ => .ends

theorem exitLine (hl : l.isComplete = true) :
    Stays safe P (Emit.exitLine l) :=
  .bind (.line hl) fun _ _ => .setTerminated

theorem isTerminated : Stays safe P Emit.isTerminated :=
  .getFunction

theorem statement {e : C.Expr} : Stays safe P (Emit.statement e) :=
  .line rfl

theorem freshNumber : Stays safe P Emit.freshNumber := by
  refine fun _ d _ hd hp => .ofRun rfl ⟨fun hs => { hd hs with }, hp.step ?_, trivial⟩
  exact .of_eq rfl rfl rfl rfl rfl (Nat.le_succ _) rfl rfl rfl

/-! ### Values -/

variable {e : C.Expr} {ty : CType}

theorem declareLocal : Stays safe P (Emit.declareLocal ty) (Emit.declareLocal ty) (Value.Placed safe) :=
  .bind .freshNumber fun _ _ => .bind (.line rfl) fun _ _ => .quiet .variableValue

theorem declareWith : Stays safe P (Emit.declareWith ty e) (Emit.declareWith ty e) (Value.Placed safe) :=
  .bind .freshNumber fun _ _ => .bind (.line rfl) fun _ _ => .quiet .variableValue

theorem copyToLocal : Stays safe P (Emit.copyToLocal v) (Emit.copyToLocal v) (Value.Placed safe) :=
  .bind (.lift .renderParen) fun _ _ => .declareWith

theorem materialize : Stays safe P (Emit.materialize v) (Emit.materialize v) (Value.Placed safe) := by
  unfold Emit.materialize
  exact .ite (fun _ => .copyToLocal) fun hv => .pure fun _ => Bool.not_eq_true _ ▸ hv

theorem dereferenceText : Stays safe P (Emit.dereferenceText ty e) (Emit.dereferenceText ty e) (Value.Placed safe) := by
  unfold Emit.dereferenceText
  cases ty.pointee? with
  | some _ => exact .bind .freshNumber fun _ _ => .bind (.line rfl) fun _ _ => .quiet .referenceValue
  | none => exact .bind (.quiet .typeText) fun _ _ => .throw rfl

theorem dereference : Stays safe P (Emit.dereference v) (Emit.dereference v) (Value.Placed safe) :=
  .bind (.lift .renderParen) fun _ _ => .dereferenceText

theorem addressOf : Stays safe P (Emit.addressOf v) := by
  refine .bind .materialize fun v hv => .bind (.quiet .pointerFor) fun _ _ => ?_
  exact .ite (fun _ => .pure trivial) fun _ => .bind (.lift (.address hv)) fun _ _ => .quiet .rvalue

theorem binaryOperation {p : Precedence} (hp : 2 < p.rank) :
    Stays safe P (Emit.binaryOperation v w op p ty) (Emit.binaryOperation v w op p ty) (Value.Placed safe) :=
  .bind (.lift (.binary hp)) fun _ _ => .declareWith

theorem unaryOperation :
    Stays safe P (Emit.unaryOperation v op ty) (Emit.unaryOperation v op ty) (Value.Placed safe) :=
  .bind (.lift .renderParen) fun _ _ => .declareWith

theorem assignWith : Stays safe P (Emit.assignWith v w op) :=
  .bind (.lift (.binary (by decide))) fun _ _ => .statement

theorem assign : Stays safe P (Emit.assign v w) :=
  .assignWith

theorem increment : Stays safe P (Emit.increment v op) :=
  .bind (.lift .renderParen) fun _ _ => .statement

theorem panicWith : Stays safe P (Emit.panicWith v) := by
  refine .bind (.quiet .addInclude) fun _ _ => .bind (.quiet .addInclude) fun _ _ => ?_
  refine .bind .materialize fun _ _ => .bind (.quiet .member) fun _ _ => .bind (.quiet .member) fun _ _ => ?_
  refine .bind (.lift (.binary (by decide))) fun _ _ => .bind (.lift .renderParen) fun _ _ => ?_
  exact .bind .statement fun _ _ => .bind .statement fun _ _ => .exitLine rfl

theorem returnWith {o : Option Value} : Stays safe P (Emit.returnWith o) := by
  cases o with
  | some _ => exact .bind (.lift .render) fun _ _ => .exitLine rfl
  | none => exact .exitLine rfl

theorem unreachable : Stays safe P Emit.unreachable :=
  .exitLine rfl

/-! ### Opening and closing -/

/-- The function is changed in a way that opens something. -/
theorem enter {o : Opening} {g : FunctionDraft → FunctionDraft} (hbal : o.around P.bal = P.bal)
    (hg : ∀ f, o.Enters f (g f)) :
    Steps safe P (Emit.modifyFunction g) (fun _ => ⟨o :: P.openings, P.bal⟩) :=
  fun _ d _ hd hp => .modifyFunction ⟨fun hs => { hd hs with },
    ⟨d.func, _, hbal.symm ▸ hp, hg d.func, .refl _⟩, trivial⟩

/-! ### Blocks -/

theorem openBlock : Steps safe P Emit.openBlock (fun _ => ⟨.block :: P.openings, P.bal⟩) :=
  enter (g := FunctionDraft.opened) rfl fun _ => .block .opened

/-- A line and the block that it needs. -/
theorem openAfter (hl : l.isHead = true) :
    Steps safe P (Emit.line l >>= fun _ => Emit.openBlock) (fun _ => ⟨.block :: P.openings, P.bal⟩) :=
  enter (g := fun f => { f with steps := f.steps.push (.line l), terminated := false }.opened) rfl
    fun _ => .block (.head hl)

theorem openAfter_bind {α : Type} {k : Emit α} {P' : α → Place} (hl : l.isHead = true)
    (hk : Steps safe ⟨.block :: P.openings, P.bal⟩ k P') :
    Steps safe P (Emit.line l >>= fun _ => Emit.openBlock >>= fun _ => k) P' := by
  rw [← bind_assoc]
  exact .bind (openAfter hl) fun _ _ => hk

end Steps

/-- A block is open, so that it can be closed. -/
theorem Safely.closeBlock {d : Draft} (hd : 0 < d.func.indent) :
    Safely safe d Emit.closeBlock fun _ d' => d' = { d with func := d.func.closed } := by
  refine .getFunction_bind ?_
  rw [if_neg hd.ne']
  exact .modifyFunction_bind (.modifyFunction rfl)

namespace Steps

theorem closeBlock : Steps safe ⟨.block :: os, bal⟩ Emit.closeBlock (fun _ => ⟨os, bal⟩) := by
  rintro f₀ d h₀ hd ⟨f₁, f₂, h₁, ⟨ho⟩, h₂⟩
  refine (Safely.closeBlock (ho.indent_pos h₂)).mono ?_
  rintro _ _ rfl
  exact ⟨fun hs => { hd hs with }, h₁.step (ho.close h₂), trivial⟩

theorem endIf : Steps safe ⟨.block :: os, bal⟩ Emit.endIf (fun _ => ⟨os, bal⟩) :=
  .closeBlock

theorem endWhile : Steps safe ⟨.block :: os, bal⟩ Emit.endWhile (fun _ => ⟨os, bal⟩) :=
  .closeBlock

theorem beginIfExpr {e : C.Expr} :
    Steps safe P (Emit.beginIfExpr e) (fun _ => ⟨.block :: P.openings, P.bal⟩) :=
  .openAfter rfl

theorem beginIf : Steps safe P (Emit.beginIf v) (fun _ => ⟨.block :: P.openings, P.bal⟩) :=
  .bind (.lift .render) fun _ _ => .beginIfExpr

theorem beginIfNot :
    Steps safe P (Emit.beginIfNot v) (fun _ => ⟨.block :: P.openings, P.bal⟩) :=
  .bind (.lift .renderParen) fun _ _ => .beginIfExpr

theorem beginIfDistinct (hv : v.Placed safe) (hw : w.Placed safe) :
    Steps safe P (Emit.beginIfDistinct v w) (fun _ => ⟨.block :: P.openings, P.bal⟩) :=
  .bind (.lift (.address hv)) fun _ _ => .bind (.lift (.address hw)) fun _ _ => .beginIfExpr

theorem beginElse :
    Steps safe ⟨.block :: os, bal⟩ Emit.beginElse (fun _ => ⟨.block :: os, bal⟩) :=
  .bind .closeBlock fun _ _ => .openAfter rfl

theorem beginElseIf :
    Steps safe ⟨.block :: os, bal⟩ (Emit.beginElseIf v) (fun _ => ⟨.block :: os, bal⟩) :=
  .bind .closeBlock fun _ _ => .bind (.lift .render) fun _ _ => .openAfter rfl

theorem beginWhileTrue :
    Steps safe P Emit.beginWhileTrue (fun _ => ⟨.block :: P.openings, P.bal⟩) :=
  .openAfter rfl

theorem beginIndexLoop {size : Nat} :
    Steps safe P (Emit.beginIndexLoop size) (fun _ => ⟨.block :: P.openings, P.bal⟩) := by
  refine .bind (.quiet .sizeType) fun _ _ => .bind .declareWith fun _ _ => .bind (.lift .render) fun _ _ => ?_
  exact .openAfter_bind rfl (.pure trivial)

theorem endIndexLoop :
    Steps safe ⟨.block :: os, bal⟩ (Emit.endIndexLoop v) (fun _ => ⟨os, bal⟩) :=
  .bind .increment fun _ _ => .closeBlock

theorem beginReversedIndexLoop {size : Nat} :
    Steps safe P (Emit.beginReversedIndexLoop size) (fun _ => ⟨.block :: P.openings, P.bal⟩) := by
  refine .bind (.quiet .sizeType) fun _ _ => .bind .declareWith fun _ _ => .bind (.lift .render) fun _ _ => ?_
  exact .openAfter_bind rfl (.bind .increment fun _ _ => .pure trivial)

/-! ### Switches -/

theorem beginCase {labels : List C.Expr} :
    Steps safe P (Emit.beginCase labels) (fun _ => ⟨.block :: P.openings, P.bal⟩) :=
  .bind (.forM fun _ _ => .line rfl) fun _ _ => .openBlock

theorem beginDefaultCase :
    Steps safe P Emit.beginDefaultCase (fun _ => ⟨.block :: P.openings, P.bal⟩) :=
  .bind (.line rfl) fun _ _ => .openBlock

theorem endCase : Steps safe ⟨.block :: os, bal⟩ Emit.endCase (fun _ => ⟨os, bal⟩) :=
  .bind .isTerminated fun _ _ => .whenNot (fun _ => .exitLine rfl) .closeBlock

/-- The block of a switch, which hides the loop around it from `break`. -/
theorem beginSwitch :
    Steps safe P (Emit.beginSwitch v) (fun outer => ⟨.switch outer :: P.openings, P.bal⟩) := by
  refine .bind (.lift .render) fun e _ => ?_
  refine fun f₀ d _ hd hp => .ofRun rfl ⟨fun hs => { hd hs with }, ?_, trivial⟩
  have henter := Opening.Enters.switch (Opens.head (f := d.func) (l := .switchOn e) rfl)
  exact ⟨d.func, _, hp, henter, .refl _⟩

theorem endSwitch {outer : Bool} :
    Steps safe ⟨.switch outer :: os, bal⟩ (Emit.endSwitch outer) (fun _ => ⟨os, bal⟩) := by
  rintro f₀ d h₀ hd ⟨f₁, f₂, h₁, hswitch, h₂⟩
  cases hswitch with
  | @switch _ f₂ ho =>
    -- apart from the switch, the loop around is as it was
    have hinner : Framed bal f₂ { d.func with loop.inSwitch := f₁.loop.inSwitch } :=
      { h₂ with
        loop := ⟨h₂.loop.cleanupBase, ho.loop.inSwitch.symm, h₂.loop.continueNeedsLabel,
          h₂.loop.breakLabel, h₂.loop.continueLabel⟩ }
    have hindent := ho.indent_pos hinner
    refine .bind (Safely.closeBlock hindent) ?_
    rintro _ _ rfl
    exact .modifyFunction ⟨fun hs => { hd hs with }, h₁.step (ho.close hinner), trivial⟩

/-! ### Scopes, bound elements and loops -/

theorem scopeMark :
    Steps safe P Emit.scopeMark (fun mark => ⟨.scope mark P.bal :: P.openings, false⟩) :=
  fun _ d _ hd hp => .ofRun rfl ⟨hd, ⟨d.func, d.func, hp, .scope, .refl _⟩, trivial⟩

theorem bindElement :
    Steps safe P (Emit.bindElement v) (fun _ => ⟨.bound :: P.openings, P.bal⟩) :=
  .enter rfl fun _ => .bound

theorem unbindElement :
    Steps safe ⟨.bound :: os, bal⟩ Emit.unbindElement (fun _ => ⟨os, bal⟩) := by
  rintro f₀ d h₀ hd ⟨f₁, _, h₁, @⟨_, v⟩, h₂⟩
  refine .getFunction_bind ?_
  rw [h₂.bindings]
  exact .modifyFunction ⟨fun hs => { hd hs with }, h₁.step { h₂ with bindings := rfl }, trivial⟩

theorem enterLoop {needs : Bool} :
    Steps safe P (Emit.enterLoop needs) (fun outer => ⟨.loop outer :: P.openings, P.bal⟩) := by
  refine .bind (.note nofun) fun _ _ f₀ d _ hd hp => .ofRun rfl ⟨fun hs => { hd hs with }, ?_, trivial⟩
  exact ⟨d.func, _, hp, .loop, .refl _⟩

theorem leaveLoop {outer : LoopState} :
    Steps safe ⟨.loop outer :: os, bal⟩ (Emit.leaveLoop outer) (fun _ => ⟨os, bal⟩) := by
  rintro f₀ d h₀ hd ⟨f₁, _, h₁, ⟨⟩, h₂⟩
  refine .getFunction_bind (.modifyFunction_bind (.pure ⟨fun hs => { hd hs with }, ?_, trivial⟩))
  exact h₁.step { h₂ with loop := .refl _ }

end Steps

end CBackend
