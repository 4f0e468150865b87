import CBackend.Proofs.Bracketing.Lines

/-!
# Scopes and operands in frames

A scope takes away the cleanups that were added in it when it is closed. Whatever is lowered in a scope
of its own leaves the waiting cleanups as they were.
-/

namespace CBackend

open IR Flow Lowering
open C (CType Precedence)

variable {safe bal : Bool} {m m' : Module} {v : Value} {P : Place} {os : List Opening} {id : ExprId} {index mark : Nat}
  {var : VarId} {p : Pending} {cleanup : Cleanup} {vs : List Value}

/-- The nodes below a node are lowered so that nothing is left open, and in the same way for a longer module. A
destination has an address, and cleanups leave none to wait. -/
structure Lowering.Walk.Bracketed (safe : Bool) (m : Module) (w : Walk) (m' : Module := m)
    (w' : Walk := w) : Prop where
  module : m.ExtendedBy m'
  expr : ∀ os id dest, DestPlaced safe dest → Stays safe ⟨os, false⟩ (w.expr id dest) (w'.expr id dest)
  stmt : ∀ os id, Stays safe ⟨os, false⟩ (w.stmt id) (w'.stmt id)
  cleanup : ∀ P p, Stays safe P (w.cleanup p) (w'.cleanup p)

/-- A computation leaves nothing open with the walk of either module. -/
abbrev Lowering.Walk.Bracketed.Both {α : Type} {w w' : Walk} (_ : w.Bracketed safe m m' w') (P : Place)
    (f : Module → Walk → Emit α) (Φ : α → Prop := fun _ => True) : Prop :=
  Stays safe P (f m w) (f m' w') Φ

/-! ### Look-ups -/

namespace Harmless

variable (hm : m.ExtendedBy m')

include hm

theorem exprAt : Harmless safe (exprAt m id) (exprAt m' id) :=
  .found hm.expr?

theorem exprTy : Harmless safe (exprTy m id) (exprTy m' id) :=
  .bind (.exprAt hm) fun _ _ => .pure

/-- The bound on the nesting of conversions may be larger in the longer module. -/
theorem isSimpleWithin {k k' : Nat} (hk : k ≤ k') :
    Harmless safe (isSimpleWithin m k id) (isSimpleWithin m' k' id) := by
  induction k generalizing k' id with
  | zero => exact .error rfl
  | succ k ih =>
    obtain ⟨k', rfl⟩ := Nat.exists_eq_add_of_le' hk
    refine .bind (.exprAt hm) fun e _ => ?_
    cases e.kind with
    | unary op => cases op <;> first | exact .pure | exact ih (Nat.le_add_left ..)
    | _ => first | exact .pure | exact ih (Nat.le_add_left ..)

theorem isSimple : Harmless safe (isSimple m id) (isSimple m' id) :=
  .isSimpleWithin hm (by simpa using hm.exprs.length_le)

theorem allSimple {ids : List ExprId} : Harmless safe (allSimple m ids) (allSimple m' ids) := by
  induction ids with
  | nil => exact .ok
  | cons id ids ih => exact .bind (.isSimple hm) fun _ _ => .ite (fun _ => ih) fun _ => .pure

theorem memberTy {ty : Ty} :
    Harmless safe (memberTy m ty index) (memberTy m' ty index) := by
  cases ty with
  | aggregate id => exact .bind (.found hm.aggregate?) fun _ _ => .inRange
  | tuple _ => exact .inRange
  | str | slice _ _ | optional _ => exact .ok
  | _ => exact .error rfl

end Harmless

namespace Steps

/-! ### Cleanups -/

theorem leaveScope {n : Nat} : Stays safe P (Emit.leaveScope n) :=
  .modifyFunction fun _ => .of_eq rfl rfl rfl rfl rfl le_rfl rfl rfl rfl

theorem indicator? : Stays safe P (Emit.indicator? var) :=
  .bind .getFunction fun _ _ => .pure trivial

theorem addIndicator : Stays safe P (Emit.addIndicator var) :=
  .bind (.quiet .boolType) fun _ _ => .bind .declareWith fun _ _ =>
    .modifyFunction fun _ => .of_eq rfl rfl rfl rfl rfl le_rfl rfl rfl rfl

theorem addPending : Stays safe ⟨os, false⟩ (Emit.addPending p) := by
  refine .bind (.note nofun) fun _ _ => .modifyFunction fun f => ?_
  have h : Framed true f f := .refl f
  exact { h with
    cleanups := List.suffix_cons ..
    balanced := nofun }

theorem addCleanup {condition movedElement : Option Value} {owner : Option VarId} :
    Stays safe ⟨os, false⟩ (Emit.addCleanup cleanup v condition movedElement owner) := by
  have hrest (indicator : Option Value) : Stays safe ⟨os, false⟩ (do
      unless cleanup.isNull && indicator.isNone do
        Emit.addPending { cleanup, value := v, condition, indicator, movedElement, owner }) :=
    .ite (fun _ => .pure trivial) fun _ => .addPending
  unfold Emit.addCleanup
  cases cleanup.moved with
  | some _ => exact .bind .indicator? fun indicator _ => hrest indicator
  | none => exact hrest none

theorem addDeferred :
    Stays safe ⟨os, false⟩ (Emit.addDeferred cleanup) :=
  .addCleanup

theorem addVariableCleanup :
    Stays safe ⟨os, false⟩ (Emit.addVariableCleanup cleanup var) :=
  .bind .indicator? fun _ _ => .addCleanup

theorem addTemporaryCleanup :
    Stays safe ⟨os, false⟩ (Emit.addTemporaryCleanup cleanup v) :=
  .addCleanup

end Steps

/-- The cleanups since a mark, if there are as many. -/
theorem Safely.cleanupsSince {d : Draft} (hmark : safe = true → mark ≤ d.func.cleanups.length) :
    Safely safe d (Emit.cleanupsSince mark) fun ps d' =>
      d' = d ∧ ps = d.func.cleanups.take (d.func.cleanups.length - mark) := by
  refine .getFunction_bind ?_
  by_cases hlt : d.func.cleanups.length < mark
  · rw [if_pos hlt]
    exact ⟨.throw, ⟨fun hs => absurd hlt (hmark hs).not_gt, fun _ => id⟩, .throw⟩
  · rw [if_neg hlt]
    exact .pure ⟨rfl, rfl⟩

namespace Steps

/-- The cleanups of the innermost scope. -/
theorem cleanupsSince :
    Stays safe ⟨.scope mark bal :: os, false⟩ (Emit.cleanupsSince mark) := by
  rintro f₀ d h₀ hd ⟨f₁, _, h₁, ⟨⟩, h₂⟩
  refine (Safely.cleanupsSince fun _ => h₂.cleanups.length_le).mono ?_
  rintro ps _ ⟨rfl, -⟩
  exact ⟨hd, ⟨f₁, f₁, h₁, .scope, h₂⟩, trivial⟩

theorem allCleanups : Stays safe P (Emit.cleanupsSince 0) := by
  intro f₀ d h₀ hd hp
  refine (Safely.cleanupsSince fun _ => Nat.zero_le _).mono ?_
  rintro ps _ ⟨rfl, -⟩
  exact ⟨hd, hp, trivial⟩

/-- The innermost scope is closed. -/
theorem takeCleanupsSince :
    Steps safe ⟨.scope mark bal :: os, false⟩ (Emit.takeCleanupsSince mark) (fun _ => ⟨os, bal⟩) := by
  rintro f₀ d h₀ hd ⟨f₁, _, h₁, ⟨⟩, h₂⟩
  refine .bind (Safely.cleanupsSince fun _ => h₂.cleanups.length_le) ?_
  rintro ps d ⟨rfl, rfl⟩
  obtain ⟨new, hnew⟩ := h₂.cleanups
  have hdrop : d.func.cleanups.drop (d.func.cleanups.length - f₁.cleanups.length) = f₁.cleanups := by
    rw [← hnew, List.length_append, Nat.add_sub_cancel, List.drop_left]
  refine .modifyFunction_bind (.pure ⟨fun hs => { hd hs with }, h₁.step ?_, trivial⟩)
  rw [List.length_take, min_eq_left (Nat.sub_le ..), hdrop]
  exact { h₂ with cleanups := List.suffix_refl _, balanced := fun _ => rfl }

/-! ### Bound elements, labels and variables -/

theorem boundValue : Stays safe P (Emit.boundValue index) := by
  refine .bind .getFunction fun bindings _ => ?_
  cases bindings[index]? with
  | some _ => exact .pure trivial
  | none => exact .throw rfl

theorem breakLabel? : Stays safe P Emit.breakLabel? := by
  refine fun f₀ d h₀ hd hp => .getFunction_bind ?_
  cases d.func.loop.inSwitch with
  | false => exact .pure ⟨hd, hp, trivial⟩
  | true =>
    cases hnone : d.func.loop.breakLabel with
    | some label => exact .pure ⟨hd, hp, trivial⟩
    | none =>
      refine .ofRun rfl ⟨fun hs => { hd hs with }, hp.step ?_, trivial⟩
      exact { Framed.refl d.func with
        loop := ⟨rfl, rfl, rfl, fun n hn => (nomatch hnone.symm.trans hn), fun _ => id⟩
        counter := Nat.le_succ _ }

theorem continueLabel? : Stays safe P Emit.continueLabel? := by
  refine fun f₀ d h₀ hd hp => .getFunction_bind ?_
  cases d.func.loop.continueNeedsLabel with
  | false => exact .pure ⟨hd, hp, trivial⟩
  | true =>
    cases hnone : d.func.loop.continueLabel with
    | some label => exact .pure ⟨hd, hp, trivial⟩
    | none =>
      refine .ofRun rfl ⟨fun hs => { hd hs with }, hp.step ?_, trivial⟩
      exact { Framed.refl d.func with
        loop := ⟨rfl, rfl, rfl, fun _ => id, fun n hn => (nomatch hnone.symm.trans hn)⟩
        counter := Nat.le_succ _ }

theorem bindLocal : Stays safe P (Emit.bindLocal var v) :=
  .bind .getFunction fun _ _ => .bind (.note nofun) fun _ _ =>
    .modifyFunction fun _ => .of_eq rfl rfl rfl rfl rfl le_rfl rfl rfl rfl

theorem local? : Stays safe P (Emit.local? var) :=
  .bind .getFunction fun _ _ => .pure trivial

/-! ### Scopes -/

variable {w w' : Walk}

theorem runInTurn (hw : w.Bracketed safe m m' w') {closing : Bool} {ps : List Pending} :
    Stays safe P (w.runInTurn closing ps) (w'.runInTurn closing ps) := by
  induction ps with
  | nil => exact .pure trivial
  | cons p ps ih =>
    dsimp only [Walk.runInTurn]
    refine .when (fun _ => .leaveScope) ?_
    exact .bind (hw.cleanup P p) fun _ _ => ih

theorem closeScope (hw : w.Bracketed safe m m' w') :
    Steps safe ⟨.scope mark bal :: os, false⟩ (w.closeScope mark) (fun _ => ⟨os, bal⟩) (w'.closeScope mark) := by
  refine .bind .takeCleanupsSince fun ps _ => .bind .isTerminated fun _ _ => ?_
  exact .ite (fun _ => .whenNot (fun _ => .note nofun) .leaveScope) fun _ => .runInTurn hw

theorem inScope (hw : w.Bracketed safe m m' w') {dest : Option Value} (hdest : DestPlaced safe dest) :
    Stays safe P (w.inScope id dest) (w'.inScope id dest) :=
  .bind .scopeMark fun _ _ => .bind (hw.expr _ id dest hdest) fun _ _ =>
    .bind (.closeScope hw) fun _ _ => .pure trivial

/-- Elements are bound. -/
theorem bindElements :
    Steps safe P (vs.forM Emit.bindElement) (fun _ => ⟨List.replicate vs.length .bound ++ P.openings, P.bal⟩) := by
  induction vs generalizing P with
  | nil => exact .pure trivial
  | cons v vs ih =>
    rw [List.length_cons, List.replicate_succ', List.append_assoc]
    exact Steps.bind bindElement fun _ _ => ih

theorem unbindElements :
    Steps safe ⟨List.replicate vs.length .bound ++ os, bal⟩ (vs.forM fun _ => Emit.unbindElement)
      (fun _ => ⟨os, bal⟩) := by
  induction vs with
  | nil => exact .pure trivial
  | cons v vs ih => exact .bind .unbindElement fun _ _ => ih

theorem withBound (hw : w.Bracketed safe m m' w') {dest : Option Value} (hdest : DestPlaced safe dest) :
    Stays safe P (w.withBound vs id dest) (w'.withBound vs id dest) :=
  .bind .bindElements fun _ _ => .bind (.discard (.inScope hw hdest)) fun _ _ => .unbindElements

/-- As many cleanups wait as when the loop was entered, or more. -/
theorem runLoopCleanups (hw : w.Bracketed safe m m' w') : Stays safe P w.runLoopCleanups w'.runLoopCleanups := by
  intro f₀ d h₀ hd hp
  refine .getFunction_bind (.bind (.cleanupsSince fun hs => (hp.sane (h₀ hs)).base) ?_)
  rintro ps _ ⟨rfl, -⟩
  exact runInTurn hw f₀ _ h₀ hd hp

theorem runAllCleanups (hw : w.Bracketed safe m m' w') : Stays safe P w.runAllCleanups w'.runAllCleanups :=
  .bind .allCleanups fun _ _ => .runInTurn hw

theorem runArrayCleanup (hw : w.Bracketed safe m m' w') {moved : Option Value} {call : ExprId} :
    Stays safe P (w.runArrayCleanup v moved call) (w'.runArrayCleanup v moved call) := by
  refine .bind (.quiet .arrayShape) fun _ _ => .bind .beginReversedIndexLoop fun _ _ => ?_
  refine .bind (.quiet .element) fun element _ => ?_
  cases moved with
  | some moved =>
    refine .bind .addressOf fun _ _ => .bind (.lift (.binary (by decide))) fun _ _ => ?_
    refine .bind (.quiet .boolType) fun _ _ => .bind (.quiet .rvalue) fun _ _ => .bind .beginIf fun _ _ => ?_
    exact .bind (.withBound hw .none) fun _ _ => .bind .endIf fun _ _ => .endWhile
  | none => exact .bind (.withBound hw .none) fun _ _ => .endWhile

theorem runAction (hw : w.Bracketed safe m m' w') :
    Stays safe P (w.runAction p) (w'.runAction p) := by
  unfold Walk.runAction
  cases p.cleanup.action with
  | none | trivial => exact .pure True.intro
  | ofVariable | deferred => exact .discard (.inScope hw .none)
  | ofTemporary => exact .withBound hw .none
  | arrayRest => exact .runArrayCleanup hw

theorem finishCleanup : Stays safe P (do
    match p.indicator with
    | some indicator => Emit.assign indicator (← Emit.integer indicator.ty 0)
    | none => Pure.pure ()
    Emit.note (.finishes p)) := by
  cases p.indicator with
  | some _ => exact .bind (.quiet .integer) fun _ _ => .bind .assign fun _ _ => .note (by simp)
  | none => exact .note (by simp)

theorem runCleanup (hw : w.Bracketed safe m m' w') :
    Stays safe P (w.runCleanup p) (w'.runCleanup p) := by
  refine .bind (.note (by simp)) fun _ _ => ?_
  dsimp only
  cases p.condition with
  | some _ =>
    exact .bind .beginIf fun _ _ => .bind (.runAction hw) fun _ _ => .bind .endIf fun _ _ => finishCleanup
  | none => exact .bind (.runAction hw) fun _ _ => finishCleanup

/-! ### Operands -/

section

variable {dest : Option Value} {ty : Ty} (hm : m.ExtendedBy m')

include hm

theorem resultStorage (hdest : DestPlaced safe dest) :
    Stays safe P (resultStorage m dest ty) (resultStorage m' dest ty) (Value.Placed safe) := by
  cases dest with
  | some dest => exact .pure (hdest _ rfl)
  | none => exact .bind (.quiet (.valueType hm)) fun _ _ => .declareLocal

theorem completeTypeOf : Stays safe P (completeTypeOf m id) (completeTypeOf m' id) :=
  .bind (.lift (.exprTy hm)) fun _ _ => .discard (.quiet (.valueType hm))

omit hm in
theorem stabilizeUnless {b : Bool} : Stays safe P (stabilizeUnless b v) := by
  unfold Lowering.stabilizeUnless stabilize
  refine .ite (fun _ => .pure trivial) fun _ => .ite (fun _ => .pure trivial) fun _ => ?_
  exact .mono .copyToLocal fun _ _ => trivial

theorem memberValue :
    Stays safe P (memberValue m v ty index) (memberValue m' v ty index) fun u =>
      v.Placed safe → u.Placed safe := by
  refine .bind (.quiet .member) fun u hu => .bind (.lift (.memberTy hm)) fun _ _ => ?_
  exact .ite (fun _ => .mono .dereference fun _ h _ => h) fun _ => .pure hu

/-! ### Optionals -/

omit hm in
theorem optionalHasValue : Stays safe P (optionalHasValue v ty) := by
  unfold Lowering.optionalHasValue
  refine .ite (fun _ => ?_) fun _ => .mono (.quiet .member) fun _ _ => trivial
  refine .bind (.quiet .rvalue) fun _ _ => .bind (.lift (.binary (by decide))) fun _ _ => ?_
  exact .bind (.quiet .boolType) fun _ _ => .quiet .rvalue

omit hm in
theorem optionalValue :
    Stays safe P (optionalValue v ty) (optionalValue v ty) fun u =>
      v.Placed safe → u.Placed safe := by
  unfold Lowering.optionalValue
  refine .ite (fun _ => .mono .dereference fun _ h _ => h) fun _ => ?_
  exact .ite (fun _ => .pure id) fun _ => .quiet .member

omit hm in
theorem setHasValue {b : Bool} : Stays safe P (setHasValue v b) :=
  .bind (.quiet .member) fun _ _ => .bind (.quiet .boolType) fun _ _ => .bind (.quiet .integer) fun _ _ => .assign

theorem checkHasValue : Stays safe P (checkHasValue m v ty) (checkHasValue m' v ty) :=
  .bind .optionalHasValue fun _ _ => .bind .beginIfNot fun _ _ =>
    .bind (.quiet (.stringValue hm)) fun _ _ => .bind .panicWith fun _ _ => .endIf

end

/-! ### Operands that stay addressable -/

theorem place (hw : w.Bracketed safe m m' w') {later : ExprId} :
    Stays safe ⟨os, false⟩ (place m w id later) (place m' w' id later) (Value.Placed safe) := by
  refine .bind (hw.expr os id none .none) fun _ _ => .bind .materialize fun v hv => ?_
  refine .ite (fun _ => .pure hv) fun _ => .bind (.lift (.isSimple hw.module)) fun _ _ => ?_
  exact .ite (fun _ => .pure hv) fun _ => .bind .addressOf fun _ _ => .dereference

theorem operandPair (hw : w.Bracketed safe m m' w') {first second : ExprId} :
    Stays safe ⟨os, false⟩ (operandPair m w first second) (operandPair m' w' first second) fun vs =>
      vs.1.Placed safe ∧ vs.2.Placed safe := by
  refine .bind (.completeTypeOf hw.module) fun _ _ => .bind (.place hw) fun _ h₁ => ?_
  exact .bind (hw.expr os second none .none) fun _ _ => .bind .materialize fun _ h₂ => .pure ⟨h₁, h₂⟩

end Steps

end CBackend
