import CBackend.Lowering.Scopes
import CBackend.Proofs.Lowering.Blocks
import CBackend.Proofs.Lowering.Nodes

/-!
# Scopes and cleanups in growing drafts

Closing a scope runs or drops its cleanups and leaves those that waited before, so that an expression
that is lowered in a scope of its own adds none. Lowering is given by a walk, of which this is said for
every node and every cleanup.
-/

namespace CBackend

open IR Flow Emission
open C (CType)
open Lowering (Walk)

variable {strict : Bool} {m : Module} {bal : Bool} {γ : Exits} {d d₁ d₂ : Draft} {v : Value} {p : Pending}
  {moved : Option Value}

/-! ### Exits that end the program -/

namespace Lowers

/-- Control does not get past a line that ends the program. -/
theorem stop {l : C.Line} (hl : exitOf l = some .stops) :
    Lowers strict m bal γ d (Emit.exitLine l) :=
  fun hd => (Ensures.exitLine hd).mono fun _ _ hw => ⟨hw.grows (.stops hl) fun _ => rfl, .of_nil rfl⟩

theorem unreachable : Lowers strict m bal γ d Emit.unreachable :=
  .stop rfl

theorem panicWith (hv : Fits d v) : Lowers strict m bal γ d (Emit.panicWith v) := by
  refine .bind (Silently.addInclude (by decide)).lowers fun _ d₁ g₁ _ => ?_
  refine .bind (Silently.addInclude (by decide)).lowers fun _ d₂ g₂ _ => ?_
  refine .bind (.materialize (g₂.fits (g₁.fits hv))) fun v d₃ _ hv => ?_
  refine .bind (.member hv) fun first d₄ g₄ hfirst => .bind (.member (g₄.fits hv)) fun last d₅ g₅ hlast => ?_
  refine .lift fun length hlength => .lift fun e he => ?_
  have hlength := hlast.of_binary (g₅.fits hfirst) hlength
  have he : Fits d₅ e := (g₅.fits hfirst).of_renderParen he
  have hargs : Fits d₅ [e, .nat 1, length, .symbol "stderr"] :=
    he.cons (.cons (.of_nil rfl) (hlength.cons (.of_nil rfl)))
  refine .bind (.statement (e := .call (.symbol "fwrite") _) hargs.expr_list) fun _ d₆ _ _ => ?_
  exact .bind (.statement (.of_nil rfl)) fun _ _ _ _ => .stop rfl

/-! ### Bound elements -/

/-- Something is changed that the next steps do not depend on. -/
theorem modifyFunction {f : FunctionDraft → FunctionDraft}
    (hsteps : (f d.func).steps = d.func.steps) (hcontrol : (f d.func).control = d.func.control)
    (hreturns : (f d.func).returns = d.func.returns)
    (hmade : WellMade m d → WellMade m { d with func := f d.func }) :
    Lowers strict m bal γ d (Emit.modifyFunction f) := by
  refine fun hd => .modifyFunction
    ⟨⟨⟨[], ?_, ?_⟩, fun _ => ?_, hmade hd, rfl, rfl, ?_, hreturns⟩, .of_nil rfl⟩
  · rw [List.append_nil, hsteps]
  · exact hcontrol ▸ .nil
  · exact congrArg Control.cleanups hcontrol
  · exact .single (.body _)

theorem bindElement (hv : Fits d v) : Lowers strict m bal γ d (Emit.bindElement v) := by
  refine .modifyFunction rfl rfl rfl fun hd => ?_
  obtain ⟨hlocals, hbindings, hreturn, houtside, hcleanups, hindicators, hterminated⟩ := hd
  refine ⟨hlocals, fun w hw => ?_, hreturn, houtside, hcleanups, hindicators, hterminated⟩
  obtain rfl | hw := List.mem_cons.1 hw
  · exact hv
  · exact hbindings w hw

theorem unbindElement : Lowers strict m bal γ d Emit.unbindElement := by
  refine .getFunction ?_
  split
  · exact .throw
  · next w rest hbindings =>
    refine .modifyFunction rfl rfl rfl fun hd => { hd with bindings := fun w hw => ?_ }
    exact hd.bindings w (hbindings ▸ List.mem_cons_of_mem _ hw)

theorem boundValue {index : Nat} : Lowers strict m bal γ d (Emit.boundValue index) := by
  refine .getFunction ?_
  split
  · next w hw => exact fun hd => .pure ⟨.refl hd, hd.bindings w (List.mem_of_getElem? hw)⟩
  · exact .throw

end Lowers

/-! ### Scopes -/

namespace Ensures

/-- Goes out of the scope of the latest cleanups. -/
theorem leaveScope {n : Nat} (hd : WellMade m d) :
    Ensures d (Emit.leaveScope n) fun _ d' =>
      Writes m [] { d.func.control with scope := d.func.scope.drop n } d d' := by
  refine .modifyFunction ⟨(List.append_nil _).symm, rfl, ?_, rfl, rfl, .single (.body _), rfl⟩
  exact hd.congr rfl rfl rfl id (List.Subset.refl _) rfl le_rfl hd.terminated

/-- The cleanups that were added since a mark. -/
theorem cleanupsSince {mark : Nat} :
    Ensures d (Emit.cleanupsSince mark) fun ps d' =>
      d.func.cleanups.take (d.func.cleanups.length - mark) = ps ∧ d = d' := by
  refine .getFunction_bind ?_
  refine .when (Q := fun d' => d = d') (fun _ => .throw) (fun _ => rfl) ?_
  rintro _ rfl
  exact .pure ⟨rfl, rfl⟩

/-- The cleanups that were added since a scope was opened are taken away. -/
theorem takeCleanupsSince {top rest : List Pending} (hd : WellMade m d)
    (h : d.func.cleanups = top ++ rest) :
    Ensures d (Emit.takeCleanupsSince rest.length) fun ps d' =>
      top = ps ∧ Writes m [] { d.func.control with cleanups := rest } d d' := by
  have htop : d.func.cleanups.take (d.func.cleanups.length - rest.length) = top := by simp [h]
  have hrest : d.func.cleanups.drop top.length = rest := by simp [h]
  refine .bind .cleanupsSince ?_
  rintro _ _ ⟨rfl, rfl⟩
  rw [htop]
  refine .bind (Q := fun _ d' => Writes m [] { d.func.control with cleanups := rest } d d')
    (.modifyFunction ?_) fun _ _ hw => .pure ⟨rfl, hw⟩
  refine ⟨(List.append_nil _).symm, hrest ▸ rfl, ?_, rfl, rfl, .single (.body _), rfl⟩
  exact hd.congr rfl rfl rfl id (List.drop_subset _ _) rfl le_rfl hd.terminated

theorem indicator?_bind {α : Type} {x : VarId} {f : Option Value → Emit α} {Q : α → Draft → Prop}
    (h : Ensures d (f (d.func.indicators.lookup x)) Q) : Ensures d (Emit.indicator? x >>= f) Q :=
  h

/-- A cleanup begins to wait. -/
theorem addPending (hp : PendingMade m p) (hfits : Fits d p) (hd : WellMade m d) :
    Ensures d (Emit.addPending p) fun _ d' =>
      Writes m [.note (.waits p)] (d.func.control.push p) d d' := by
  refine .bind (.note hd nofun) fun _ d₁ h₁ => .modifyFunction ⟨h₁.steps, ?_, ?_, ?_⟩
  · exact congrArg (Control.push · p) h₁.control
  · refine { h₁.made with cleanups := fun q hq => ?_ }
    obtain rfl | hq := List.mem_cons.1 hq
    · exact ⟨hp, h₁.fits hfits le_rfl rfl⟩
    · exact h₁.made.cleanups q hq
  · exact h₁.rest.trans ⟨rfl, rfl, .single (.body _), rfl⟩

/-- A cleanup begins to wait, unless it neither does anything nor clears a flag. -/
theorem addCleanup {cleanup : Cleanup} {condition : Option Value} {owner : Option VarId}
    (hc : OfExpr m cleanup ∨ Declared m cleanup) (hv : Fits d v) (hmoved : Fits d moved)
    (hcondition : ∀ flag, condition = some flag → ∃ n, IsFlag flag n)
    (hguarded : ∀ x, owner = some x → EverMoved m x → condition.isSome = true)
    (hreached : ∀ call ∈ cleanup.call?, m.Reached (.expr call)) (hd : WellMade m d) :
    Ensures d (Emit.addCleanup cleanup v condition moved owner) fun _ d' =>
      cleanup.isNull = true ∧ d.func.control.indicatorOf cleanup = none ∧ d = d' ∨
      ∃ p, p.cleanup = cleanup ∧ p.condition = condition ∧ p.owner = owner ∧
        p.indicator = d.func.control.indicatorOf cleanup ∧
        Writes m [.note (.waits p)] (d.func.control.push p) d d' := by
  have hindicator : ∀ flag, d.func.control.indicatorOf cleanup = some flag → ∃ n, IsFlag flag n := by
    intro flag hflag
    obtain ⟨x, -, hx⟩ := Option.bind_eq_some_iff.1 hflag
    obtain ⟨n, hn, -⟩ := hd.indicators _ (mem_of_lookup_eq_some hx)
    exact ⟨n, hn⟩
  have hrest (indicator : Option Value) (heq : indicator = d.func.control.indicatorOf cleanup) :
      Ensures d (if cleanup.isNull && indicator.isNone then Pure.pure ()
        else Emit.addPending ⟨cleanup, v, condition, indicator, moved, owner⟩) fun _ d' =>
      cleanup.isNull = true ∧ d.func.control.indicatorOf cleanup = none ∧ d = d' ∨
      ∃ p, p.cleanup = cleanup ∧ p.condition = condition ∧ p.owner = owner ∧
        p.indicator = d.func.control.indicatorOf cleanup ∧
        Writes m [.note (.waits p)] (d.func.control.push p) d d' := by
    subst heq
    split
    · next h =>
      rw [Bool.and_eq_true, Option.isNone_iff_eq_none] at h
      exact .pure (.inl ⟨h.1, h.2, rfl⟩)
    · refine (addPending ⟨hcondition, hindicator, hguarded, hc, hreached⟩ (hv.prod hmoved) hd).mono ?_
      exact fun _ d' hw => .inr ⟨_, rfl, rfl, rfl, rfl, hw⟩
  unfold Emit.addCleanup
  dsimp only
  split
  · next x hx => exact .indicator?_bind (hrest _ (by rw [Control.indicatorOf, hx]; rfl))
  · next hx => exact hrest none (by simp [Control.indicatorOf, hx])

end Ensures

/-- A cleanup that belongs to no variable begins to wait. -/
theorem Lowers.addCleanup {cleanup : Cleanup} (hc : Declared m cleanup) (hv : Fits d v) (hmoved : Fits d moved)
    (hreached : ∀ call ∈ cleanup.call?, m.Reached (.expr call)) :
    Lowers strict m false γ d (Emit.addCleanup cleanup v none moved none) := by
  refine fun hd => (Ensures.addCleanup (.inr hc) hv hmoved (by rintro _ ⟨⟩) (by rintro _ ⟨⟩) hreached hd).mono
    fun _ d' h => ?_
  obtain ⟨-, -, rfl⟩ | ⟨p, rfl, -, howner, hindicator, hw⟩ := h
  · exact ⟨.refl hd, .of_nil rfl⟩
  · refine ⟨hw.grows (.waits hc ?_ hindicator) nofun, .of_nil rfl⟩
    exact fun x hx => by rw [howner] at hx; cases hx

/-! ### Walks -/

/-- What a walk writes for nodes and for cleanups. -/
structure Lowering.Walk.Sound (strict : Bool) (m : Module) (w : Walk) : Prop where
  expr : ∀ {γ id dest d}, Allowed strict m γ (.expr id) → Fits d dest →
    Lowers strict m false γ d (w.expr id dest)
  stmt : ∀ {γ id d}, Allowed strict m γ (.stmt id) → Lowers strict m false γ d (w.stmt id)
  cleanup : ∀ {γ p d}, Admits strict m γ → PendingMade m p → Fits d p → WellMade m d →
    Ensures d (w.cleanup p) fun _ d' =>
      Since m (fun B c => Emits strict m γ (.action p) d.func.control B c) d d'

namespace Lowering.Walk.Sound

variable {w : Walk} (hw : w.Sound strict m)

include hw

/-! ### Closing scopes -/

theorem runInTurn (ha : Admits strict m γ) {closing : Bool}
    {ps : List Pending} (hps : ∀ p ∈ ps, PendingMade m p ∧ Fits d p) (hd : WellMade m d) :
    Ensures d (w.runInTurn closing ps) fun _ d' =>
      Since m (fun B c => Emits strict m γ (.cleanups closing ps) d.func.control B c) d d' := by
  induction ps generalizing d with
  | nil =>
    exact .pure ⟨⟨[], (List.append_nil _).symm, .cleanupsNil⟩, fun _ h => h, hd, .refl m d⟩
  | cons p ps ih =>
    have hp := hps p List.mem_cons_self
    unfold Walk.runInTurn
    refine .when (Q := fun d' => Writes m [] (d.func.control.reached closing) d d')
      (fun hclosing => ?_) (fun hclosing => ?_) fun d₁ h₁ => ?_
    · rw [hclosing, Control.reached, ← List.drop_one]
      exact .leaveScope hd
    · rw [Bool.not_eq_true] at hclosing
      rw [hclosing]
      exact ⟨(List.append_nil _).symm, rfl, hd, .refl m d⟩
    · have hfits {α : Type} [Mentions α] {a : α} (ha : Fits d a) : Fits d₁ a :=
        h₁.fits ha le_rfl rfl
      refine .bind (hw.cleanup ha hp.1 (hfits hp.2) h₁.made) fun _ d₂ h₂ => ?_
      refine (ih (fun q hq => ?_) h₂.made).mono fun _ d₃ h₃ => ?_
      · have hq := hps q (List.mem_cons_of_mem _ hq)
        exact ⟨hq.1, h₂.fits (hfits hq.2)⟩
      · obtain ⟨L, hL, he⟩ := h₂.written
        obtain ⟨L', hL', he'⟩ := h₃.written
        rw [h₁.control] at he
        refine ⟨⟨L ++ L', ?_, .cleanupsCons he he'⟩, fun ns hns => ?_, h₃.made,
          (h₁.rest.trans h₂.rest).trans h₃.rest⟩
        · rw [hL', hL, h₁.steps, List.append_nil, List.append_assoc]
        · exact h₃.retains ns (h₂.retains ns (h₁.control ▸ hns))

/-- A scope is closed: its cleanups are run, or left out where control does not get. -/
theorem closeScope (ha : Admits strict m γ)
    (g : Grows strict m false γ d d₁) :
    Ensures d₁ (w.closeScope d.func.cleanups.length) fun _ d' =>
      Grows strict m true γ d d' ∧ Retains d₁ d' := by
  obtain ⟨L, hL, he⟩ := g.emits
  obtain ⟨top, htop, hscope⟩ : ∃ top, d₁.func.cleanups = top ++ d.func.cleanups ∧
    d₁.func.scope = top ++ d.func.scope := he.balanced
  refine .bind (.takeCleanupsSince g.made htop) ?_
  rintro _ d₂ ⟨rfl, h₂⟩
  refine .getFunction_bind ?_
  have hterminated : d₂.func.terminated = d₁.func.terminated :=
    congrArg Control.terminated h₂.control
  rw [hterminated]
  split
  · next ht =>
    refine .whenNot (Q := fun d' => ∃ L', Writes m L' d₂.func.control d₂ d' ∧
      Emits strict m γ .code d.func.control (L ++ L') d₁.func.control) (fun _ => ?_) (fun _ => ?_) ?_
    · exact (Ensures.note (n := .skips) h₂.made nofun).mono fun _ _ hw => ⟨_, hw, he.append (.skips ht)⟩
    · exact ⟨[], ⟨(List.append_nil _).symm, rfl, h₂.made, .refl m d₂⟩, (List.append_nil L).symm ▸ he⟩
    · rintro d₃ ⟨L', h₃, he'⟩
      refine (Ensures.leaveScope h₃.made).mono fun _ d₄ h₄ => ?_
      have hcontrol₃ := h₃.control.trans h₂.control
      have hcontrol : d₄.func.control = { d₁.func.control with
          cleanups := d.func.cleanups, scope := d.func.scope } := by
        have hscope₃ : d₃.func.scope = top ++ d.func.scope :=
          (congrArg Control.scope hcontrol₃).trans hscope
        rw [h₄.control, hcontrol₃, hscope₃, List.drop_left]
      refine ⟨⟨⟨L ++ L', ?_, ?_⟩, fun _ => ?_, h₄.made,
        ((g.rest.trans h₂.rest).trans h₃.rest).trans h₄.rest⟩, fun _ hns => hcontrol ▸ hns⟩
      · rw [h₄.steps, h₃.steps, h₂.steps, hL, List.append_nil, List.append_nil, List.append_assoc]
      · rw [hcontrol]
        exact he'.abandons ht
      · exact congrArg Control.cleanups hcontrol
  · refine (hw.runInTurn ha (fun p hp => ?_) h₂.made).mono fun _ d₃ h₃ => ?_
    · have hp := g.made.cleanups p (htop ▸ List.mem_append_left _ hp)
      exact ⟨hp.1, h₂.fits hp.2 le_rfl rfl⟩
    · obtain ⟨L', hL', he'⟩ := h₃.written
      rw [h₂.control] at he'
      refine ⟨⟨⟨L ++ L', ?_, he.closes htop he'⟩, fun _ => he'.balanced.1, h₃.made,
        (g.rest.trans h₂.rest).trans h₃.rest⟩, fun ns hns => h₃.retains ns (h₂.control ▸ hns)⟩
      rw [hL', h₂.steps, List.append_nil, hL, List.append_assoc]

/-- An expression in a scope of its own. -/
theorem inScope {id : ExprId} {dest : Option Value}
    (h : Allowed strict m γ (.expr id)) (hdest : Fits d dest) :
    Lowers strict m bal γ d (w.inScope id dest) := by
  refine .getFunction fun hd => .bind (hw.expr h hdest hd) fun v d₁ ⟨g₁, hv⟩ => ?_
  exact .bind (hw.closeScope h.admits g₁) fun _ d₂ ⟨g₂, hr⟩ => .pure ⟨g₂.unbalanced, hr.fits hv⟩

/-- An expression in a scope of its own, with elements bound. -/
theorem withBound {elements : List Value} {id : ExprId} {dest : Option Value}
    (h : Allowed strict m γ (.expr id)) (helements : Fits d elements) (hdest : Fits d dest) :
    Lowers strict m bal γ d (w.withBound elements id dest) := by
  refine .bind (.forM fun v hv _ g => .bindElement (g.fits (helements.of_mem hv))) fun _ _ g₁ _ => ?_
  refine .bind (.discard (hw.inScope h (g₁.fits hdest))) fun _ _ _ _ => ?_
  exact .forM fun _ _ _ _ => .unbindElement

/-! ### Running cleanups -/

/-- Cleanups are run on the way out. -/
theorem unwind (ha : Admits strict m γ) {mark : Nat}
    (hd : WellMade m d) :
    Ensures d (w.unwind mark) fun _ d' =>
      Since m (fun B c => Emits strict m γ
        (.cleanups false (d.func.cleanups.take (d.func.cleanups.length - mark)))
        d.func.control B c) d d' := by
  refine .bind .cleanupsSince ?_
  rintro _ _ ⟨rfl, rfl⟩
  exact hw.runInTurn ha (fun p hp => hd.cleanups p (List.mem_of_mem_take hp)) hd

theorem runLoopCleanups (ha : Admits strict m γ)
    (hd : WellMade m d) :
    Ensures d w.runLoopCleanups fun _ d' =>
      Since m (fun B c => Emits strict m γ (.cleanups false d.func.control.loopCleanups)
        d.func.control B c) d d' := by
  refine .getFunction_bind ?_
  exact hw.unwind ha hd

theorem runAllCleanups (ha : Admits strict m γ)
    (hd : WellMade m d) :
    Ensures d w.runAllCleanups fun _ d' =>
      Since m (fun B c => Emits strict m γ (.cleanups false d.func.control.cleanups)
        d.func.control B c) d d' := by
  have h : Ensures d (w.unwind 0) _ := hw.unwind (γ := γ) ha hd
  rwa [Nat.sub_zero, List.take_length] at h

/-- The elements of an array temporary are destroyed. -/
theorem runArrayCleanup {array : Value} {call : ExprId}
    (h : Allowed strict m (γ.inElements strict) (.expr call)) (harray : Fits d array) (hmoved : Fits d moved) :
    Lowers strict m bal γ d (w.runArrayCleanup array moved call) := by
  refine .bind Silently.arrayShape.lowers fun shape d₁ g₁ _ => ?_
  refine .beginReversedIndexLoop fun index d₂ h₂ hindex => ?_
  refine .bind (h₂.run (.element (h₂.fits (g₁.fits harray)) hindex)) fun elem d₃ ⟨h₃, _, helem⟩ => ?_
  dsimp only
  split
  · next moved =>
    have hmoved : Fits d₃ moved := h₃.fits (g₁.fits hmoved)
    refine .bind (h₃.run (.addressOf helem)) fun address d₄ ⟨h₄, g₄, haddress⟩ => ?_
    refine .lift_bind fun differs hdiffers => ?_
    have hdiffers := haddress.of_binary (g₄.fits hmoved) hdiffers
    refine .bind (h₄.run Silently.boolType.lowers) fun ty d₅ ⟨h₅, g₅, _⟩ => ?_
    refine .bind (h₅.run (.rvalue (g₅.fits hdiffers))) fun test d₆ ⟨h₆, g₆, htest⟩ => ?_
    have hbegin : Ensures d₆ (Emit.beginIf test) fun _ d' =>
        Since m (Open strict m (γ.inElements strict)
          (Conditional strict m (γ.inElements strict) d₆ true)) d₆ d' := .beginIf h₆.made htest
    refine .bind hbegin fun _ d₇ s₇ => ?_
    have helem : Fits d₇ elem := s₇.fits (g₆.fits (g₅.fits (g₄.fits helem)))
    refine .bind (s₇.run (hw.withBound h (helem.cons .nil) .none)) fun _ d₈ ⟨s₈, _⟩ => ?_
    refine .bind (.endIf s₈) fun _ d₉ s₉ => ?_
    exact (Ensures.endWhile (h₆.grow s₉.grows)).mono fun _ _ g => ⟨g, .of_nil rfl⟩
  · refine .bind (h₃.run (hw.withBound h (helem.cons .nil) .none)) fun _ d₄ ⟨h₄, _⟩ => ?_
    exact (Ensures.endWhile h₄).mono fun _ _ g => ⟨g, .of_nil rfl⟩

/-- The action of a cleanup. -/
theorem runAction (hm : Tidy strict m) (ha : Admits strict m γ) (hp : PendingMade m p)
    (hfits : Fits d p) :
    Lowers strict m bal (γ.inCleanup strict) d (w.runAction p) := by
  have hcall {call : ExprId} (h : p.cleanup.call? = some call) :=
    Allowed.inCleanup hm ha hp.ofModule h (hp.reached call h)
  have hvalue : Fits d p.value := hfits.of_subset (List.subset_append_left _ _)
  have hmoved : Fits d p.movedElement := hfits.of_subset (List.subset_append_right _ _)
  unfold Walk.runAction
  split
  · exact .pure (.of_nil rfl)
  · exact .pure (.of_nil rfl)
  · next h => exact .discard (hw.inScope (hcall (by rw [Cleanup.call?, h])) .none)
  · next h => exact .discard (hw.inScope (hcall (by rw [Cleanup.call?, h])) .none)
  · next h => exact hw.withBound (hcall (by rw [Cleanup.call?, h])) (hvalue.cons .nil) .none
  · next h =>
    refine hw.runArrayCleanup ?_ hvalue hmoved
    rw [Exits.inElements_inCleanup]
    exact hcall (by rw [Cleanup.call?, h])

/-- What is written for a cleanup before the flag of the variable that was moved out of is cleared. -/
def ActionDone (strict : Bool) (m : Module) (γ : Exits) (p : Pending) (c : Control) (B : List Step)
    (c' : Control) : Prop :=
  ∃ A c₁ b, B = .note (.starts p) :: guardSteps p A ∧
    Emits strict m (γ.inCleanup strict) .code c A c₁ ∧ c₁.cleanups = c.cleanups ∧
    c' = { c₁ with terminated := b } ∧ (b = true → c₁.terminated = true ∧ p.guard? = none)

omit hw in
/-- The flag of the variable that was moved out of is cleared, and the cleanup is over. -/
theorem finishCleanup (hp : PendingMade m p) (h : Since m (ActionDone strict m γ p d.func.control) d d₁) :
    Ensures d₁ (match p.indicator with
      | some flag => do
        let zero ← Emit.integer flag.ty 0
        Emit.assign flag zero
        Emit.note (.finishes p)
      | none => Emit.note (.finishes p)) fun _ d' =>
      Since m (fun B c => Emits strict m γ (.action p) d.func.control B c) d d' := by
  have hguard : ∀ x, p.owner = some x → EverMoved m x → p.guard?.isSome = true := by
    intro x hx hmoved
    obtain ⟨v, hv⟩ := Option.isSome_iff_exists.1 (hp.guarded x hx hmoved)
    obtain ⟨n, id, ty, rfl⟩ := hp.condition v hv
    simp [Pending.guard?, hv, Value.localNumber?]
  split
  · next flag hflag =>
    obtain ⟨n, id, ty, rfl⟩ := hp.indicator flag hflag
    have hclears : p.clears? = some n := by simp [Pending.clears?, hflag, Value.localNumber?]
    refine .bind (.newValue (m := m)) ?_
    rintro _ d₂ ⟨⟨id', rfl⟩, hs⟩
    refine .bind (Q := fun _ d' => Writes m [.line (clearLine n)] d₂.func.control.live d₂ d')
      (.lift_bind fun e he => ?_) fun _ d₃ h₃ => ?_
    · cases he
      exact .line (h.silent hs).made
    · refine (Ensures.note (n := .finishes p) h₃.made (by simp)).mono fun _ d₄ h₄ => ?_
      have hw := h₃.trans h₄
      refine (h.silent hs).write hw (fun _ h => h₃.control ▸ h) ?_
      rintro _ ⟨A, c₁, b, rfl, he, hbal, hc, -⟩
      rw [h₃.control, hc]
      have haction := Emits.action (γ := γ) (p := p) he hbal hguard (b := false) (absurd · Bool.false_ne_true)
      rw [clearSteps, hclears] at haction
      simpa [Control.live] using haction
  · next hnone =>
    have hclears : p.clears? = none := by simp [Pending.clears?, hnone]
    refine (Ensures.note (n := .finishes p) h.made (by simp)).mono fun _ d₂ hw => ?_
    refine h.write hw (fun _ h => h) ?_
    rintro _ ⟨A, c₁, b, rfl, he, hbal, hc, hb⟩
    rw [hc]
    have haction := Emits.action (γ := γ) (p := p) he hbal hguard (b := b)
      fun h => ⟨(hb h).1, (hb h).2, hclears⟩
    rw [clearSteps, hclears] at haction
    simpa using haction

/-- The code of a cleanup. -/
theorem runCleanup (hm : Tidy strict m) (ha : Admits strict m γ) (hp : PendingMade m p)
    (hfits : Fits d p) (hd : WellMade m d) :
    Ensures d (w.runCleanup p) fun _ d' =>
      Since m (fun B c => Emits strict m γ (.action p) d.func.control B c) d d' := by
  refine .bind (.note hd (by simp)) fun _ d₁ h₁ => ?_
  have hfits : Fits d₁ p := h₁.fits hfits le_rfl rfl
  dsimp only
  split
  · next flag hflag =>
    obtain ⟨n, id, ty, rfl⟩ := hp.condition flag hflag
    have hguard : p.guard? = some n := by simp [Pending.guard?, hflag, Value.localNumber?]
    refine .bind (Q := fun _ d' => Writes m [.line (.ifThen (.name (.localVar n))), .line .openBlock]
      d₁.func.control.live d₁ d') (.lift_bind fun e he => ?_) fun _ d₂ h₂ => ?_
    · cases he
      exact .openAfter h₁.made
    have haction : Lowers strict m true (γ.inCleanup strict) d₂ (w.runAction p) :=
      hw.runAction hm ha hp (h₂.fits hfits le_rfl rfl)
    refine .bind (haction h₂.made) ?_
    rintro _ d₃ ⟨g₃, -⟩
    refine .bind (.closeBlock g₃.made) fun _ d₄ h₄ => ?_
    refine finishCleanup hp ?_
    obtain ⟨A, hA, he⟩ := g₃.emits
    rw [h₂.control, h₁.control] at he
    refine ⟨⟨_, ?_, A, d₃.func.control, false, rfl, ?_, ?_, h₄.control, (absurd · Bool.false_ne_true)⟩, fun ns hns => ?_, h₄.made,
      ((h₁.rest.trans h₂.rest).trans g₃.rest).trans h₄.rest⟩
    · rw [h₄.steps, hA, h₂.steps, h₁.steps, guardSteps, hguard]
      simp
    · exact .append (.revive .nil) he
    · have hcontrol : d₂.func.control = d.func.control.live := by rw [h₂.control, h₁.control]
      exact (g₃.balanced rfl).trans (congrArg Control.cleanups hcontrol)
    · rw [h₄.control]
      exact he.grown.fits hns
  · next hnone =>
    have haction : Lowers strict m true (γ.inCleanup strict) d₁ (w.runAction p) :=
      hw.runAction hm ha hp hfits
    refine .bind (haction h₁.made) ?_
    rintro _ d₂ ⟨g₂, -⟩
    refine finishCleanup hp ?_
    have hguard : p.guard? = none := by simp [Pending.guard?, hnone]
    obtain ⟨A, hA, he⟩ := g₂.emits
    rw [h₁.control] at he
    refine ⟨⟨_, ?_, A, d₂.func.control, d₂.func.terminated, rfl, he, ?_, rfl, fun h => ⟨h, hguard⟩⟩,
      fun ns hns => he.grown.fits hns, g₂.made, h₁.rest.trans g₂.rest⟩
    · rw [hA, h₁.steps, guardSteps, hguard]
      simp
    · exact (g₂.balanced rfl).trans (congrArg Control.cleanups h₁.control)

end Lowering.Walk.Sound

end CBackend
