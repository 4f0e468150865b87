import CBackend.Lowering.Statements
import CBackend.Proofs.Lowering.Branches

/-!
# Statements in growing drafts

What lowering writes for declarations, loops and returns. A variable that is moved out of somewhere gets
a flag where it is declared, and its cleanup waits under that flag.
-/

namespace CBackend

open IR Flow Emission
open C (CType)
open Lowering (Walk)

variable {strict : Bool} {m : Module} {bal : Bool} {γ : Exits} {d d₁ : Draft} {v : Value}
  {dest : Option Value} {ty : Ty} {w : Walk} {x : VarId} (hw : w.Sound strict m)

/-! ### Variables -/

namespace Ensures

theorem bindLocal (hv : Fits d v) (hd : WellMade m d) :
    Ensures d (Emit.bindLocal x v) fun _ d' =>
      Writes m [.note (.declares x (d.func.control.holds x))] d.func.control d d' := by
  refine .getFunction_bind ?_
  refine .bind (.note (n := .declares x (d.func.control.holds x)) hd nofun) fun _ d₁ h₁ => ?_
  refine .modifyFunction ⟨h₁.steps, h₁.control, ?_, h₁.rest.trans ⟨rfl, rfl, .single (.body _), rfl⟩⟩
  refine { h₁.made with locals := fun entry hentry => ?_ }
  obtain rfl | hentry := List.mem_cons.1 hentry
  · exact h₁.fits hv le_rfl rfl
  · exact h₁.made.locals entry hentry

/-- The flag of a variable is declared. -/
theorem addIndicator (hd : WellMade m d) :
    Ensures d (Emit.addIndicator x) fun _ d' => ∃ ty flag, IsFlag flag d.func.counter ∧
      Writes m [.line (.declare ty d.func.counter (some (.nat 1)))] (d.func.control.flagged x flag)
        d d' := by
  have htype : Silently m d Emit.boolType := .boolType
  refine .bind (htype hd) fun ty d₁ ⟨hs, _⟩ => ?_
  have hrun : Ensures d₁ (do
      let flag ← Emit.declareWith ty (.nat 1)
      Emit.modifyFunction fun f => { f with indicators := (x, flag) :: f.indicators }) fun _ d' =>
      ∃ flag, IsFlag flag d.func.counter ∧ d'.func = { d.func with
        steps := d.func.steps.push (.line (.declare ty d.func.counter (some (.nat 1))))
        counter := d.func.counter + 1
        indicators := (x, flag) :: d.func.indicators
        terminated := false } ∧ (Outside d₁ → Outside d') ∧ Rest m d₁ d' := by
    rw [← hs.func]
    rintro _ _ ⟨⟩
    exact ⟨_, ⟨_, _, rfl⟩, rfl, id, rfl, rfl, .head (.value _) (.single (.body _)), rfl⟩
  refine hrun.mono fun _ d₂ ⟨flag, hflag, hfunc, houtside, hrest⟩ => ⟨ty, flag, hflag, ?_⟩
  have hcontrol : d₂.func.control = d.func.control.flagged x flag := by rw [hfunc]; rfl
  -- no value mentions the number of the flag, which is new
  have hfits {α : Type} [Mentions α] {a : α} (ha : Fits d a) : Fits d₂ a := by
    obtain ⟨id, ty, rfl⟩ := hflag
    rw [Fits, hcontrol]
    exact (Grown.flagged x rfl).fits ha
  refine ⟨by rw [hfunc, Array.toList_push], hcontrol, ?_, hs.rest.trans hrest⟩
  refine ⟨?_, ?_, ?_, houtside (hs.outside hd.outside), ?_, ?_, ?_⟩ <;> rw [hfunc]
  · exact fun entry he => hfits (hd.locals entry he)
  · exact fun v hv => hfits (hd.bindings v hv)
  · exact hfits hd.returnAddress
  · exact fun p hp => ⟨(hd.cleanups p hp).1, hfits (hd.cleanups p hp).2⟩
  · intro entry hentry
    obtain rfl | hentry := List.mem_cons.1 hentry
    · exact ⟨_, hflag, Nat.lt_succ_self _⟩
    · obtain ⟨n, hn, hlt⟩ := hd.indicators entry hentry
      exact ⟨n, hn, hlt.trans (Nat.lt_succ_self _)⟩
  · rw [Array.toList_push, endsNoted_append]

theorem addVariableCleanup {cleanup : Cleanup} (hc : Declared m cleanup)
    (hguarded : EverMoved m x → (d.func.indicators.lookup x).isSome = true)
    (hreached : ∀ call ∈ cleanup.call?, m.Reached (.expr call)) (hd : WellMade m d) :
    Ensures d (Emit.addVariableCleanup cleanup x) fun _ d' => d = d' ∨
      ∃ p, p.cleanup = cleanup ∧ p.condition = d.func.indicators.lookup x ∧ p.owner = some x ∧
        p.indicator = d.func.control.indicatorOf cleanup ∧
        Writes m [.note (.waits p)] (d.func.control.push p) d d' := by
  refine .indicator?_bind ?_
  refine (Ensures.addCleanup (.inr hc) (.of_nil rfl) .none (fun flag hflag => ?_) ?_ hreached hd).mono
    fun _ d' h => h.imp (·.2.2) id
  · obtain ⟨n, hn, -⟩ := hd.indicators _ (mem_of_lookup_eq_some hflag)
    exact ⟨n, hn⟩
  · rintro _ ⟨⟩
    exact hguarded

end Ensures

namespace Lowers

/-- A variable is bound, with its flag if it is moved out of somewhere, and its cleanup begins to wait. -/
theorem bindOne {decl : VarDecl} (hx : m.var? x = some decl) (hreached : m.Reached (.var x)) (hv : Fits d v) :
    Lowers strict m false γ d (do
      Emit.bindLocal x v
      if decl.everMovedFrom then Emit.addIndicator x
      if decl.everMovedFrom || !decl.ty.isAnyReference then
        Emit.addVariableCleanup decl.destruction x) := by
  intro hd
  refine .bind (.bindLocal hv hd) fun _ d₁ h₁ => ?_
  have hdeclared : Declared m decl.destruction := .ofVariable hx
  have hcall : ∀ call ∈ decl.destruction.call?, m.Reached (.expr call) := fun call hcall =>
    hreached.ofVar hx _ (by simp [VarDecl.items, Option.mem_def.1 hcall])
  cases hmoved : decl.everMovedFrom with
  | true =>
    refine .bind (.addIndicator h₁.made) ?_
    rintro _ d₂ ⟨ty, flag, hflag, h₂⟩
    have hlookup : d₂.func.indicators.lookup x = some flag := by
      rw [show d₂.func.indicators = (x, flag) :: d₁.func.indicators from
        congrArg Control.indicators h₂.control]
      simp
    have h := h₁.trans h₂
    have hcounter : d₁.func.counter = d.func.counter := congrArg Control.counter h₁.control
    rw [h₁.control, hcounter] at h
    have hnumber : flag.localNumber? = some d.func.control.counter := by
      obtain ⟨id, ty, rfl⟩ := hflag
      exact congrArg some hcounter
    refine (Ensures.addVariableCleanup hdeclared (fun _ => by rw [hlookup]; rfl) hcall h₂.made).mono
      fun _ d₃ h₃ => ⟨?_, .of_nil rfl⟩
    obtain rfl | ⟨p, hp, hcondition, howner, hindicator, h₃⟩ := h₃
    · exact h.grows (.declaresFlag hnumber) (absurd · Bool.false_ne_true)
    · rw [h.control] at h₃ hindicator
      rw [← hp] at hdeclared hindicator
      refine (h.trans h₃).grows ?_ (absurd · Bool.false_ne_true)
      exact .declaresWaiting hnumber hdeclared howner (hcondition.trans hlookup) hindicator
  | false =>
    have hx : ¬ EverMoved m x := by
      rintro ⟨decl', hdecl', hmoved'⟩
      cases hx.symm.trans hdecl'
      rw [hmoved] at hmoved'
      cases hmoved'
    have g₁ : Grows strict m false γ d d₁ := h₁.grows (.declares hx) (absurd · Bool.false_ne_true)
    rw [if_neg Bool.false_ne_true]
    split
    · refine (Ensures.addVariableCleanup hdeclared (absurd · hx) hcall h₁.made).mono fun _ d₂ h => ?_
      refine ⟨g₁.trans ?_, .of_nil rfl⟩
      obtain rfl | ⟨p, hp, hcondition, howner, hindicator, h₂⟩ := h
      · exact .refl h₁.made
      · rw [← hp] at hdeclared hindicator
        refine h₂.grows (.waits hdeclared ?_ hindicator) (absurd · Bool.false_ne_true)
        intro y hy
        cases howner.symm.trans hy
        exact hx
    · exact .pure ⟨g₁, .of_nil rfl⟩

theorem bindVariableWithin {depth : Nat} (h : m.Reached (.var x)) (hv : Fits d v) :
    Lowers strict m false γ d (Lowering.bindVariableWithin m depth x v) := by
  induction depth generalizing d x v with
  | zero => exact .throw
  | succ depth ih =>
    refine .lift fun decl hdecl => ?_
    have hdecl := eq_some_of_inRange hdecl
    split
    · exact .bindOne hdecl h hv
    · refine .forM fun elem helem d₁ g₁ => ?_
      have hv := g₁.fits hv
      have helem : m.Reached (.var elem.1) :=
        h.ofVar hdecl _ (List.mem_append_right _ (List.mem_map_of_mem (List.fst_mem_of_mem_zipIdx helem)))
      have hpart {part : Value} {d₂ : Draft} (hpart : Fits d₂ part) : Lowers strict m false γ d₂ (do
          let elemDecl ← inRange (m.var? elem.1)
          let part ← if elemDecl.ty.isAnyReference then Emit.dereference part else Pure.pure part
          Lowering.bindVariableWithin m depth elem.1 part) := by
        refine .lift fun _ _ => ?_
        dsimp only
        split
        · exact .bind (.dereference hpart) fun _ _ _ hpart => ih helem hpart
        · exact .bind (.pure hpart) fun _ _ _ hpart => ih helem hpart
      dsimp only
      split
      · exact .bind (.elementAt hv) fun _ _ _ h => hpart h
      · exact .bind (.member hv) fun _ _ _ h => hpart h

theorem bindVariable (h : m.Reached (.var x)) (hv : Fits d v) :
    Lowers strict m false γ d (Lowering.bindVariable m x v) :=
  .bindVariableWithin h hv

include hw

theorem referenceInit {init : ExprId} (h : Allowed strict m γ (.expr init)) :
    Lowers strict m bal γ d (Lowering.referenceInit w init) := by
  have hexpr : Lowers strict m false γ d (w.expr init none) := hw.expr h .none
  refine .getFunction fun hd => .bind (hexpr hd) fun v d₁ ⟨g₁, hv⟩ => ?_
  have hclose {v : Value} {d₂ : Draft} (g₂ : Grows strict m false γ d d₂) (hv : Fits d₂ v) :
      Ensures d₂ (do w.closeScope d.func.cleanups.length; Pure.pure v) fun a d' =>
        Grows strict m bal γ d d' ∧ Fits d' a :=
    .bind (hw.closeScope h.admits g₂) fun _ _ ⟨g₃, hr⟩ => .pure ⟨g₃.unbalanced, hr.fits hv⟩
  dsimp only
  split
  · exact hclose g₁ hv
  · refine .bind (g₁.andThen (.addressOf hv)) fun address d₂ ⟨g₂, haddress⟩ => ?_
    exact .bind (g₂.andThen (.dereference haddress)) fun _ _ ⟨g₃, hv⟩ => hclose g₃ hv

theorem initialized {init : Option ExprId}
    (h : ∀ e ∈ init, Allowed strict m γ (.expr e)) :
    Lowers strict m bal γ d (Lowering.initialized m w ty init) := by
  refine .bind Silently.valueType.lowers fun cType _ _ _ => ?_
  split
  · exact .declareLocal
  · next init =>
    refine .lift fun e he => ?_
    split
    · next value hvalue =>
      have hfuncs : ∀ func ∈ value.funcs, m.Reached (.func func) := fun func hfunc =>
        (h init rfl).reached.ofExpr (eq_some_of_inRange he) _ (by simp [Module.itemsOf, Module.funcsOf, hvalue, hfunc])
      refine .bind (Silently.constantValue hfuncs).lowers fun _ _ _ hv => .lift fun _ he => ?_
      exact .declareWith (hv.of_renderParen he)
    · refine .bind .declareLocal fun storage _ _ hstorage => ?_
      exact .bind (.discard (hw.inScope (h init rfl) hstorage.some)) fun _ _ g _ => .pure (g.fits hstorage)

theorem variableDecl (hx : m.Reached (.var x))
    (h : ∀ e ∈ m.initOf x, Allowed strict m γ (.expr e)) :
    Lowers strict m false γ d (Lowering.variableDecl m w x) := by
  refine .lift fun decl hdecl => ?_
  have hinit : ∀ e ∈ decl.init, Allowed strict m γ (.expr e) := by
    intro e he
    refine h e ?_
    rw [Module.initOf, eq_some_of_inRange hdecl]
    exact Option.mem_toList.2 he
  split
  · refine .bind Silently.global?.lowers fun _ _ _ _ => ?_
    split
    · exact (Silently.defineGlobal hx).lowers
    · exact .pure (.of_nil rfl)
  · split
    · split
      · exact .throw
      · next init hsome =>
        exact .bind (.referenceInit hw (hinit init hsome)) fun _ _ _ hv => .bindVariable hx hv
    · exact .bind (.initialized hw hinit) fun _ _ _ hv => .bindVariable hx hv

end Lowers

/-! ### Loops -/

namespace Ensures

/-- A loop is entered and its block opened. -/
theorem beginLoop {α : Type} {b : Bool} {k : LoopState → Emit α} {Φ : α → Draft → Prop}
    (hd : WellMade m d)
    (hk : ∀ d', Writes m [.note .entersLoop, .line (.whileLoop (.nat 1)), .line .openBlock]
      (d.func.control.inLoop b) d d' → Ensures d' (k d.func.loop) Φ) :
    Ensures d (do
      let outer ← Emit.enterLoop b
      Emit.beginWhileTrue
      k outer) Φ := by
  have henter : Ensures d (Emit.enterLoop b) fun outer d' => d.func.loop = outer ∧
      Writes m [.note .entersLoop] { d.func.control.inLoop b with terminated := d.func.terminated } d d' := by
    refine .bind (.note hd nofun) fun _ d₁ h₁ => ?_
    refine .getFunction_bind (.getFunction_bind (.modifyFunction_bind (.pure ⟨?_, h₁.steps, ?_, ?_, ?_⟩)))
    · exact (congrArg Control.loop h₁.control).symm
    · exact congrArg (fun c : Control => { c.inLoop b with terminated := c.terminated }) h₁.control
    · exact h₁.made.congr rfl rfl rfl id (List.Subset.refl _) rfl le_rfl h₁.made.terminated
    · exact h₁.rest.trans ⟨rfl, rfl, .single (.body _), rfl⟩
  refine .bind henter ?_
  rintro _ d₁ ⟨rfl, h₁⟩
  refine .bind (.openAfter h₁.made) fun _ d₂ h₂ => hk d₂ ?_
  have h := h₁.trans h₂
  rwa [h₁.control] at h

theorem labelIfAny {label : Option Nat} (hd : WellMade m d) :
    Ensures d (Lowering.labelIfAny label) fun _ d' =>
      Writes m (labelSteps label) (if label.isSome then d.func.control.live else d.func.control) d d' := by
  cases label with
  | none => exact .pure ⟨(List.append_nil _).symm, rfl, hd, .refl m d⟩
  | some n => exact .line hd

/-- The block of a loop is closed and the loop left. -/
theorem endLoop {outer : LoopState} (hd : WellMade m d) :
    Ensures d (do
      Emit.endWhile
      let inner ← Emit.leaveLoop outer
      Lowering.labelIfAny inner.breakLabel
      Emit.note .leavesLoop) fun _ d' =>
      Writes m (.line .closeBlock :: (labelSteps d.func.loop.breakLabel ++ [.note .leavesLoop]))
        { d.func.control with loop := outer, terminated := false } d d' := by
  refine .bind (.closeBlock hd) fun _ d₁ h₁ => .bind (Q := fun inner d' => d.func.loop = inner ∧
    Writes m [] { d.func.control with loop := outer, terminated := false } d₁ d') ?_ ?_
  · refine .getFunction_bind (.modifyFunction_bind (.pure ⟨?_, (List.append_nil _).symm, ?_, ?_, ?_⟩))
    · exact (congrArg Control.loop h₁.control).symm
    · exact congrArg (fun c : Control => { c with loop := outer }) h₁.control
    · exact h₁.made.congr rfl rfl rfl id (List.Subset.refl _) rfl le_rfl h₁.made.terminated
    · exact ⟨rfl, rfl, .single (.body _), rfl⟩
  · rintro _ d₂ ⟨rfl, h₂⟩
    refine .bind (.labelIfAny h₂.made) fun _ d₃ h₃ => (Ensures.note (n := .leavesLoop) h₃.made nofun).mono fun _ d₄ h₄ => ?_
    have h := ((h₁.trans h₂).trans h₃).trans h₄
    rw [h₃.control, h₂.control] at h
    cases hlabel : d.func.loop.breakLabel with
    | none => simpa [hlabel, labelSteps] using h
    | some n => simpa [hlabel, labelSteps, Control.live] using h

end Ensures

namespace Lowers

include hw

/-- The test at the top of a loop, which leaves the loop. -/
theorem loopTest {test : ExprId} (h : Allowed strict m γ (.expr test))
    (hγ : γ.jumps = true) (hbase : d.func.cleanups.length = d.func.loop.cleanupBase)
    (hswitch : d.func.loop.inSwitch = false) :
    Lowers strict m true γ d (Lowering.loopTest w test) := by
  refine .bind (.condition hw h) fun test d₁ g₁ htest hd₁ => ?_
  obtain ⟨L, -, hemits⟩ := g₁.emits
  have hbase : d₁.func.control.cleanups.length = d₁.func.control.loop.cleanupBase := by
    have hcleanups : d₁.func.control.cleanups = d.func.cleanups := g₁.balanced rfl
    rw [hcleanups, hbase]
    exact hemits.grown.cleanupBase.symm
  have hswitch : d₁.func.control.loop.inSwitch = false := hemits.grown.inSwitch.trans hswitch
  have hopen : Ensures d₁ (Emit.beginIfNot test) fun _ d' => ∃ e : C.Expr, Fits d₁ e ∧
      Writes m [.line (.ifThen e), .line .openBlock] d₁.func.control.live d₁ d' :=
    .lift_bind fun e he => (Ensures.openAfter hd₁).mono fun _ _ hw =>
      ⟨.before "!" e, (htest.of_renderParen he : Fits d₁ e), hw⟩
  refine .bind hopen fun _ d₂ ⟨e, he, h₂⟩ => .bind (.exitLine h₂.made) fun _ d₃ h₃ => ?_
  refine (Ensures.closeBlock h₃.made).mono fun _ d₄ h₄ => ⟨?_, .of_nil rfl⟩
  have h := (h₂.trans h₃).trans h₄
  rw [h₃.control, h₂.control] at h
  have hleaves : Emits strict m γ .code d₁.func.control.live [.line .breakOut, .note .ends]
      d₁.func.control.live.dead := .leaves hγ hbase hswitch
  exact h.grows (.ifThen he hleaves rfl .chainNil) fun _ => rfl

/-- What is written of a loop after its body. -/
structure LoopClosed (strict : Bool) (m : Module) (γ : Exits) (iterates : Bool) (outer : LoopState)
    (d d' : Draft) : Prop where
  written : ∃ I c, d'.func.steps.toList = d.func.steps.toList ++
      (labelSteps d.func.loop.continueLabel ++ iterationSteps iterates I ++
        .line .closeBlock :: (labelSteps c.loop.breakLabel ++ [.note .leavesLoop])) ∧
    Emits strict m γ.inIteration .code
      (if d.func.loop.continueLabel.isSome then d.func.control.live else d.func.control) I c ∧
    c.cleanups = d.func.cleanups ∧ (iterates = false → I = []) ∧
    d'.func.control = { c with loop := outer, terminated := false }
  made : WellMade m d'
  rest : Rest m d d'

theorem closeLoop {iteration : Option ExprId} {outer : LoopState}
    (hiteration : ∀ e ∈ iteration, Allowed strict m γ.inIteration (.expr e))
    (hnone : iteration.isSome = false → d.func.loop.continueLabel = none) (hd : WellMade m d) :
    Ensures d (do
      match iteration with
      | some iteration =>
        Lowering.labelIfAny (← Emit.getFunction (·.loop.continueLabel))
        Emit.note .iterates
        Functor.discard (w.inScope iteration none)
      | none => Pure.pure ()
      Emit.endWhile
      let inner ← Emit.leaveLoop outer
      Lowering.labelIfAny inner.breakLabel
      Emit.note .leavesLoop) fun _ d' => LoopClosed strict m γ iteration.isSome outer d d' := by
  cases iteration with
  | none =>
    refine (Ensures.endLoop hd).mono fun _ d' h => ⟨⟨[], d.func.control, ?_, ?_, rfl, fun _ => rfl, h.control⟩,
      h.made, h.rest⟩
    · rw [h.steps, hnone rfl]
      rfl
    · rw [hnone rfl]
      exact .nil
  | some iteration =>
    refine .getFunction_bind ?_
    refine .bind (.labelIfAny hd) fun _ d₁ h₁ => .bind (.note h₁.made nofun) fun _ d₂ h₂ => ?_
    have hscope : Lowers strict m true γ.inIteration d₂ (Functor.discard (w.inScope iteration none)) :=
      .discard (hw.inScope (hiteration iteration rfl) .none)
    refine .bind (hscope h₂.made) fun _ d₃ ⟨g₃, _⟩ => (Ensures.endLoop g₃.made).mono fun _ d₄ h₄ => ?_
    obtain ⟨I, hI, he⟩ := g₃.emits
    rw [h₂.control, h₁.control] at he
    refine ⟨⟨I, d₃.func.control, ?_, he, ?_, nofun, h₄.control⟩, h₄.made,
      ((h₁.rest.trans h₂.rest).trans g₃.rest).trans h₄.rest⟩
    · rw [h₄.steps, hI, h₂.steps, h₁.steps]
      simp [iterationSteps]
      rfl
    · have hcontrol := congrArg Control.cleanups (h₂.control.trans h₁.control)
      refine (g₃.balanced rfl).trans (hcontrol.trans ?_)
      split <;> rfl

theorem loop {test iteration : Option ExprId} {body : Emit Unit}
    (htest : ∀ e ∈ test, Allowed strict m γ.inLoop (.expr e))
    (hiteration : ∀ e ∈ iteration, Allowed strict m γ.inIteration (.expr e))
    (hbody : ∀ d₁, Retains d d₁ → Lowers strict m true γ.inLoop d₁ body) :
    Lowers strict m bal γ d (Lowering.loop w test iteration body) := by
  refine fun hd => .beginLoop hd fun d₁ h₁ => ?_
  have hretains : Retains d d₁ := fun ns hns => h₁.control ▸ hns
  have hloop : d₁.func.control.loop =
      { cleanupBase := d.func.cleanups.length, continueNeedsLabel := iteration.isSome } :=
    congrArg Control.loop h₁.control
  have hnone {d₂ : Draft} (g₂ : Grows strict m true γ.inLoop d₁ d₂) (h : iteration.isSome = false) :
      d₂.func.loop.continueLabel = none := by
    obtain ⟨X, -, he⟩ := g₂.emits
    refine (he.grown.unneeded ?_).trans (congrArg LoopState.continueLabel hloop)
    exact (congrArg LoopState.continueNeedsLabel hloop).trans h
  -- the test and the body are written, and then the rest of the loop
  have hgrows {d₂ d₃ : Draft} (g₂ : Grows strict m true γ.inLoop d₁ d₂)
      (h₃ : LoopClosed strict m γ iteration.isSome d.func.loop d₂ d₃) : Grows strict m bal γ d d₃ := by
    obtain ⟨X, hX, he⟩ := g₂.emits
    obtain ⟨I, c, hsteps, hI, hbal, hempty, hcontrol⟩ := h₃.written
    have hcleanups : d₂.func.control.cleanups = d.func.control.cleanups :=
      (g₂.balanced rfl).trans (congrArg Control.cleanups h₁.control)
    rw [h₁.control] at he
    have hloop := Emits.loop he hcleanups rfl hI (hbal.trans hcleanups) hempty
    refine ⟨⟨_, ?_, hcontrol ▸ hloop⟩, fun _ => ?_, h₃.made, (h₁.rest.trans g₂.rest).trans h₃.rest⟩
    · rw [hsteps, hX, h₁.steps]
      simp [FunctionDraft.control]
    · exact (congrArg Control.cleanups hcontrol).trans (hbal.trans hcleanups)
  dsimp only
  split
  · next test =>
    have hrun : Lowers strict m true γ.inLoop d₁ (Lowering.loopTest w test) := by
      refine .loopTest hw (htest test rfl) rfl ?_ (congrArg LoopState.inSwitch hloop)
      exact (congrArg (·.cleanups.length) h₁.control).trans (congrArg LoopState.cleanupBase hloop).symm
    refine .bind (hrun h₁.made) fun _ d₂ ⟨g₂, _⟩ => ?_
    refine .bind (g₂.andThen (hbody d₂ (hretains.trans g₂.retains))) fun _ d₃ ⟨g₃, _⟩ => ?_
    exact (closeLoop hw hiteration (hnone g₃) g₃.made).mono fun _ _ h => ⟨hgrows g₃ h, .of_nil rfl⟩
  · refine .bind (hbody d₁ hretains h₁.made) fun _ d₂ ⟨g₂, _⟩ => ?_
    exact (closeLoop hw hiteration (hnone g₂) g₂.made).mono fun _ _ h => ⟨hgrows g₂ h, .of_nil rfl⟩

theorem foreachLoop {range iter last element : VarId}
    {test iteration body : ExprId} (ha : Admits strict m γ)
    (hvars : ∀ x ∈ [range, iter, last, element], m.Reached (.var x))
    (hinit : ∀ x ∈ [range, iter, last], ∀ e ∈ m.initOf x, Allowed strict m γ (.expr e))
    (htest : Allowed strict m γ.inLoop (.expr test))
    (hiteration : Allowed strict m γ.inIteration (.expr iteration))
    (helement : ∀ e ∈ m.initOf element, Allowed strict m γ.inLoop (.expr e))
    (hbody : Allowed strict m γ.inLoop (.expr body)) :
    Lowers strict m bal γ d
      (Lowering.foreachLoop m w range iter last test iteration element body) := by
  have hround {d₁ : Draft} : Lowers strict m true γ.inLoop d₁ (do
      let bodyMark ← Emit.scopeMark
      Lowering.variableDecl m w element
      Functor.discard (w.inScope body none)
      w.closeScope bodyMark) := by
    refine .getFunction fun hd₁ => .bind (Lowers.variableDecl hw (hvars element (by simp)) helement hd₁) fun _ d₂ ⟨g₂, _⟩ => ?_
    refine .bind (g₂.andThen (.discard (hw.inScope hbody .none))) fun _ d₃ ⟨g₃, _⟩ => ?_
    exact (hw.closeScope hbody.admits g₃).mono fun _ _ ⟨g₄, _⟩ => ⟨g₄, .of_nil rfl⟩
  refine .getFunction fun hd => ?_
  refine .bind (Lowers.variableDecl hw (hvars range (by simp)) (hinit range (by simp)) hd) fun _ d₁ ⟨g₁, _⟩ => ?_
  refine .bind (g₁.andThen (.variableDecl hw (hvars iter (by simp)) (hinit iter (by simp)))) fun _ d₂ ⟨g₂, _⟩ => ?_
  refine .bind (g₂.andThen (.variableDecl hw (hvars last (by simp)) (hinit last (by simp)))) fun _ d₃ ⟨g₃, _⟩ => ?_
  refine .bind (g₃.andThen (.loop hw ?_ ?_ fun _ _ => hround)) fun _ d₄ ⟨g₄, _⟩ => ?_
  · rintro _ ⟨⟩
    exact htest
  · rintro _ ⟨⟩
    exact hiteration
  · exact (hw.closeScope ha g₄).mono fun _ _ ⟨g₅, _⟩ => ⟨g₅.unbalanced, .of_nil rfl⟩

/-! ### Return -/

/-- All cleanups are run, and the function returns. -/
theorem returnAfter (ha : Admits strict m γ) (hγ : γ.returns = true)
    {value : Option Value} :
    Lowers strict m bal γ d (do w.runAllCleanups; Emit.returnWith value) := by
  intro hd
  refine .bind (hw.runAllCleanups (γ := γ) ha hd) fun _ d₁ s₁ => ?_
  obtain ⟨L, hL, he⟩ := s₁.written
  have hline {e : Option C.Expr} : Ensures d₁ (Emit.exitLine (.returnWith e)) fun a d' =>
      Grows strict m bal γ d d' ∧ Fits d' a := by
    refine (Ensures.exitLine s₁.made).mono fun _ d₂ h₂ => ⟨?_, .of_nil rfl⟩
    refine ⟨⟨_, ?_, h₂.control ▸ Emits.returns (e := e) hγ he⟩, fun _ => ?_, h₂.made, s₁.rest.trans h₂.rest⟩
    · rw [h₂.steps, hL, List.append_assoc]
    · exact (congrArg Control.cleanups h₂.control).trans he.balanced.1
  cases value with
  | some v => exact .lift_bind fun _ _ => hline
  | none => exact hline

theorem finishReturn (ha : Admits strict m γ) (hγ : γ.returns = true)
    {value : Option Value} : Lowers strict m bal γ d (Lowering.finishReturn w value) := by
  refine .getFunction ?_
  split
  · exact .pure (.of_nil rfl)
  · exact .returnAfter hw ha hγ

theorem returnValue {id : ExprId} (h : Allowed strict m γ (.expr id))
    (hγ : γ.returns = true) : Lowers strict m false γ d (Lowering.returnValue w id) := by
  have hfinish {value : Option Value} {d₁ : Draft} :
      Lowers strict m false γ d₁ (Lowering.finishReturn w value) := .finishReturn hw h.admits hγ
  refine .getFunction ?_
  split
  · exact .bind (.discard (hw.expr h .none)) fun _ _ _ _ => hfinish
  · refine .getFunction ?_
    split
    · exact .throw
    · next haddress =>
      intro hd
      refine Lowers.bind (.discard (hw.expr h ?_)) (fun _ _ _ _ => hfinish) hd
      exact haddress ▸ hd.returnAddress
  · refine .bind (hw.expr h .none) fun v _ _ hv => ?_
    split
    · exact .pure (.of_nil rfl)
    · refine .bind (.addressOf hv) fun _ _ _ haddress => ?_
      exact .bind (.copyToLocal haddress) fun _ _ _ _ => hfinish
  · refine .bind (hw.expr h .none) fun v _ _ hv => ?_
    split
    · exact .pure (.of_nil rfl)
    · refine .cleanupsSince fun _ => ?_
      dsimp only
      split
      · exact hfinish
      · exact .bind (.copyToLocal hv) fun _ _ _ _ => hfinish

theorem returnStmt {value : Option ExprId} (ha : Admits strict m γ)
    (h : ∀ e ∈ value, Allowed strict m γ (.expr e)) (hγ : γ.returns = true) :
    Lowers strict m false γ d (Lowering.returnStmt w value) := by
  unfold Lowering.returnStmt
  split
  · next id => exact .returnValue hw (h id rfl) hγ
  · exact .returnAfter hw ha hγ

/-! ### Statements -/

theorem stmt {id : StmtId} {s : Stmt} (hs : m.stmt? id = some s)
    (h : Allowed strict m γ (.stmt id)) : Lowers strict m false γ d (Lowering.statement m w s) := by
  unfold Lowering.statement
  cases s with
  | expression e =>
    refine .discard (hw.inScope (h.child ?_) .none)
    simp [Module.exposed, Module.children, Module.exprsOf, hs]
  | varDecl x =>
    refine .variableDecl hw (h.reached.ofStmt hs _ (by simp [Stmt.items])) fun e he => h.child ?_
    simp [Module.exposed, Module.children, Module.exprsOf, hs, he]
  | whileLoop test body =>
    refine .loop hw ?_ (by simp) fun _ _ => ?_
    · rintro _ ⟨⟩
      exact h.inLoop (by simp [Module.children, Module.exprsOf, hs])
    · refine .discard (hw.inScope (h.inLoop ?_) .none)
      simp [Module.children, Module.exprsOf, hs]
  | forLoop init test iteration body =>
    have hloop {d₁ : Draft} : Lowers strict m false γ d₁
        (Lowering.loop w test iteration (Functor.discard (w.inScope body none))) := by
      refine .loop hw ?_ ?_ fun _ _ => ?_
      · rintro e rfl
        exact h.inLoop (by simp [Module.children, Module.exprsOf, hs])
      · rintro e rfl
        exact h.inIteration (by simp [Module.children, Module.exprsOf, hs]) hs rfl
      · refine .discard (hw.inScope (h.inLoop ?_) .none)
        simp [Module.children, Module.exprsOf, hs]
    refine .getFunction fun hd => ?_
    have hclose {d₁ : Draft} (g₁ : Grows strict m false γ d d₁) :
        Ensures d₁ (do
          Lowering.loop w test iteration (Functor.discard (w.inScope body none))
          w.closeScope d.func.cleanups.length) fun a d' => Grows strict m false γ d d' ∧ Fits d' a := by
      refine .bind (g₁.andThen hloop) ?_
      rintro _ d₂ ⟨g₂, -⟩
      refine (hw.closeScope h.admits g₂).mono ?_
      rintro _ _ ⟨g₃, -⟩
      exact ⟨g₃.unbalanced, .of_nil rfl⟩
    dsimp only
    split
    · next init =>
      have hinit : Lowers strict m false γ d (w.stmt init) :=
        hw.stmt (h.child (by simp [Module.exposed, hs]))
      refine .bind (hinit hd) ?_
      rintro _ _ ⟨g₁, -⟩
      exact hclose g₁
    · exact hclose (.refl hd)
  | foreachLoop range iter last test iteration element body =>
    refine .foreachLoop hw h.admits (fun x hx => h.reached.ofStmt hs _ ?_) (fun x hx e he => h.child ?_)
      (h.inLoop ?_) (h.inIteration ?_ hs rfl) (fun e he => h.inLoop ?_) (h.inLoop ?_)
    · exact List.mem_append_left _ (List.mem_map_of_mem hx)
    · simp only [Module.exposed, hs]
      exact List.mem_map_of_mem (List.mem_flatMap.2 ⟨x, hx, he⟩)
    · simp [Module.children, Module.exprsOf, hs]
    · simp [Module.children, Module.exprsOf, hs]
    · simp [Module.children, Module.exprsOf, hs, he]
    · simp [Module.children, Module.exprsOf, hs]
  | returnWith value =>
    refine .returnStmt hw h.admits ?_ (h.returns _ .refl ⟨value, hs⟩)
    rintro e rfl
    exact h.child (by simp [Module.exposed, Module.children, Module.exprsOf, hs])
  | defer cleanup =>
    refine .addCleanup (.deferred hs) (.of_nil rfl) .none fun call hcall => ?_
    exact h.reached.ofStmt hs _ (List.mem_map_of_mem (Option.mem_toList.2 hcall))
  | noOp | staticAssert => exact .pure (.of_nil rfl)

end Lowers

end CBackend
