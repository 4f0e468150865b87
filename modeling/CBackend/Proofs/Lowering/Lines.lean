import CBackend.Proofs.Lowering.Growth

/-!
# Lines and values in growing drafts

What the operations that write lines and make values do: they write statements that mention only
values that may be used, and what they give back may be used.
-/

namespace CBackend

open IR Flow Emission
open C (CType Precedence)

variable {α : Type} {op : String} {p : Precedence} {l : C.Line} {index n : Nat} {flags : ValueFlags} {ty : CType}

/-! ### Expressions of values -/

namespace Fits

variable {d : Draft} {v w : Value} {e : C.Expr}

theorem parenIf {b : Bool} (h : Fits d e) : Fits d (C.Expr.parenIf b e) :=
  Within.parenIf h

theorem of_render (hv : Fits d v) (h : v.render = .ok e) : Fits d e :=
  Within.of_render hv h

theorem of_renderParen {b : Bool} (hv : Fits d v) (h : v.renderParen b = .ok e) : Fits d e :=
  Within.of_renderParen hv h

theorem of_binary (hv : Fits d v) (hw : Fits d w) (h : v.binary op w p = .ok e) : Fits d e :=
  Within.of_binary hv hw h

theorem of_address (hv : Fits d v) (h : v.address = .ok e) : Fits d e :=
  Within.of_address hv h

theorem of_member {field : C.Field} (hv : Fits d v) (h : v.member field = .ok e) : Fits d e :=
  Within.of_member hv h

/-- An expression in parts. -/
theorem expr_list {es : List C.Expr} (h : Fits d es) : d.func.control.Fits (C.Expr.localsEach es) :=
  Within.expr_list h

end Fits

/-! ### Steps -/

theorem endsNoted_append (steps : List Step) (s : Step) :
    endsNoted (steps ++ [s]) = match s with
      | .line _ => false
      | .note .ends => true
      | .note _ => endsNoted steps := by
  rw [endsNoted, List.foldl_append]
  rcases s with l | n
  · rfl
  · cases n <;> rfl

/-- Steps are written, after which the function is in a given state; nothing else happens. -/
structure Writes (m : Module) (L : List Step) (c : Control) (d d' : Draft) : Prop where
  steps : d'.func.steps.toList = d.func.steps.toList ++ L
  control : d'.func.control = c
  made : WellMade m d'
  rest : Rest m d d'

section

variable {strict : Bool} {m : Module} {bal : Bool} {γ : Exits} {d d₁ d₂ : Draft} {L L' : List Step}
  {c c' : Control}

theorem Writes.trans (h : Writes m L c d d₁) (h' : Writes m L' c' d₁ d₂) :
    Writes m (L ++ L') c' d d₂ :=
  ⟨by rw [h'.steps, h.steps, List.append_assoc], h'.control, h'.made, h.rest.trans h'.rest⟩

theorem Writes.grows (h : Writes m L c d d₁) (he : Emits strict m γ .code d.func.control L c)
    (hbal : bal = true → c.cleanups = d.func.cleanups) : Grows strict m bal γ d d₁ := by
  refine ⟨⟨L, h.steps, h.control ▸ he⟩, fun hb => ?_, h.made, h.rest⟩
  have hcleanups : d₁.func.cleanups = c.cleanups := congrArg Control.cleanups h.control
  exact hcleanups.trans (hbal hb)

/-- What could be used before can be used after. -/
theorem Writes.fits [Mentions α] {a : α} (h : Writes m L c d d₁) (ha : Fits d a) (hcounter : d.func.counter ≤ c.counter)
    (hindicators : c.indicators = d.func.indicators) :
    Fits d₁ a :=
  ha.congr ((congrArg Control.indicators h.control).trans hindicators)
    (hcounter.trans_eq (congrArg Control.counter h.control).symm)

theorem Ensures.line (hd : WellMade m d) :
    Ensures d (Emit.line l) fun _ d' => Writes m [.line l] d.func.control.live d d' := by
  refine .modifyFunction ⟨Array.toList_push .., rfl, ?_, rfl, rfl, .single (.body _), rfl⟩
  refine hd.congr rfl rfl rfl id (List.Subset.refl _) rfl le_rfl ?_
  rw [Array.toList_push, endsNoted_append]

/-- Writes a note after which control may be where it was before. -/
theorem Ensures.note {n : Note} (hd : WellMade m d) (hn : n ≠ .ends) :
    Ensures d (Emit.note n) fun _ d' => Writes m [.note n] d.func.control d d' := by
  refine .modifyFunction ⟨Array.toList_push .., rfl, ?_, rfl, rfl, .single (.body _), rfl⟩
  refine hd.congr rfl rfl rfl id (List.Subset.refl _) rfl le_rfl ?_
  rw [Array.toList_push, endsNoted_append]
  cases n <;> first | exact hd.terminated | exact absurd rfl hn

/-- Control is said not to get past the last line. -/
theorem Ensures.setTerminated (hd : WellMade m d) :
    Ensures d (Emit.setTerminated true) fun _ d' => Writes m [.note .ends] d.func.control.dead d d' := by
  refine .bind (Q := fun _ d' => d' = { d with func.steps := d.func.steps.push (.note .ends) })
    (.modifyFunction rfl) ?_
  rintro _ _ rfl
  refine .modifyFunction ⟨Array.toList_push .., rfl, ?_, rfl, rfl, .single (.body _), rfl⟩
  refine hd.congr rfl rfl rfl id (List.Subset.refl _) rfl le_rfl ?_
  rw [Array.toList_push, endsNoted_append]

theorem Ensures.exitLine (hd : WellMade m d) :
    Ensures d (Emit.exitLine l) fun _ d' =>
      Writes m [.line l, .note .ends] d.func.control.dead d d' := by
  refine .bind (.line hd) fun _ d₁ h => ?_
  refine (Ensures.setTerminated h.made).mono fun _ d₂ h' => ?_
  have := h.trans h'
  rwa [h.control] at this

theorem Ensures.openBlock (hd : WellMade m d) :
    Ensures d Emit.openBlock fun _ d' => Writes m [.line .openBlock] d.func.control.live d d' := by
  refine .bind (.line hd) fun _ d₁ h => .modifyFunction ⟨h.steps, h.control, ?_, ?_⟩
  · exact h.made.congr rfl rfl rfl id (List.Subset.refl _) rfl le_rfl h.made.terminated
  · exact h.rest.trans ⟨rfl, rfl, .single (.body _), rfl⟩

theorem Ensures.closeBlock (hd : WellMade m d) :
    Ensures d Emit.closeBlock fun _ d' => Writes m [.line .closeBlock] d.func.control.live d d' := by
  refine .bind (.getFunction (Φ := fun _ d' => d = d') rfl) ?_
  rintro indent _ rfl
  refine .when (Q := fun d' => d = d') (fun _ => .throw) (fun _ => rfl) ?_
  rintro _ rfl
  refine .bind (Q := fun _ d' => d' = { d with func.indent := d.func.indent - 1 })
    (.modifyFunction rfl) ?_
  rintro _ _ rfl
  have hrest : Rest m d { d with func.indent := d.func.indent - 1 } :=
    ⟨rfl, rfl, .single (.body _), rfl⟩
  refine (Ensures.line ?_).mono fun _ d₁ h => ⟨h.steps, h.control, h.made, hrest.trans h.rest⟩
  exact hd.congr rfl rfl rfl id (List.Subset.refl _) rfl le_rfl hd.terminated

/-- A number is given out. -/
theorem Ensures.freshNumber (hd : WellMade m d) :
    Ensures d Emit.freshNumber fun n d' => d.func.counter = n ∧
      Writes m [] { d.func.control with counter := d.func.counter + 1 } d d' := by
  refine .getFunction_bind ?_
  refine .modifyFunction_bind (.pure ⟨rfl, (List.append_nil _).symm, rfl, ?_, rfl, rfl,
    .single (.body _), rfl⟩)
  exact hd.congr rfl rfl rfl id (List.Subset.refl _) rfl (Nat.le_succ _) hd.terminated

/-- A statement is written. -/
theorem Lowers.line (hl : isStatement l = true) (h : d.func.control.Fits l.locals) :
    Lowers strict m bal γ d (Emit.line l) :=
  fun hd => (Ensures.line hd).mono fun _ _ hw => ⟨hw.grows (.line hl h) fun _ => rfl, .of_nil rfl⟩

/-! ### Computations that leave the body alone -/

theorem Ensures.newValue {e : C.Expr} :
    Ensures d (Emit.newValue e flags p ty) fun v d' =>
      (∃ id, v = ⟨some ⟨id, e⟩, flags, p, ty⟩) ∧ Silent m d d' := by
  refine .get_bind ?_
  refine .bind (.modify (Φ := fun _ d' => Silent m d d') ?_) fun _ _ hs => .pure ⟨⟨_, rfl⟩, hs⟩
  exact ⟨rfl, id, rfl, rfl, .single (.value _), rfl⟩

namespace Silently

variable {e : C.Expr} {v w : Value}

theorem builtin {kind : Builtin} : Silently m d (Emit.builtin kind) := by
  refine .get ?_
  split
  · exact .pure (.of_nil rfl)
  · exact .throw

theorem boolType : Silently m d Emit.boolType :=
  .builtin

theorem sizeType : Silently m d Emit.sizeType :=
  .get .builtin

theorem typeText_bind [Mentions α] {f : String → Emit α} (h : ∀ text, Silently m d (f text)) :
    Silently m d (Emit.typeText ty >>= f) := by
  intro hd
  refine .bind (Q := fun _ d' => d = d') (.bind (.get (Φ := fun _ d' => d = d') rfl) ?_) ?_
  · rintro _ _ rfl
    exact .pure rfl
  · rintro text _ rfl
    exact h text hd

theorem pointerTo {level : C.PointerLevel} :
    Silently m d (Emit.pointerTo ty level) := by
  unfold Emit.pointerTo
  split
  · exact .pure (.of_nil rfl)
  · exact .throw

theorem pointerFor {isConst : Bool} : Silently m d (Emit.pointerFor ty isConst) :=
  .pointerTo

theorem memberType : Silently m d (Emit.memberType ty index) := by
  refine .get ?_
  dsimp only
  split
  · refine .lift fun shape _ => ?_
    split
    · exact .ofExcept fun _ _ => .of_nil rfl
    · exact .throw
  · exact .lift fun shape _ => .pure (.of_nil rfl)
  · exact .throw

theorem arrayShape : Silently m d (Emit.arrayShape ty) := by
  refine .get ?_
  dsimp only
  split
  · exact .ofExcept fun _ _ => .of_nil rfl
  · exact .throw

theorem newValue (h : Fits d e) :
    Silently m d (Emit.newValue e flags p ty) := by
  refine fun _ => (Ensures.newValue (m := m)).mono ?_
  rintro _ d₁ ⟨⟨id, rfl⟩, hs⟩
  exact ⟨hs, hs.fits h⟩

theorem rvalue (h : Fits d e) :
    Silently m d (Emit.rvalue e ty p) :=
  .newValue h

theorem inlineValue (h : Fits d e) :
    Silently m d (Emit.inlineValue e ty p flags) :=
  .newValue h

theorem member (hv : Fits d v) : Silently m d (Emit.member v index) :=
  .bind .memberType fun _ _ s₁ _ => .lift fun _ he => .inlineValue ((s₁.fits hv).of_member he)

theorem integer : Silently m d (Emit.integer ty n) :=
  .rvalue (.of_nil rfl)

theorem addVariable {v : C.StaticVariable} : Silently m d (Emit.addVariable v) :=
  .modify ⟨rfl, id, rfl, rfl, .single (.statics _ _ _ _), rfl⟩

theorem internString {s : String} : Silently m d (Emit.internString s) := by
  refine .get ?_
  split
  · exact .pure (.of_nil rfl)
  · refine .bind .builtin fun _ d₁ _ _ => .bind (.modify ?_) fun _ d₂ _ _ => ?_
    · exact ⟨rfl, id, rfl, rfl, .single (.statics _ _ _ _), rfl⟩
    · exact .bind .addVariable fun _ d₃ _ _ => .pure (.of_nil rfl)

end Silently

namespace Lowers

/-- Reads from the function. -/
theorem getFunction {β : Type} [Mentions α] {g : FunctionDraft → β} {f : β → Emit α}
    (h : Lowers strict m bal γ d (f (g d.func))) :
    Lowers strict m bal γ d (Emit.getFunction g >>= f) := by
  intro hd
  refine .getFunction_bind ?_
  exact h hd

/-! ### Values -/

variable {e e' : C.Expr} {v w : Value}

theorem statement (h : Fits d e) : Lowers strict m bal γ d (Emit.statement e) :=
  .line rfl h

theorem newValue (h : Fits d e) :
    Lowers strict m bal γ d (Emit.newValue e flags p ty) :=
  (Silently.newValue h).lowers

theorem rvalue (h : Fits d e) :
    Lowers strict m bal γ d (Emit.rvalue e ty p) :=
  .newValue h

theorem inlineValue (h : Fits d e) :
    Lowers strict m bal γ d (Emit.inlineValue e ty p flags) :=
  .newValue h

/-- A new number is given out. -/
theorem freshNumber_bind [Mentions α] {f : Nat → Emit α}
    (hf : ∀ n d₁, Grows strict m bal γ d d₁ → Fits d₁ (C.Expr.name (.localVar n)) →
      Lowers strict m bal γ d₁ (f n)) :
    Lowers strict m bal γ d (Emit.freshNumber >>= f) := by
  intro hd
  refine .bind (.freshNumber hd) ?_
  rintro _ d₁ ⟨rfl, hw⟩
  have hg : Grows strict m bal γ d d₁ := hw.grows .number fun _ => rfl
  have hn : Fits d₁ (C.Expr.name (.localVar d.func.counter)) := by
    intro n hn
    obtain rfl : n = d.func.counter := by simpa [Mentions.locals, C.Expr.locals] using hn
    rw [hw.control]
    refine ⟨Nat.lt_succ_self _, fun entry hentry heq => ?_⟩
    obtain ⟨i, ⟨id, ty, hflag⟩, hlt⟩ := hd.indicators entry hentry
    rw [hflag] at heq
    cases heq
    exact lt_irrefl _ hlt
  exact (hf _ d₁ hg hn hg.made).mono fun a d₂ ⟨hg', ha⟩ => ⟨hg.trans hg', ha⟩

theorem variableValue {n : C.Name} (h : Fits d (C.Expr.name n)) :
    Lowers strict m bal γ d (Emit.variableValue n ty) :=
  .newValue h

theorem referenceValue {n : C.Name} {isConst : Bool} (h : Fits d (C.Expr.name n)) :
    Lowers strict m bal γ d (Emit.referenceValue n ty isConst) :=
  .newValue h

theorem declareLocal : Lowers strict m bal γ d (Emit.declareLocal ty) := by
  refine .freshNumber_bind fun n d₁ _ hn => ?_
  exact .bind (.line rfl hn) fun _ d₂ g₂ _ => .variableValue (g₂.fits hn)

theorem declare (hn : Fits d (C.Expr.name (.localVar n))) (he : Fits d e) :
    Lowers strict m bal γ d (Emit.line (.declare ty n (some e))) :=
  .line rfl (hn.prod he)

theorem declareWith (h : Fits d e) :
    Lowers strict m bal γ d (Emit.declareWith ty e) := by
  refine .freshNumber_bind fun n d₁ g₁ hn => ?_
  exact .bind (.declare hn (g₁.fits h)) fun _ d₂ g₂ _ => .variableValue (g₂.fits hn)

theorem copyToLocal (hv : Fits d v) : Lowers strict m bal γ d (Emit.copyToLocal v) :=
  .lift fun _ he => .declareWith (hv.of_renderParen he)

theorem materialize (hv : Fits d v) : Lowers strict m bal γ d (Emit.materialize v) := by
  unfold Emit.materialize
  split
  · exact .copyToLocal hv
  · exact .pure hv

theorem dereferenceText {pointer : CType} (h : Fits d e) :
    Lowers strict m bal γ d (Emit.dereferenceText pointer e) := by
  unfold Emit.dereferenceText
  split
  · refine .freshNumber_bind fun n d₁ g₁ hn => ?_
    exact .bind (.declare hn (g₁.fits h)) fun _ d₂ g₂ _ => .referenceValue (g₂.fits hn)
  · exact (Silently.typeText_bind fun _ => .throw).lowers

theorem dereference (hv : Fits d v) : Lowers strict m bal γ d (Emit.dereference v) :=
  .lift fun _ he => .dereferenceText (hv.of_renderParen he)

/-! ### Places -/

theorem member (hv : Fits d v) : Lowers strict m bal γ d (Emit.member v index) :=
  (Silently.member hv).lowers

theorem element (hv : Fits d v) (hw : Fits d w) : Lowers strict m bal γ d (Emit.element v w) := by
  refine .bind Silently.arrayShape.lowers fun _ _ g₁ _ => .lift fun _ hbase => .lift fun _ hindex => ?_
  exact .inlineValue (((g₁.fits hv).of_member hbase).prod ((g₁.fits hw).of_render hindex))

theorem elementAt (hv : Fits d v) :
    Lowers strict m bal γ d (Emit.elementAt v index) := by
  refine .bind Silently.arrayShape.lowers fun _ _ g₁ _ => .lift fun _ hbase => ?_
  exact .inlineValue (((g₁.fits hv).of_member hbase).prod (b := C.Expr.nat index) (.of_nil rfl))

theorem arrayData (hv : Fits d v) : Lowers strict m bal γ d (Emit.arrayData v) := by
  refine .bind Silently.arrayShape.lowers fun _ _ g₁ _ => .bind Silently.pointerFor.lowers fun _ _ g₂ _ => .lift fun _ he => ?_
  exact .inlineValue ((g₂.fits (g₁.fits hv)).of_member he)

theorem pointerElement (hv : Fits d v) (hw : Fits d w) :
    Lowers strict m bal γ d (Emit.pointerElement v w) := by
  unfold Emit.pointerElement
  split
  · refine .lift fun _ hbase => .lift fun _ hindex => ?_
    exact .inlineValue ((hv.of_renderParen hbase).prod (hw.of_render hindex))
  · exact (Silently.typeText_bind fun _ => .throw).lowers

theorem addressOf (hv : Fits d v) : Lowers strict m bal γ d (Emit.addressOf v) := by
  refine .bind (.materialize hv) fun v d₁ _ hv => .bind Silently.pointerFor.lowers fun _ d₂ g₂ _ => ?_
  split
  · exact .pure (g₂.fits hv)
  · exact .lift fun _ he => .rvalue ((g₂.fits hv).of_address he)

/-! ### Operations -/

theorem cast (hv : Fits d v) : Lowers strict m bal γ d (Emit.cast v ty) :=
  .lift fun e he => .rvalue (hv.of_renderParen he : Fits d e)

theorem binaryOperation (hv : Fits d v) (hw : Fits d w) : Lowers strict m bal γ d (Emit.binaryOperation v w op p ty) :=
  .lift fun _ he => .declareWith (hv.of_binary hw he).parenIf

theorem unaryOperation (hv : Fits d v) :
    Lowers strict m bal γ d (Emit.unaryOperation v op ty) :=
  .lift fun e he => .declareWith (hv.of_renderParen he : Fits d e)

theorem assignWith (hv : Fits d v) (hw : Fits d w) :
    Lowers strict m bal γ d (Emit.assignWith v w op) :=
  .lift fun _ he => .statement (hv.of_binary hw he)

theorem assign (hv : Fits d v) (hw : Fits d w) : Lowers strict m bal γ d (Emit.assign v w) :=
  .assignWith hv hw

theorem increment (hv : Fits d v) :
    Lowers strict m bal γ d (Emit.increment v op) :=
  .lift fun e he => .statement (hv.of_renderParen he : Fits d e)

/-- The values of a list as initialisers. -/
theorem initializers {vs : List Value} (hvs : Fits d vs) :
    Lowers strict m bal γ d (vs.mapM fun v => (liftM v.asInitializer : Emit C.Expr)) :=
  .mapM fun _ hv _ g => .ofExcept fun _ he => (g.fits (hvs.of_mem hv)).of_renderParen he

theorem structLiteral {vs : List Value} (hvs : Fits d vs) :
    Lowers strict m bal γ d (Emit.structLiteral ty vs) := by
  refine .bind (.initializers hvs) fun es d₁ _ hes => ?_
  exact .rvalue (e := .braces (some ty) .value es) hes.expr_list

theorem integer : Lowers strict m bal γ d (Emit.integer ty n) :=
  Silently.integer.lowers

theorem zeroValue : Lowers strict m bal γ d (Emit.zeroValue ty) := by
  unfold Emit.zeroValue
  split
  · exact .structLiteral .nil
  · exact .rvalue (.of_nil rfl)

end Lowers

end

end CBackend
