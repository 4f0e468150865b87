import CBackend.Proofs.Lowering.Constants

/-!
# Blocks in growing drafts

Conditionals, loops and switches are opened and closed by separate steps. In between, what the whole
construct is going to be is known up to the part that is still to come.
-/

namespace CBackend

open IR Flow Emission
open C (CType)

/-- What was written since an earlier draft, and the state that the function is in. -/
structure Since (m : Module) (Ψ : List Step → Control → Prop) (d d' : Draft) : Prop where
  written : ∃ B, d'.func.steps.toList = d.func.steps.toList ++ B ∧ Ψ B d'.func.control
  retains : Retains d d'
  made : WellMade m d'
  rest : Rest m d d'

section

variable (strict : Bool) (m : Module) (γ : Exits)

/-- Inside a block: whatever code is added, the block becomes what is said of it. -/
def Open (Φ : List Step → Control → Prop) (B : List Step) (c : Control) : Prop :=
  ∀ A c', Emits strict m γ .code c A c' → c'.cleanups = c.cleanups → Φ (B ++ A) c'

/-- The block of a conditional that may have further branches. The flag tells whether control leaves all
earlier branches for good. -/
def Conditional (d : Draft) (earlier : Bool) (B : List Step) (c : Control) : Prop :=
  c.cleanups = d.func.cleanups ∧ ∀ R c', Emits strict m γ .chain c.live R c' →
    Emits strict m γ .code d.func.control (B ++ .line .closeBlock :: R)
      { c' with terminated := earlier && (c.terminated && c'.terminated) }

/-- The block of the last branch of a conditional. -/
def Alternative (d : Draft) (earlier : Bool) (B : List Step) (c : Control) : Prop :=
  c.cleanups = d.func.cleanups ∧
    Emits strict m γ .code d.func.control (B ++ [.line .closeBlock])
      { c with terminated := earlier && c.terminated }

/-- The block of a loop over the elements of an array. -/
def Looping (d : Draft) (B : List Step) (c : Control) : Prop :=
  c.cleanups = d.func.cleanups ∧
    Emits strict m γ .code d.func.control (B ++ [.line .closeBlock]) c.live

/-- A switch, between its cases. The flag tells whether control leaves all earlier ones for good. -/
def Cases (d : Draft) (earlier : Bool) (B : List Step) (c : Control) : Prop :=
  c.cleanups = d.func.cleanups ∧ ∀ K c', Emits strict m γ .cases c.live K c' →
    Emits strict m γ .code d.func.control (B ++ (K ++ [.line .closeBlock]))
      { c' with loop.inSwitch := d.func.loop.inSwitch, terminated := earlier && c'.terminated }

/-- The block of a case of a switch. -/
def CaseBlock (d : Draft) (earlier : Bool) (B : List Step) (c : Control) : Prop :=
  Cases strict m γ d (earlier && c.terminated)
    (B ++ (caseEnd c.terminated ++ [.line .closeBlock])) c

/-- A switch after its last case. -/
def Switch (d : Draft) (earlier : Bool) (B : List Step) (c : Control) : Prop :=
  c.cleanups = d.func.cleanups ∧
    Emits strict m γ .code d.func.control (B ++ [.line .closeBlock])
      { c with loop.inSwitch := d.func.loop.inSwitch, terminated := earlier }

/-- The block of the default case of a switch. -/
def DefaultBlock (d : Draft) (earlier : Bool) (B : List Step) (c : Control) : Prop :=
  Switch strict m γ d (earlier && c.terminated)
    (B ++ (caseEnd c.terminated ++ [.line .closeBlock])) c

/-- A construct is closed. The flag tells whether control leaves all of its branches for good, which the
draft may not know yet. -/
def Joined (d : Draft) (terminated : Bool) (B : List Step) (c : Control) : Prop :=
  c.cleanups = d.func.cleanups ∧ (c.terminated = true → terminated = true) ∧
    Emits strict m γ .code d.func.control B { c with terminated }

end

variable {strict : Bool} {m : Module} {bal : Bool} {γ : Exits} {d d₁ d₂ : Draft} {L : List Step}
  {c : Control} {Φ Ψ Ψ' : List Step → Control → Prop} {earlier : Bool} {α : Type} {size : Nat} {x : Emit α}

namespace Since

/-- Steps are written. -/
theorem write (h : Since m Ψ d d₁) (hw : Writes m L c d₁ d₂)
    (hfits : ∀ ns, d₁.func.control.Fits ns → c.Fits ns)
    (hΨ : ∀ B, Ψ B d₁.func.control → Ψ' (B ++ L) c) : Since m Ψ' d d₂ := by
  obtain ⟨B, hB, hΨB⟩ := h.written
  refine ⟨⟨B ++ L, ?_, hw.control ▸ hΨ B hΨB⟩, fun ns hns => ?_, hw.made, h.rest.trans hw.rest⟩
  · rw [hw.steps, hB, List.append_assoc]
  · exact hw.control ▸ hfits ns (h.retains ns hns)

/-- The first steps are written. -/
theorem start (hw : Writes m L c d d₁) (hfits : ∀ ns, d.func.control.Fits ns → c.Fits ns)
    (hΨ : Ψ L c) : Since m Ψ d d₁ :=
  ⟨⟨L, hw.steps, hw.control ▸ hΨ⟩, fun ns hns => hw.control ▸ hfits ns hns, hw.made, hw.rest⟩

theorem mono (h : Since m Ψ d d₁) (hΨ : ∀ B, Ψ B d₁.func.control → Ψ' B d₁.func.control) :
    Since m Ψ' d d₁ := by
  obtain ⟨B, hB, hΨB⟩ := h.written
  exact ⟨⟨B, hB, hΨ B hΨB⟩, h.retains, h.made, h.rest⟩

theorem silent (h : Since m Ψ d d₁) (hs : Silent m d₁ d₂) : Since m Ψ d d₂ := by
  obtain ⟨hwritten, hretains, hmade, hrest⟩ := h
  refine ⟨hs.func ▸ hwritten, fun ns hns => ?_, hs.made hmade, hrest.trans hs.rest⟩
  exact hs.func ▸ hretains ns hns

theorem fits [Mentions α] {a : α} (h : Since m Ψ d d₁) (ha : Fits d a) : Fits d₁ a :=
  h.retains.fits ha

/-- Code is added to an open block. -/
theorem grow (h : Since m (Open strict m γ Φ) d d₁) (hg : Grows strict m true γ d₁ d₂) :
    Since m (Open strict m γ Φ) d d₂ := by
  obtain ⟨B, hB, hopen⟩ := h.written
  obtain ⟨A, hA, he⟩ := hg.emits
  have hcleanups := hg.balanced rfl
  refine ⟨⟨B ++ A, ?_, fun A' c' he' hc' => ?_⟩, h.retains.trans hg.retains, hg.made,
    h.rest.trans hg.rest⟩
  · rw [hA, hB, List.append_assoc]
  · rw [List.append_assoc]
    exact hopen (A ++ A') c' (he.append he') (hc'.trans hcleanups)

theorem run [Mentions α] (h : Since m (Open strict m γ Φ) d d₁) (hx : Lowers strict m true γ d₁ x) :
    Ensures d₁ x fun a d' =>
      Since m (Open strict m γ Φ) d d' ∧ Grows strict m true γ d₁ d' ∧ Fits d' a :=
  (hx h.made).mono fun _ _ ⟨hg, ha⟩ => ⟨h.grow hg, hg, ha⟩

/-- The block as it is. -/
theorem close (h : Since m (Open strict m γ Φ) d d₁) : Since m Φ d d₁ :=
  h.mono fun B hB => by simpa using hB [] d₁.func.control .nil rfl

/-- A construct after which control is taken to get on as the draft says. -/
theorem grows {t : Bool} (h : Since m (Joined strict m γ d t) d d₁) : Grows strict m bal γ d d₁ := by
  obtain ⟨B, hB, hcleanups, ht, he⟩ := h.written
  refine ⟨⟨B, hB, ?_⟩, fun _ => hcleanups, h.made, h.rest⟩
  cases hlive : d₁.func.control.terminated with
  | false =>
    have hsame : Control.live { d₁.func.control with terminated := t } = d₁.func.control := by
      rw [Control.live, ← hlive]
    exact hsame ▸ he.revive
  | true =>
    rw [ht hlive, ← hlive] at he
    exact he

end Since

/-- Code as a construct of its own. -/
theorem Grows.joined (h : Grows strict m true γ d d₁) :
    Since m (Joined strict m γ d d₁.func.terminated) d d₁ := by
  obtain ⟨B, hB, he⟩ := h.emits
  exact ⟨⟨B, hB, h.balanced rfl, id, he⟩, h.retains, h.made, h.rest⟩

/-- What a computation does after another one. -/
theorem Grows.andThen [Mentions α] (g : Grows strict m bal γ d d₁) (h : Lowers strict m bal γ d₁ x) :
    Ensures d₁ x fun a d' => Grows strict m bal γ d d' ∧ Fits d' a :=
  (h g.made).mono fun _ _ ⟨g', ha⟩ => ⟨g.trans g', ha⟩

/-- Inside the loop over the elements of an array that was opened since an earlier draft. -/
def InElements (strict : Bool) (m : Module) (γ : Exits) (d d' : Draft) : Prop :=
  ∃ d₀, Grows strict m true γ d d₀ ∧
    Since m (Open strict m (γ.inElements strict) (Looping strict m γ d₀)) d₀ d'

namespace InElements

theorem made (h : InElements strict m γ d d₁) : WellMade m d₁ :=
  h.elim fun _ h => h.2.made

theorem retains (h : InElements strict m γ d d₁) : Retains d d₁ :=
  h.elim fun _ h => h.1.retains.trans h.2.retains

theorem fits [Mentions α] {a : α} (h : InElements strict m γ d d₁) (ha : Fits d a) :
    Fits d₁ a :=
  h.retains.fits ha

theorem grow (h : InElements strict m γ d d₁) (hg : Grows strict m true (γ.inElements strict) d₁ d₂) :
    InElements strict m γ d d₂ :=
  h.imp fun _ h => ⟨h.1, h.2.grow hg⟩

theorem run [Mentions α] (h : InElements strict m γ d d₁) (hx : Lowers strict m true (γ.inElements strict) d₁ x) :
    Ensures d₁ x fun a d' => InElements strict m γ d d' ∧
      Grows strict m true (γ.inElements strict) d₁ d' ∧ Fits d' a :=
  (hx h.made).mono fun _ _ ⟨hg, ha⟩ => ⟨h.grow hg, hg, ha⟩

end InElements

namespace Ensures

/-! ### Conditionals -/

variable {e : C.Expr} {v w : Value}

/-- A line and the block that it opens. -/
theorem openAfter {l : C.Line} (hd : WellMade m d) :
    Ensures d (Emit.line l >>= fun _ => Emit.openBlock) fun _ d' =>
      Writes m [.line l, .line .openBlock] d.func.control.live d d' := by
  refine .bind (.line hd) fun _ d₁ h₁ => (Ensures.openBlock h₁.made).mono fun _ d₂ h₂ => ?_
  have h := h₁.trans h₂
  rwa [h₁.control] at h

theorem beginIfExpr (hd : WellMade m d) (he : Fits d e) :
    Ensures d (Emit.beginIfExpr e) fun _ d' =>
      Since m (Open strict m γ (Conditional strict m γ d true)) d d' :=
  (openAfter hd).mono fun _ _ hw => .start hw (fun _ h => h) fun _ _ hA hbal =>
    ⟨hbal, fun _ _ hR => .ifThen he hA hbal hR⟩

theorem beginIf (hd : WellMade m d) (hv : Fits d v) :
    Ensures d (Emit.beginIf v) fun _ d' =>
      Since m (Open strict m γ (Conditional strict m γ d true)) d d' := by
  refine .lift_bind fun e he => ?_
  exact .beginIfExpr hd (hv.of_render he)

theorem beginIfNot (hd : WellMade m d) (hv : Fits d v) :
    Ensures d (Emit.beginIfNot v) fun _ d' =>
      Since m (Open strict m γ (Conditional strict m γ d true)) d d' := by
  refine .lift_bind fun e he => ?_
  exact .beginIfExpr hd (hv.of_renderParen he : Fits d e)

theorem beginIfDistinct (hd : WellMade m d) (hv : Fits d v) (hw : Fits d w) :
    Ensures d (Emit.beginIfDistinct v w) fun _ d' =>
      Since m (Open strict m γ (Conditional strict m γ d true)) d d' := by
  refine .lift_bind fun e he => ?_
  refine .lift_bind fun e' he' => ?_
  exact .beginIfExpr hd ((hv.of_address he).prod (hw.of_address he'))

/-- Goes on to the alternative of a conditional. -/
theorem beginElse (h : Since m (Open strict m γ (Conditional strict m γ d earlier)) d d₁) :
    Ensures d₁ Emit.beginElse fun _ d' =>
      Since m (Open strict m γ (Alternative strict m γ d (earlier && d₁.func.terminated))) d d' := by
  refine .bind (.closeBlock h.made) fun _ d₂ h₂ => (openAfter h₂.made).mono fun _ d₃ h₃ => ?_
  have hw := h₂.trans h₃
  rw [h₂.control] at hw
  refine h.close.write hw (fun _ h => h) fun B ⟨hcleanups, hchain⟩ A c' hA hbal => ?_
  refine ⟨hbal.trans hcleanups, ?_⟩
  have he := hchain _ _ (.otherwise hA hbal)
  simpa [Bool.and_assoc] using he

/-- Goes on to a further branch of a conditional. -/
theorem beginElseIf (h : Since m (Open strict m γ (Conditional strict m γ d earlier)) d d₁)
    (hv : Fits d₁ v) :
    Ensures d₁ (Emit.beginElseIf v) fun _ d' =>
      Since m (Open strict m γ (Conditional strict m γ d (earlier && d₁.func.terminated))) d d' := by
  refine .bind (.closeBlock h.made) fun _ d₂ h₂ => ?_
  refine .lift_bind fun e he => ?_
  refine (openAfter h₂.made).mono fun _ d₃ h₃ => ?_
  have hw := h₂.trans h₃
  rw [h₂.control] at hw
  refine h.close.write hw (fun _ h => h) fun B ⟨hcleanups, hchain⟩ A c' hA hbal => ?_
  refine ⟨hbal.trans hcleanups, fun R c'' hR => ?_⟩
  have he := hchain _ _ (.elseIf (hv.of_render he) hA hbal hR)
  simpa [Bool.and_assoc] using he

/-- Closes a conditional without an alternative. -/
theorem endIf (h : Since m (Open strict m γ (Conditional strict m γ d earlier)) d d₁) :
    Ensures d₁ Emit.endIf fun _ d' => Since m (Joined strict m γ d false) d d' := by
  refine (Ensures.closeBlock h.made).mono fun _ d₂ h₂ => ?_
  refine h.close.write h₂ (fun _ h => h) fun B ⟨hcleanups, hchain⟩ => ⟨hcleanups, nofun, ?_⟩
  have he := hchain _ _ .chainNil
  simpa [Control.live] using he

/-- Closes a conditional with an alternative. -/
theorem endIf_alternative (h : Since m (Open strict m γ (Alternative strict m γ d earlier)) d d₁) :
    Ensures d₁ Emit.endIf fun _ d' =>
      Since m (Joined strict m γ d (earlier && d₁.func.terminated)) d d' := by
  refine (Ensures.closeBlock h.made).mono fun _ d₂ h₂ => ?_
  exact h.close.write h₂ (fun _ h => h) fun B ⟨hcleanups, he⟩ => ⟨hcleanups, nofun, he⟩

/-! ### Loops over elements -/

/-- Opens a loop over the elements of an array. -/
theorem beginElementLoop {k : Emit α} {Q : α → Draft → Prop} (g : Grows strict m true γ d d₁) (he : Fits d₁ e)
    (hk : ∀ d', InElements strict m γ d d' → Retains d₁ d' → Ensures d' k Q) :
    Ensures d₁ (Emit.line (.whileLoop e) >>= fun _ => Emit.openBlock >>= fun _ => k) Q := by
  refine .bind (.line g.made) fun _ d₂ h₂ => .bind (.openBlock h₂.made) fun _ d₃ h₃ => ?_
  have hw := h₂.trans h₃
  rw [h₂.control] at hw
  have hopen : Since m (Open strict m (γ.inElements strict) (Looping strict m γ d₁)) d₁ d₃ :=
    .start hw (fun _ h => h) fun _ _ hA hbal => ⟨hbal, .elementLoop he hA hbal⟩
  exact hk d₃ ⟨d₁, g, hopen⟩ hopen.retains

theorem beginIndexLoop (hd : WellMade m d) :
    Ensures d (Emit.beginIndexLoop size) fun index d' =>
      InElements strict m γ d d' ∧ Fits d' index := by
  have hsize : Lowers strict m true γ d Emit.sizeType := Silently.sizeType.lowers
  refine .bind (hsize hd) fun ty d₁ ⟨g₁, _⟩ => ?_
  refine .bind (g₁.andThen (.declareWith (.of_nil rfl))) fun index d₂ ⟨g₂, hindex⟩ => ?_
  refine .lift_bind fun e he => ?_
  have hcondition : Fits d₂ (C.Expr.binary "<" e (.nat size)) :=
    (hindex.of_render he).prod (b := C.Expr.nat size) (.of_nil rfl)
  exact beginElementLoop g₂ hcondition fun d₃ h₃ hr => .pure ⟨h₃, hr.fits hindex⟩

theorem beginReversedIndexLoop (hd : WellMade m d) :
    Ensures d (Emit.beginReversedIndexLoop size) fun index d' =>
      InElements strict m γ d d' ∧ Fits d' index := by
  have hsize : Lowers strict m true γ d Emit.sizeType := Silently.sizeType.lowers
  refine .bind (hsize hd) fun ty d₁ ⟨g₁, _⟩ => ?_
  refine .bind (g₁.andThen (.declareWith (.of_nil rfl))) fun index d₂ ⟨g₂, hindex⟩ => ?_
  refine .lift_bind fun e he => ?_
  have hcondition : Fits d₂ (C.Expr.binary "!=" e (.nat 0)) :=
    (hindex.of_render he).prod (b := C.Expr.nat 0) (.of_nil rfl)
  refine beginElementLoop g₂ hcondition fun d₃ h₃ hr => ?_
  have hincrement : Lowers strict m true (γ.inElements strict) d₃ (Emit.increment index "--") :=
    .increment (hr.fits hindex)
  refine .bind (hincrement h₃.made) fun _ d₄ ⟨g₄, _⟩ => ?_
  exact .pure ⟨h₃.grow g₄, g₄.fits (hr.fits hindex)⟩

/-- Closes a loop over the elements of an array. -/
theorem endWhile (h : InElements strict m γ d d₁) :
    Ensures d₁ Emit.endWhile fun _ d' => Grows strict m bal γ d d' := by
  obtain ⟨d₀, g₀, s⟩ := h
  refine (Ensures.closeBlock s.made).mono fun _ d₂ h₂ => ?_
  have hjoined : Since m (Joined strict m γ d₀ false) d₀ d₂ :=
    s.close.write h₂ (fun _ h => h) fun B ⟨hcleanups, he⟩ => ⟨hcleanups, nofun, he⟩
  exact (g₀.trans hjoined.grows).unbalanced

theorem endIndexLoop (h : InElements strict m γ d d₁) (hv : Fits d₁ v) :
    Ensures d₁ (Emit.endIndexLoop v) fun _ d' => Grows strict m bal γ d d' :=
  .bind (h.run (.increment hv)) fun _ _ ⟨h', _⟩ => .endWhile h'

/-! ### Switches -/

/-- Changes how the innermost loop is left. -/
theorem setInSwitch {b : Bool} (hd : WellMade m d) :
    Ensures d (Emit.modifyFunction fun f => { f with loop.inSwitch := b }) fun _ d' =>
      Writes m [] { d.func.control with loop.inSwitch := b } d d' := by
  refine .modifyFunction ⟨(List.append_nil _).symm, rfl, ?_, rfl, rfl, .single (.body _), rfl⟩
  exact hd.congr rfl rfl rfl id (List.Subset.refl _) rfl le_rfl hd.terminated

theorem beginSwitch (hd : WellMade m d) (hv : Fits d v) :
    Ensures d (Emit.beginSwitch v) fun outer d' =>
      outer = d.func.loop.inSwitch ∧ Since m (Cases strict m γ d true) d d' := by
  refine .lift_bind fun e he => ?_
  refine .bind (.line hd) fun _ d₁ h₁ => .bind (.openBlock h₁.made) fun _ d₂ h₂ => ?_
  have h := h₁.trans h₂
  rw [h₁.control] at h
  refine .getFunction_bind ?_
  refine .bind (setInSwitch h₂.made) fun _ d₃ h₃ => .pure ⟨?_, ?_⟩
  · exact congrArg (·.loop.inSwitch) h.control
  · have hw := h.trans h₃
    rw [h.control] at hw
    exact .start hw (fun _ h => h) ⟨rfl, fun K c' hK => .switch (hv.of_render he) hK⟩

/-- The labels of a case and the block that they open. -/
theorem beginCase_writes {labels : List C.Expr} (hd : WellMade m d) :
    Ensures d (Emit.beginCase labels) fun _ d' =>
      Writes m (labels.map (fun e => .line (.caseLabel e)) ++ [.line .openBlock])
        d.func.control.live d d' := by
  induction labels generalizing d with
  | nil => exact .bind (.pure (Φ := fun _ d' => d = d') rfl) fun _ _ h => h ▸ .openBlock hd
  | cons e labels ih =>
    have hassoc : Emit.beginCase (e :: labels) =
        (do Emit.line (.caseLabel e); Emit.beginCase labels) := by
      simp only [Emit.beginCase, List.forM_eq_forM, List.forM_cons, bind_assoc]
    rw [hassoc]
    refine .bind (.line hd) fun _ d₁ h₁ => (ih h₁.made).mono fun _ d₂ h₂ => ?_
    have h := h₁.trans h₂
    rwa [h₁.control] at h

theorem beginCase {labels : List C.Expr} (h : Since m (Cases strict m γ d earlier) d d₁)
    (hl : Fits d₁ labels) :
    Ensures d₁ (Emit.beginCase labels) fun _ d' =>
      Since m (Open strict m γ (CaseBlock strict m γ d earlier)) d d' := by
  refine (beginCase_writes h.made).mono fun _ d₂ hw => ?_
  refine h.write hw (fun _ h => h) fun B ⟨hcleanups, hcases⟩ A c' hA hbal => ?_
  refine ⟨hbal.trans hcleanups, fun K c'' hK => ?_⟩
  have he := hcases _ _ (.caseBlock (fun e he => hl.of_mem he) hA hbal hK)
  simpa [Bool.and_assoc] using he

theorem beginDefaultCase (h : Since m (Cases strict m γ d earlier) d d₁) :
    Ensures d₁ Emit.beginDefaultCase fun _ d' =>
      Since m (Open strict m γ (DefaultBlock strict m γ d earlier)) d d' := by
  refine (openAfter h.made).mono fun _ d₂ hw => ?_
  refine h.write hw (fun _ h => h) fun B ⟨hcleanups, hcases⟩ A c' hA hbal => ?_
  refine ⟨hbal.trans hcleanups, ?_⟩
  have he := hcases _ _ (.defaultBlock hA hbal)
  simpa [Bool.and_assoc] using he

/-- The way out of a case and the end of its block. -/
theorem endCase_writes (hd : WellMade m d) :
    Ensures d Emit.endCase fun _ d' =>
      Writes m (caseEnd d.func.terminated ++ [.line .closeBlock]) d.func.control.live d d' := by
  refine .getFunction_bind ?_
  cases h : d.func.terminated with
  | true => exact .closeBlock hd
  | false =>
    refine .bind (.exitLine hd) fun _ d₁ h₁ => (Ensures.closeBlock h₁.made).mono fun _ d₂ h₂ => ?_
    have hw := h₁.trans h₂
    rwa [h₁.control] at hw

theorem endCase (h : Since m (Open strict m γ (CaseBlock strict m γ d earlier)) d d₁) :
    Ensures d₁ Emit.endCase fun _ d' =>
      Since m (Cases strict m γ d (earlier && d₁.func.terminated)) d d' :=
  (endCase_writes h.made).mono fun _ _ hw => h.close.write hw (fun _ h => h) fun _ h => h

theorem endCase_default (h : Since m (Open strict m γ (DefaultBlock strict m γ d earlier)) d d₁) :
    Ensures d₁ Emit.endCase fun _ d' =>
      Since m (Switch strict m γ d (earlier && d₁.func.terminated)) d d' :=
  (endCase_writes h.made).mono fun _ _ hw => h.close.write hw (fun _ h => h) fun _ h => h

theorem endSwitch (h : Since m (Switch strict m γ d earlier) d d₁) :
    Ensures d₁ (Emit.endSwitch d.func.loop.inSwitch) fun _ d' =>
      Since m (Joined strict m γ d earlier) d d' := by
  refine .bind (.closeBlock h.made) fun _ d₂ h₂ => (setInSwitch h₂.made).mono fun _ d₃ h₃ => ?_
  have hw := h₂.trans h₃
  rw [h₂.control] at hw
  refine h.write hw (fun _ h => h) fun B ⟨hcleanups, he⟩ => ⟨hcleanups, nofun, ?_⟩
  rwa [List.append_nil]

end Ensures

/-! ### Constructs in computations -/

namespace Lowers

variable {α : Type} [Mentions α]

section

variable {v w : Value} {k : Unit → Emit α} (hv : Fits d v) (hw : Fits d w)
  (hk : ∀ d₁, Since m (Open strict m γ (Conditional strict m γ d true)) d d₁ →
    Ensures d₁ (k ()) fun a d' => Grows strict m bal γ d d' ∧ Fits d' a)

include hv hk

/-- A conditional on a value, up to its end. -/
theorem beginIf : Lowers strict m bal γ d (Emit.beginIf v >>= k) :=
  fun hd => .bind (.beginIf hd hv) fun _ d₁ h₁ => hk d₁ h₁

/-- A conditional on the negation of a value, up to its end. -/
theorem beginIfNot : Lowers strict m bal γ d (Emit.beginIfNot v >>= k) :=
  fun hd => .bind (.beginIfNot hd hv) fun _ d₁ h₁ => hk d₁ h₁

include hw in
/-- A conditional on two values not being the same object, up to its end. -/
theorem beginIfDistinct : Lowers strict m bal γ d (Emit.beginIfDistinct v w >>= k) :=
  fun hd => .bind (.beginIfDistinct hd hv hw) fun _ d₁ h₁ => hk d₁ h₁

end

/-- A loop over the elements of an array, up to its end. -/
theorem beginIndexLoop {k : Value → Emit α} (hk : ∀ index d₁, InElements strict m γ d d₁ → Fits d₁ index →
      Ensures d₁ (k index) fun a d' => Grows strict m bal γ d d' ∧ Fits d' a) :
    Lowers strict m bal γ d (Emit.beginIndexLoop size >>= k) :=
  fun hd => .bind (.beginIndexLoop hd) fun index d₁ h₁ => hk index d₁ h₁.1 h₁.2

/-- A loop over the elements of an array from the last to the first, up to its end. -/
theorem beginReversedIndexLoop {k : Value → Emit α} (hk : ∀ index d₁, InElements strict m γ d d₁ → Fits d₁ index →
      Ensures d₁ (k index) fun a d' => Grows strict m bal γ d d' ∧ Fits d' a) :
    Lowers strict m bal γ d (Emit.beginReversedIndexLoop size >>= k) :=
  fun hd => .bind (.beginReversedIndexLoop hd) fun index d₁ h₁ => hk index d₁ h₁.1 h₁.2

end Lowers

/-- A switch without a default, which control may get past. -/
theorem Since.noDefault (h : Since m (Cases strict m γ d earlier) d d₁) :
    Since m (Switch strict m γ d false) d d₁ := by
  refine h.mono fun B ⟨hcleanups, hcases⟩ => ⟨hcleanups, ?_⟩
  have he := hcases _ _ .casesNil
  simpa [Control.live] using he

end CBackend
