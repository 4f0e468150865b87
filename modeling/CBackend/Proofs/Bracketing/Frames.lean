import CBackend.Proofs.Flow.Nesting
import CBackend.Proofs.LongerModules
import CBackend.Proofs.Lowering.Growth
import CBackend.Proofs.Strings.Interning

/-!
# Frames

What a step of lowering leaves as it found it. Steps come in pairs that open and close something: a
block, a scope, a bound element, a loop, a switch. A stack of what is open says which steps may come
next, and a step that closes something finds the function as it was before it was opened.

Computations are looked at two at a time. The second one is the same computation for a longer module, and it
has every result of the first one again.
-/

namespace CBackend

open IR Flow

/-! ### Faults -/

/-- Whether a fault is a check that the generator makes of itself. -/
def Fault.isInternal : Fault → Bool
  | closeWithoutOpen | unbalancedScopes | unbalancedBindings | cleanupsBelowMark _ _
  | structResolvedTwice _ | nameOutOfOrder _ _ | builtinAliasTaken _ | builtinUnregistered
  | parametersRunOut | valueCountMismatch | noPlainOperator _ | noCompoundOperator _
  | noBinaryOperator _ | noIntegerOfWidth _ | noReturnAddress | addressOfRvalue => true
  | _ => false

variable {safe : Bool} {α β : Type} {a : α} {x x' y y' : Emit α} {g : β → Emit α} {c : Prop} {l : List β} {d d' : Draft}
  {e : Fault} {k k' : PUnit → Emit α}

/-- A look-up or a rendering fails no check, if this is asked for, and a second one has its results again. -/
structure Harmless (safe : Bool) (x : Except Fault α) (y : Except Fault α := x) : Prop where
  fault : safe = true → ∀ f, x = .error f → f.isInternal = false
  again : Below x y

namespace Harmless

theorem ok : Harmless safe (.ok a : Except Fault α) :=
  ⟨nofun, fun _ => id⟩

theorem pure : Harmless safe (Pure.pure a : Except Fault α) :=
  .ok

theorem error {f : Fault} {y : Except Fault α} (h : f.isInternal = false) : Harmless safe (.error f) y := by
  refine ⟨?_, nofun⟩
  rintro - _ ⟨⟩
  exact h

theorem bind {x y : Except Fault β} {f g : β → Except Fault α} (hx : Harmless safe x y)
    (hf : ∀ b, x = .ok b → Harmless safe (f b) (g b)) : Harmless safe (x >>= f) (y >>= g) := by
  cases x with
  | error e =>
    refine ⟨?_, nofun⟩
    rintro hs _ ⟨⟩
    exact hx.fault hs e rfl
  | ok b =>
    rw [hx.again b rfl]
    exact hf b rfl

/-- What is found is found again. -/
theorem found {o o' : Option α} (h : ∀ {a}, o = some a → o' = some a) :
    Harmless safe (CBackend.inRange o) (CBackend.inRange o') := by
  cases o with
  | none => exact .error rfl
  | some a =>
    rw [h rfl]
    exact .ok

theorem inRange {o : Option α} : Harmless safe (CBackend.inRange o) :=
  .found id

theorem ite [Decidable c] {x x' y y' : Except Fault α} (h : c → Harmless safe x y) (h' : ¬ c → Harmless safe x' y') :
    Harmless safe (if c then x else x') (if c then y else y') := by
  by_cases hc : c
  · rw [if_pos hc, if_pos hc]
    exact h hc
  · rw [if_neg hc, if_neg hc]
    exact h' hc

theorem mapM {f g : β → Except Fault α} (hf : ∀ b ∈ l, Harmless safe (f b) (g b)) :
    Harmless safe (l.mapM f) (l.mapM g) := by
  induction l with
  | nil => exact .pure
  | cons b l ih =>
    rw [List.mapM_cons, List.mapM_cons]
    refine .bind (hf b List.mem_cons_self) fun _ _ => ?_
    exact .bind (ih fun b' hb' => hf b' (List.mem_cons_of_mem _ hb')) fun _ _ => .pure

end Harmless

/-- Every run that ends well has a property, leaves the string constants alone that there are, and is a run of a second
computation, and no run fails a check, if this is asked for. -/
structure Safely (safe : Bool) (d : Draft) (x : Emit α) (Φ : α → Draft → Prop) (y : Emit α := x) : Prop where
  ok : Ensures d x Φ
  harmless : Harmless safe (x d) (y d)
  interns : Ensures d x fun _ d' => Interns d d'

namespace Safely

variable {d : Draft} {Φ Ψ : α → Draft → Prop}

/-- A run that is known. -/
theorem ofRun (hrun : x d = .ok (a, d')) (h : Φ a d') (hsame : SameStrings d d' := by exact ⟨rfl, rfl⟩) :
    Safely safe d x Φ := by
  refine ⟨fun _ _ h => ?_, hrun ▸ .ok, fun _ _ h => ?_⟩ <;> cases hrun.symm.trans h
  · assumption
  · exact .of_same hsame

theorem pure (h : Φ a d) : Safely safe d (Pure.pure a) Φ :=
  .ofRun rfl h

theorem mono (h : Safely safe d x Φ y) (hΦ : ∀ a d', Φ a d' → Ψ a d') : Safely safe d x Ψ y :=
  ⟨h.ok.mono hΦ, h.harmless, h.interns⟩

theorem bind {x y : Emit β} {f : β → Emit α} {Q : β → Draft → Prop} (hx : Safely safe d x Q y)
    (hf : ∀ b d', Q b d' → Safely safe d' (f b) Φ (g b)) : Safely safe d (x >>= f) Φ (y >>= g) where
  ok := hx.ok.bind fun b d' h => (hf b d' h).ok
  harmless := .bind hx.harmless fun r hr => (hf r.1 r.2 (hx.ok r.1 r.2 hr)).harmless
  interns := .bind (Q := fun b d' => Q b d' ∧ Interns d d') (fun b d' h => ⟨hx.ok b d' h, hx.interns b d' h⟩)
    fun b d' ⟨hb, h⟩ => (hf b d' hb).interns.mono fun _ _ h' => h.trans h'

theorem ite [Decidable c] (h : c → Safely safe d x Φ y) (h' : ¬ c → Safely safe d x' Φ y') :
    Safely safe d (if c then x else x') Φ (if c then y else y') := by
  by_cases hc : c
  · rw [if_pos hc, if_pos hc]
    exact h hc
  · rw [if_neg hc, if_neg hc]
    exact h' hc

theorem throw (he : e.isInternal = false) : Safely safe d (MonadExcept.throw e) Φ y :=
  ⟨.throw, .error he, .throw⟩

theorem lift {x y : Except Fault α} (hx : Harmless safe x y) (h : ∀ a, x = .ok a → Φ a d) :
    Safely safe d (liftM x) Φ (liftM y) :=
  ⟨.lift h, .bind hx fun _ _ => .ok, .lift fun _ _ => .of_same ⟨rfl, rfl⟩⟩

theorem get {Φ : Draft → Draft → Prop} (h : Φ d d) : Safely safe d (MonadState.get : Emit Draft) Φ :=
  .ofRun rfl h

theorem get_bind {f g : Draft → Emit α} (h : Safely safe d (f d) Φ (g d)) :
    Safely safe d (MonadState.get >>= f) Φ (MonadState.get >>= g) :=
  ⟨h.ok, h.harmless, h.interns⟩

theorem modify {f : Draft → Draft} {Φ : PUnit → Draft → Prop} (h : Φ ⟨⟩ (f d))
    (hsame : SameStrings d (f d) := by exact ⟨rfl, rfl⟩) : Safely safe d (modify f : Emit PUnit) Φ :=
  .ofRun rfl h hsame

theorem getFunction_bind {g : FunctionDraft → β} {f f' : β → Emit α}
    (h : Safely safe d (f (g d.func)) Φ (f' (g d.func))) :
    Safely safe d (Emit.getFunction g >>= f) Φ (Emit.getFunction g >>= f') :=
  ⟨h.ok, h.harmless, h.interns⟩

theorem modifyFunction {g : FunctionDraft → FunctionDraft} {Φ : Unit → Draft → Prop}
    (h : Φ () { d with func := g d.func }) : Safely safe d (Emit.modifyFunction g) Φ :=
  .ofRun rfl h

theorem modifyFunction_bind {g : FunctionDraft → FunctionDraft} {k : Unit → Emit α}
    (h : Safely safe { d with func := g d.func } (k ()) Φ) : Safely safe d (Emit.modifyFunction g >>= k) Φ :=
  .bind (.modifyFunction (Φ := fun _ d' => d' = _) rfl) fun _ _ hd => hd ▸ h

theorem discard {Φ : PUnit → Draft → Prop} (h : Safely safe d x (fun _ d' => Φ ⟨⟩ d') y) :
    Safely safe d (Functor.discard x) Φ (Functor.discard y) :=
  have hrun : Harmless safe (x d >>= fun r => .ok (PUnit.unit, r.2)) (y d >>= fun r => .ok (PUnit.unit, r.2)) :=
    .bind h.harmless fun _ _ => .ok
  ⟨.discard h.ok, hrun, .discard h.interns⟩

end Safely

/-! ### Frames -/

/-- A loop state stays as it is, except that labels may be given out. -/
structure LoopState.Extends (l l' : LoopState) : Prop where
  cleanupBase : l'.cleanupBase = l.cleanupBase
  inSwitch : l'.inSwitch = l.inSwitch
  continueNeedsLabel : l'.continueNeedsLabel = l.continueNeedsLabel
  breakLabel : ∀ n, l.breakLabel = some n → l'.breakLabel = some n
  continueLabel : ∀ n, l.continueLabel = some n → l'.continueLabel = some n

theorem LoopState.Extends.refl (l : LoopState) : l.Extends l :=
  ⟨rfl, rfl, rfl, fun _ => id, fun _ => id⟩

theorem LoopState.Extends.trans {l l₁ l₂ : LoopState} (h : l.Extends l₁) (h' : l₁.Extends l₂) :
    l.Extends l₂ where
  cleanupBase := h'.cleanupBase.trans h.cleanupBase
  inSwitch := h'.inSwitch.trans h.inSwitch
  continueNeedsLabel := h'.continueNeedsLabel.trans h.continueNeedsLabel
  breakLabel n hn := h'.breakLabel n (h.breakLabel n hn)
  continueLabel n hn := h'.continueLabel n (h.continueLabel n hn)

/-- The flag that control cannot get past the last line is as the notes say. -/
def FunctionDraft.Recorded (f : FunctionDraft) : Prop :=
  f.terminated = endsNoted f.steps.toList

/-- A piece of lowering leaves nothing open: it writes complete statements, and gives back blocks, bound
elements and the loop around. Cleanups are only added, and none at all if it is balanced. -/
structure Framed (bal : Bool) (f f' : FunctionDraft) : Prop where
  steps : ∃ L, f'.steps.toList = f.steps.toList ++ L ∧ Nested L
  indent : f'.indent = f.indent
  bindings : f'.bindings = f.bindings
  cleanups : f.cleanups <:+ f'.cleanups
  balanced : bal = true → f'.cleanups = f.cleanups
  loop : f.loop.Extends f'.loop
  counter : f.counter ≤ f'.counter
  returns : f'.returns = f.returns
  returnAddress : f'.returnAddress = f.returnAddress
  recorded : f.Recorded → f'.Recorded

/-- A block is opened. Whatever complete statements it is filled with, closing it completes a
statement. -/
structure Opens (f f' : FunctionDraft) : Prop where
  steps : ∃ H, f'.steps.toList = f.steps.toList ++ (H ++ [.line .openBlock]) ∧
    ∀ C, Nested C → Nested (H ++ .line .openBlock :: (C ++ [.line .closeBlock]))
  indent : f'.indent = f.indent + 1
  bindings : f'.bindings = f.bindings
  cleanups : f'.cleanups = f.cleanups
  loop : f.loop.Extends f'.loop
  counter : f.counter ≤ f'.counter
  returns : f'.returns = f.returns
  returnAddress : f'.returnAddress = f.returnAddress
  recorded : f.Recorded → f'.Recorded

variable {bal : Bool} {f f₀ f₁ f₂ f₃ : FunctionDraft}

namespace Framed

theorem refl (f : FunctionDraft) : Framed bal f f :=
  ⟨⟨[], (List.append_nil _).symm, .nil⟩, rfl, rfl, List.suffix_refl _, fun _ => rfl, .refl _, le_rfl, rfl,
    rfl, id⟩

theorem trans (h : Framed bal f f₁) (h' : Framed bal f₁ f₂) : Framed bal f f₂ := by
  obtain ⟨L, hL, hn⟩ := h.steps
  obtain ⟨L', hL', hn'⟩ := h'.steps
  exact
    { steps := ⟨L ++ L', by rw [hL', hL, List.append_assoc], hn.append hn'⟩
      indent := h'.indent.trans h.indent
      bindings := h'.bindings.trans h.bindings
      cleanups := h.cleanups.trans h'.cleanups
      balanced := fun hb => (h'.balanced hb).trans (h.balanced hb)
      loop := h.loop.trans h'.loop
      counter := h.counter.trans h'.counter
      returns := h'.returns.trans h.returns
      returnAddress := h'.returnAddress.trans h.returnAddress
      recorded := h'.recorded ∘ h.recorded }

end Framed

/-- What is open. -/
inductive Opening
  | block
  /-- A scope, with its mark, and whether cleanups may not be left outside of it. -/
  | scope (mark : Nat) (bal : Bool)
  | bound
  /-- A loop, with the state of the loop around it. -/
  | loop (outer : LoopState)
  /-- A switch, and whether another one lies between it and the loop. -/
  | switch (outer : Bool)

namespace Opening

/-- Whether cleanups may not be left outside of what is open, given this inside of it. -/
def around (bal : Bool) : Opening → Bool
  | scope _ outer => outer
  | _ => bal

/-- Something is opened. -/
inductive Enters : Opening → FunctionDraft → FunctionDraft → Prop
  | block {f f' : FunctionDraft} (h : Opens f f') : Enters .block f f'
  | scope {f : FunctionDraft} {b : Bool} : Enters (.scope f.cleanups.length b) f f
  | bound {f : FunctionDraft} {v : Value} : Enters .bound f { f with bindings := v :: f.bindings }
  | loop {f : FunctionDraft} {needs : Bool} : Enters (.loop f.loop) f
      { f with loop := { cleanupBase := f.cleanups.length, continueNeedsLabel := needs } }
  | switch {f f' : FunctionDraft} (h : Opens f f') :
      Enters (.switch f.loop.inSwitch) f { f' with loop.inSwitch := true }

end Opening

/-- What is open, the innermost first, and whether cleanups may not be left there. -/
structure Place where
  openings : List Opening
  bal : Bool

/-- A function is at a place, seen from where nothing was open. -/
def AtPlace (f₀ : FunctionDraft) : List Opening → Bool → FunctionDraft → Prop
  | [], bal, f => Framed bal f₀ f
  | o :: os, bal, f => ∃ f₁ f₂, AtPlace f₀ os (o.around bal) f₁ ∧ o.Enters f₁ f₂ ∧ Framed bal f₂ f

/-- A function is in order: there are as many cleanups as the loop around needs, and a result that goes
through a pointer has a place to go. -/
structure FunctionDraft.Sane (f : FunctionDraft) : Prop where
  base : f.loop.cleanupBase ≤ f.cleanups.length
  returnAddress : f.returns = .indirect → ∃ v, f.returnAddress = some v ∧ v.isRvalue = false

theorem AtPlace.step {os : List Opening} (h : AtPlace f₀ os bal f) (hf : Framed bal f f₁) :
    AtPlace f₀ os bal f₁ := by
  cases os with
  | nil => exact Framed.trans h hf
  | cons o os =>
    obtain ⟨f₂, f₃, h₂, ho, h₃⟩ := h
    exact ⟨f₂, f₃, h₂, ho, h₃.trans hf⟩

theorem FunctionDraft.Sane.framed (h : f.Sane) (hf : Framed bal f f₁) : f₁.Sane where
  base := by
    rw [hf.loop.cleanupBase]
    exact h.base.trans hf.cleanups.length_le
  returnAddress := by
    rw [hf.returns, hf.returnAddress]
    exact h.returnAddress

theorem FunctionDraft.Sane.opens (h : f.Sane) (hf : Opens f f₁) : f₁.Sane where
  base := by
    rw [hf.loop.cleanupBase, hf.cleanups]
    exact h.base
  returnAddress := by
    rw [hf.returns, hf.returnAddress]
    exact h.returnAddress

theorem AtPlace.sane {os : List Opening} (h : AtPlace f₀ os bal f) (h₀ : f₀.Sane) : f.Sane := by
  induction os generalizing bal f with
  | nil => exact h₀.framed h
  | cons o os ih =>
    obtain ⟨f₁, f₂, h₁, ho, h₂⟩ := h
    have hsane := ih h₁
    refine FunctionDraft.Sane.framed ?_ h₂
    cases ho with
    | block ho => exact hsane.opens ho
    | scope => exact hsane
    | bound => exact ⟨hsane.base, hsane.returnAddress⟩
    | loop => exact ⟨le_rfl, hsane.returnAddress⟩
    | switch ho => exact ⟨(hsane.opens ho).base, (hsane.opens ho).returnAddress⟩

/-! ### Steps -/

/-- The tables of types are in order: every type has a name, every scalar has a type, and the struct of an
aggregate that is not resolved has no members yet. -/
structure Draft.Consistent (d : Draft) : Prop where
  builtins : d.builtins.size = Builtin.all.length
  structNames : d.unit.types.structs.names.size = d.unit.types.structs.shapes.size
  arrayNames : d.unit.types.arrays.names.size = d.unit.types.arrays.shapes.size
  functionNames : d.unit.types.functions.names.size = d.unit.types.functions.shapes.size
  bounded : ∀ id s, d.aggregates.lookup id = some s →
    s.structNumber < d.unit.types.structs.shapes.size
  unresolved : ∀ id s, d.aggregates.lookup id = some s → (∀ n, s ≠ .resolved n) →
    d.unit.types.structs.get? s.structNumber = some .declared
  distinct : ∀ id id' s s', d.aggregates.lookup id = some s → d.aggregates.lookup id' = some s' →
    s.structNumber = s'.structNumber → id = id'

/-- What a computation opens and closes, with its result. If this is asked for, it fails no check. -/
def Steps (safe : Bool) (P : Place) (x : Emit α) (P' : α → Place) (y : Emit α := x)
    (Φ : α → Prop := fun _ => True) : Prop :=
  ∀ f₀ d, (safe = true → f₀.Sane) → (safe = true → d.Consistent) → AtPlace f₀ P.openings P.bal d.func →
    Safely safe d x (fun a d' =>
      (safe = true → d'.Consistent) ∧ AtPlace f₀ (P' a).openings (P' a).bal d'.func ∧ Φ a) y

/-- A computation leaves nothing open and closes nothing. -/
abbrev Stays (safe : Bool) (P : Place) (x : Emit α) (y : Emit α := x) (Φ : α → Prop := fun _ => True) : Prop :=
  Steps safe P x (fun _ => P) y Φ

/-- The function is left alone, and so are the aggregates whose members are being lowered. -/
structure Quiet (d d' : Draft) : Prop where
  func : d'.func = d.func
  resolving : ∀ id n, d.aggregates.lookup id = some (.resolving n) →
    d'.aggregates.lookup id = some (.resolving n)

theorem Quiet.refl (d : Draft) : Quiet d d :=
  ⟨rfl, fun _ _ => id⟩

theorem Quiet.trans {d₁ d₂ : Draft} (h : Quiet d d₁) (h' : Quiet d₁ d₂) : Quiet d d₂ :=
  ⟨h'.func.trans h.func, fun id n hn => h'.resolving id n (h.resolving id n hn)⟩

/-- A computation leaves the function alone. -/
def Quietly (safe : Bool) (x : Emit α) (y : Emit α := x) (Φ : α → Prop := fun _ => True) : Prop :=
  ∀ d, (safe = true → d.Consistent) → Safely safe d x (fun a d' => Quiet d d' ∧ (safe = true → d'.Consistent) ∧ Φ a) y

variable {P P₁ : Place} {Φ Ψ : α → Prop} {x y : Emit α}

namespace Quietly

theorem pure (h : Φ a) : Quietly safe (Pure.pure a) (Pure.pure a) Φ :=
  fun d hd => .pure ⟨.refl d, hd, h⟩

theorem mono (h : Quietly safe x y Φ) (hΦ : ∀ a, Φ a → Ψ a) : Quietly safe x y Ψ :=
  fun d hd => (h d hd).mono fun a _ ⟨hq, hd', ha⟩ => ⟨hq, hd', hΦ a ha⟩

theorem bind {x y : Emit β} {f : β → Emit α} {Q : β → Prop} (hx : Quietly safe x y Q)
    (hf : ∀ b, Q b → Quietly safe (f b) (g b) Φ) : Quietly safe (x >>= f) (y >>= g) Φ := by
  intro d hd
  refine .bind (hx d hd) fun b d₁ ⟨hq, hd₁, hb⟩ => ?_
  exact (hf b hb d₁ hd₁).mono fun a d₂ ⟨hq', h⟩ => ⟨hq.trans hq', h⟩

theorem pure_bind {b : β} {f : β → Emit α} (h : Quietly safe (f b) (g b) Φ) :
    Quietly safe (Pure.pure b >>= f) (Pure.pure b >>= g) Φ :=
  h

theorem throw (he : e.isInternal = false) : Quietly safe (MonadExcept.throw e) y Φ :=
  fun _ _ => .throw he

theorem lift {x y : Except Fault α} (hx : Harmless safe x y) : Quietly safe (liftM x) (liftM y) (x = .ok ·) :=
  fun d hd => .lift hx fun _ ha => ⟨.refl d, hd, ha⟩

theorem ofExcept {x y : Except Fault α} (hx : Harmless safe x y) : Quietly safe (liftM x : Emit α) (liftM y) :=
  (lift hx).mono fun _ _ => trivial

theorem get : Quietly safe MonadState.get MonadState.get fun d : Draft => safe = true → d.Consistent :=
  fun d hd => .get ⟨.refl d, hd, hd⟩

/-- Something is changed that neither the function nor the types depend on. -/
theorem ofModify {g : Draft → Draft} (hquiet : ∀ d, Quiet d (g d)) (hg : ∀ d, d.Consistent → (g d).Consistent)
    (hsame : ∀ d, SameStrings d (g d)) : Quietly safe (modify g : Emit PUnit) :=
  fun d hd => .modify ⟨hquiet d, fun hs => hg d (hd hs), trivial⟩ (hsame d)

theorem discard (h : Quietly safe x y Φ) : Quietly safe (Functor.discard x) (Functor.discard y) :=
  fun d hd => .discard ((h d hd).mono fun _ _ ⟨hq, hd', _⟩ => ⟨hq, hd', trivial⟩)

theorem ite [Decidable c] (h : c → Quietly safe x y Φ) (h' : ¬ c → Quietly safe x' y' Φ) :
    Quietly safe (if c then x else x') (if c then y else y') Φ :=
  fun d hd => .ite (h · d hd) (h' · d hd)

/-- A step that is done under a condition. -/
theorem when [Decidable c] {x y : Emit PUnit} (hx : c → Quietly safe x y) (hk : Quietly safe (k ⟨⟩) (k' ⟨⟩) Φ) :
    Quietly safe (if c then x >>= k else k ⟨⟩) (if c then y >>= k' else k' ⟨⟩) Φ :=
  .ite (fun hc => .bind (hx hc) fun _ _ => hk) fun _ => hk

/-- Computations for the elements of two lists that correspond to each other. -/
theorem mapM₂ {γ : Type} {f : β → Emit α} {g : γ → Emit α} {l' : List γ}
    (h : List.Forall₂ (fun b c => Quietly safe (f b) (g c) Φ) l l') :
    Quietly safe (l.mapM f) (l'.mapM g) fun as => as.length = l.length ∧ ∀ a ∈ as, Φ a := by
  induction h with
  | nil => exact .pure ⟨rfl, nofun⟩
  | cons hbc _ ih =>
    rw [List.mapM_cons, List.mapM_cons]
    refine .bind hbc fun a ha => .bind ih fun as has => .pure ?_
    exact ⟨congrArg (· + 1) has.1, List.forall_mem_cons.2 ⟨ha, has.2⟩⟩

theorem mapM {f : β → Emit α} (hf : ∀ b ∈ l, Quietly safe (f b) (g b) Φ) :
    Quietly safe (l.mapM f) (l.mapM g) fun as => as.length = l.length ∧ ∀ a ∈ as, Φ a :=
  .mapM₂ (List.forall₂_same.2 hf)

end Quietly

namespace Steps

variable {P' : α → Place}

theorem quiet (h : Quietly safe x y Φ) : Stays safe P x y Φ :=
  fun _ d _ hd hp => (h d hd).mono fun _ _ ⟨hq, hd', ha⟩ => ⟨hd', hq.func ▸ hp, ha⟩

theorem mono (h : Steps safe P x P' y Φ) (hΦ : ∀ a, Φ a → Ψ a) : Steps safe P x P' y Ψ :=
  fun f₀ d h₀ hd hp => (h f₀ d h₀ hd hp).mono fun a _ ⟨hd', hp', ha⟩ => ⟨hd', hp', hΦ a ha⟩

theorem bind {x y : Emit β} {f : β → Emit α} {P₁ : β → Place} {Q : β → Prop} (hx : Steps safe P x P₁ y Q)
    (hf : ∀ b, Q b → Steps safe (P₁ b) (f b) P' (g b) Φ) : Steps safe P (x >>= f) P' (y >>= g) Φ := by
  intro f₀ d h₀ hd hp
  exact .bind (hx f₀ d h₀ hd hp) fun b d₁ ⟨hd₁, hp₁, hb⟩ => hf b hb f₀ d₁ h₀ hd₁ hp₁

theorem pure_bind {b : β} {f : β → Emit α} (h : Steps safe P (f b) P' (g b) Φ) :
    Steps safe P (Pure.pure b >>= f) P' (Pure.pure b >>= g) Φ :=
  h

theorem throw (he : e.isInternal = false) : Steps safe P (MonadExcept.throw e) P' y Φ :=
  fun _ _ _ _ _ => .throw he

theorem discard (h : Steps safe P x (fun _ => P₁) y Φ) :
    Steps safe P (Functor.discard x) (fun _ => P₁) (Functor.discard y) :=
  fun f₀ d h₀ hd hp => .discard ((h f₀ d h₀ hd hp).mono fun _ _ ⟨hd', hp', _⟩ => ⟨hd', hp', trivial⟩)

theorem pure (h : Φ a) : Stays safe P (Pure.pure a) (Pure.pure a) Φ :=
  .quiet (.pure h)

theorem lift {x y : Except Fault α} (hx : Harmless safe x y) : Stays safe P (liftM x) (liftM y) (x = .ok ·) :=
  .quiet (.lift hx)

theorem ite [Decidable c] (h : c → Steps safe P x P' y Φ) (h' : ¬ c → Steps safe P x' P' y' Φ) :
    Steps safe P (if c then x else x') P' (if c then y else y') Φ :=
  fun f₀ d h₀ hd hp => .ite (h · f₀ d h₀ hd hp) (h' · f₀ d h₀ hd hp)

/-- A step that is done under a condition. -/
theorem when [Decidable c] {x y : Emit PUnit} (hx : c → Stays safe P x y) (hk : Steps safe P (k ⟨⟩) P' (k' ⟨⟩) Φ) :
    Steps safe P (if c then x >>= k else k ⟨⟩) P' (if c then y >>= k' else k' ⟨⟩) Φ :=
  .ite (fun hc => .bind (hx hc) fun _ _ => hk) fun _ => hk

/-- A step that is left out under a condition. -/
theorem whenNot [Decidable c] {x y : Emit PUnit} (hx : ¬ c → Stays safe P x y) (hk : Steps safe P (k ⟨⟩) P' (k' ⟨⟩) Φ) :
    Steps safe P (if c then k ⟨⟩ else x >>= k) P' (if c then k' ⟨⟩ else y >>= k') Φ :=
  .ite (fun _ => hk) fun hc => .bind (hx hc) fun _ _ => hk

theorem forM {f g : β → Emit PUnit} (hf : ∀ b ∈ l, Stays safe P (f b) (g b)) :
    Stays safe P (l.forM f) (l.forM g) := by
  induction l with
  | nil => exact .pure trivial
  | cons b l ih =>
    refine .bind (hf b List.mem_cons_self) fun _ _ => ?_
    exact ih fun b' hb' => hf b' (List.mem_cons_of_mem _ hb')

theorem mapM {f : β → Emit α} (hf : ∀ b ∈ l, Stays safe P (f b) (g b) Φ) :
    Stays safe P (l.mapM f) (l.mapM g) fun as => as.length = l.length ∧ ∀ a ∈ as, Φ a := by
  induction l with
  | nil => exact .pure ⟨rfl, nofun⟩
  | cons b l ih =>
    rw [List.mapM_cons, List.mapM_cons]
    refine .bind (hf b List.mem_cons_self) fun a ha => ?_
    refine .bind (ih fun b' hb' => hf b' (List.mem_cons_of_mem _ hb')) fun as has => .pure ?_
    exact ⟨congrArg (· + 1) has.1, List.forall_mem_cons.2 ⟨ha, has.2⟩⟩

theorem getFunction {g : FunctionDraft → α} : Stays safe P (Emit.getFunction g) :=
  fun _ _ _ hd hp => .ofRun rfl ⟨hd, hp, trivial⟩

/-- The function is changed in a way that leaves nothing open. -/
theorem modifyFunction {g : FunctionDraft → FunctionDraft} (hg : ∀ f, Framed P.bal f (g f)) :
    Stays safe P (Emit.modifyFunction g) :=
  fun _ d _ hd hp => .modifyFunction ⟨fun hs => { hd hs with }, hp.step (hg d.func), trivial⟩

/-- What a computation that leaves nothing open does to the function, whatever the draft. -/
theorem framed_of_ok {b : Bool} (hx : Stays false ⟨[], b⟩ x y Φ) (h : x d = .ok (a, d')) :
    Framed b d.func d'.func :=
  ((hx d.func d nofun nofun (.refl _)).ok a d' h).2.1

theorem interns_of_ok {b : Bool} (hx : Stays false ⟨[], b⟩ x y Φ) (h : x d = .ok (a, d')) :
    Interns d d' :=
  (hx d.func d nofun nofun (.refl _)).interns a d' h

end Steps

end CBackend
