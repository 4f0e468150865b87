import CBackend.Draft.Basic
import Mathlib.Order.Defs.Unbundled

/-!
# Runs of computations on drafts

What holds of the result of a computation whenever it ends without a fault. The rules take a
computation apart along its steps, so that the computations that lowering is made of are looked at one
at a time.
-/

namespace CBackend

open IR

variable {α β : Type} {d : Draft} {Φ Ψ : α → Draft → Prop} {x : Except Fault α} {f : β → Emit α} {b : β} {a : α}
  {c : Prop}

/-- The two parts of a computation that ends without a fault. -/
theorem exists_of_bind_eq_ok {f : α → Except Fault β} (h : x >>= f = .ok b) : ∃ a, x = .ok a ∧ f a = .ok b := by
  cases x with
  | error e => cases h
  | ok a => exact ⟨a, rfl, h⟩

theorem exists_of_isOk (h : x.isOk = true) : ∃ a, x = .ok a := by
  cases x with
  | error => cases h
  | ok a => exact ⟨a, rfl⟩

theorem eq_some_of_inRange {o : Option α} (h : inRange o = .ok a) : o = some a := by
  cases o with
  | none => cases h
  | some b => cases h; rfl

theorem exists_of_mapM_eq_ok {f : α → Except Fault β} {l : List α} {bs : List β} (h : l.mapM f = .ok bs) (hb : b ∈ bs) :
    ∃ a ∈ l, f a = .ok b := by
  induction l generalizing bs with
  | nil =>
    rw [List.mapM_nil] at h
    cases h
    cases hb
  | cons a l ih =>
    rw [List.mapM_cons] at h
    obtain ⟨b', hb', h⟩ := exists_of_bind_eq_ok h
    obtain ⟨bs', hbs', heq⟩ := exists_of_bind_eq_ok h
    cases heq
    obtain rfl | hb := List.mem_cons.1 hb
    · exact ⟨a, List.mem_cons_self, hb'⟩
    · obtain ⟨a', ha', hf⟩ := ih hbs' hb
      exact ⟨a', List.mem_cons_of_mem _ ha', hf⟩

/-- What holds after every run of a computation that ends without a fault. -/
def Ensures (d : Draft) (x : Emit α) (Φ : α → Draft → Prop) : Prop :=
  ∀ a d', x d = .ok (a, d') → Φ a d'

namespace Ensures

theorem pure (h : Φ a d) : Ensures d (Pure.pure a) Φ := by
  rintro _ _ ⟨⟩
  exact h

theorem pure_bind (h : Ensures d (f b) Φ) :
    Ensures d (Pure.pure b >>= f) Φ :=
  h

theorem mono {x : Emit α} (h : Ensures d x Φ) (hΦ : ∀ a d', Φ a d' → Ψ a d') : Ensures d x Ψ :=
  fun a d' hx => hΦ a d' (h a d' hx)

theorem bind {x : Emit β} {Q : β → Draft → Prop} (hx : Ensures d x Q) (hf : ∀ b d', Q b d' → Ensures d' (f b) Φ) :
    Ensures d (x >>= f) Φ := by
  intro a d' h
  change Except.bind (x d) (fun r => f r.1 r.2) = _ at h
  cases hr : x d with
  | error e => rw [hr] at h; cases h
  | ok r =>
    rw [hr] at h
    exact hf r.1 r.2 (hx r.1 r.2 hr) a d' h

/-- A step that is done under a condition. -/
theorem when [Decidable c] {x : Emit PUnit} {k : PUnit → Emit α} {Q : Draft → Prop}
    (hx : c → Ensures d x fun _ d' => Q d') (hskip : ¬ c → Q d) (hk : ∀ d', Q d' → Ensures d' (k ⟨⟩) Φ) :
    Ensures d (if c then x >>= k else k ⟨⟩) Φ := by
  split
  · next hc => exact .bind (hx hc) fun _ d' hd' => hk d' hd'
  · next hc => exact hk d (hskip hc)

/-- A step that is left out under a condition. -/
theorem whenNot [Decidable c] {x : Emit PUnit} {k : PUnit → Emit α} {Q : Draft → Prop}
    (hx : ¬ c → Ensures d x fun _ d' => Q d') (hskip : c → Q d) (hk : ∀ d', Q d' → Ensures d' (k ⟨⟩) Φ) :
    Ensures d (if c then k ⟨⟩ else x >>= k) Φ := by
  split
  · next hc => exact hk d (hskip hc)
  · next hc => exact .bind (hx hc) fun _ d' hd' => hk d' hd'

theorem throw {e : Fault} : Ensures d (MonadExcept.throw e : Emit α) Φ := by
  rintro _ _ ⟨⟩

/-- A computation that does not look at the draft. -/
theorem lift (h : ∀ a, x = .ok a → Φ a d) :
    Ensures d (liftM x : Emit α) Φ := by
  intro a d' hx
  cases x with
  | error e => cases hx
  | ok b => cases hx; exact h _ rfl

theorem lift_bind {x : Except Fault β} (hf : ∀ b, x = .ok b → Ensures d (f b) Φ) :
    Ensures d (liftM x >>= f) Φ := by
  refine .bind (.lift (Φ := fun b d' => x = .ok b ∧ d = d') fun _ hb => ⟨hb, rfl⟩) ?_
  rintro b _ ⟨hb, rfl⟩
  exact hf b hb

theorem get {Φ : Draft → Draft → Prop} (h : Φ d d) : Ensures d (MonadState.get : Emit Draft) Φ := by
  rintro _ _ ⟨⟩
  exact h

theorem get_bind {f : Draft → Emit α} (h : Ensures d (f d) Φ) :
    Ensures d (MonadState.get >>= f) Φ :=
  h

theorem modify {f : Draft → Draft} {Φ : PUnit → Draft → Prop} (h : Φ ⟨⟩ (f d)) :
    Ensures d (modify f : Emit PUnit) Φ := by
  rintro _ _ ⟨⟩
  exact h

theorem getFunction {f : FunctionDraft → α} (h : Φ (f d.func) d) :
    Ensures d (Emit.getFunction f) Φ := by
  rintro _ _ ⟨⟩
  exact h

theorem getFunction_bind {g : FunctionDraft → β} (h : Ensures d (f (g d.func)) Φ) :
    Ensures d (Emit.getFunction g >>= f) Φ :=
  h

theorem modifyFunction {f : FunctionDraft → FunctionDraft} {Φ : Unit → Draft → Prop}
    (h : Φ () { d with func := f d.func }) : Ensures d (Emit.modifyFunction f) Φ := by
  rintro _ _ ⟨⟩
  exact h

theorem modifyFunction_bind {f : FunctionDraft → FunctionDraft} {k : Unit → Emit α}
    (h : Ensures { d with func := f d.func } (k ()) Φ) :
    Ensures d (Emit.modifyFunction f >>= k) Φ :=
  h

theorem discard {x : Emit α} {Φ : PUnit → Draft → Prop} (h : Ensures d x fun _ d' => Φ ⟨⟩ d') :
    Ensures d (Functor.discard x) Φ := by
  intro a d' hx
  change Except.bind (x d) (fun r => .ok (PUnit.unit, r.2)) = _ at hx
  cases hr : x d with
  | error e => rw [hr] at hx; cases hx
  | ok r =>
    rw [hr] at hx
    cases hx
    exact h r.1 r.2 hr

/-- A computation for each entry of a list, with an invariant. -/
theorem forM {l : List β} {f : β → Emit PUnit} {I : Draft → Prop} (h : I d)
    (hf : ∀ b ∈ l, ∀ d, I d → Ensures d (f b) fun _ d' => I d') :
    Ensures d (l.forM f) fun _ d' => I d' := by
  induction l generalizing d with
  | nil => exact .pure h
  | cons b l ih =>
    refine .bind (hf b List.mem_cons_self d h) fun _ d' hd' => ?_
    exact ih hd' fun b' hb' => hf b' (List.mem_cons_of_mem _ hb')

end Ensures

/-- A computation changes drafts only as a relation says. -/
def Keeps (R : Draft → Draft → Prop) (x : Emit α) : Prop :=
  ∀ d, Ensures d x fun _ d' => R d d'

namespace Keeps

variable {R : Draft → Draft → Prop}

theorem throw {e : Fault} : Keeps R (MonadExcept.throw e : Emit α) :=
  fun _ => .throw

theorem ite [Decidable c] {x y : Emit α} (hx : Keeps R x) (hy : Keeps R y) :
    Keeps R (if c then x else y) := by
  split
  · exact hx
  · exact hy

theorem modify {f : Draft → Draft} (h : ∀ d, R d (f d)) : Keeps R (modify f : Emit PUnit) :=
  fun d => .modify (h d)

section

variable [Std.Refl R]

theorem pure : Keeps R (Pure.pure a : Emit α) :=
  fun d => .pure (Std.Refl.refl d)

theorem get : Keeps R (MonadState.get : Emit Draft) :=
  fun d => .get (Std.Refl.refl d)

theorem lift : Keeps R (liftM x : Emit α) :=
  fun d => .lift fun _ _ => Std.Refl.refl d

end

variable [IsTrans Draft R]

theorem bind {x : Emit β} (hx : Keeps R x) (hf : ∀ b, Keeps R (f b)) :
    Keeps R (x >>= f) :=
  fun d => .bind (hx d) fun b d₁ h₁ => (hf b d₁).mono fun _ _ h₂ => IsTrans.trans _ _ _ h₁ h₂

variable [Std.Refl R]

theorem mapM {l : List β} (hf : ∀ b ∈ l, Keeps R (f b)) :
    Keeps R (l.mapM f) := by
  induction l with
  | nil => exact .pure
  | cons b l ih =>
    rw [List.mapM_cons]
    refine .bind (hf b List.mem_cons_self) fun _ => ?_
    exact .bind (ih fun b' hb' => hf b' (List.mem_cons_of_mem _ hb')) fun _ => .pure

end Keeps

end CBackend
