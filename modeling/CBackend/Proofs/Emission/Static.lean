import CBackend.Proofs.Emission.Basic
import Mathlib.Data.Nat.Basic
import Mathlib.Order.Basic

/-!
# The state of a function while its body is written

What the pieces of a body do to the state of the function, whatever control does in them: numbers are
never given out twice, a scope takes away what was added in it, and labels are given out to one loop
each.
-/

namespace CBackend.Emission

open IR Flow

variable {strict : Bool} {m : Module} {l : C.Line} {c c' : Control} {exit : LoopExit} {γ : Exits} {sh : Shape}
  {L : List Step}

/-- The part of the state that gives out numbers and knows whose they are. -/
structure Names where
  counter : Nat
  indicators : List (VarId × Value)
  loop : LoopState

/-- The part of the state that gives out numbers and knows whose they are. -/
def Control.names (c : Control) : Names :=
  ⟨c.counter, c.indicators, c.loop⟩

/-- A label of the innermost loop. -/
def Names.HasLabel (c : Names) (n : Nat) : Prop :=
  c.loop.breakLabel = some n ∨ c.loop.continueLabel = some n

/-! ### Numbers, flags and labels -/

/-- A label that was given out stays, and a new one has a new number. -/
def LabelGrown (c c' : Names) (label label' : Option Nat) : Prop :=
  label' = label ∨ label = none ∧ ∃ n, label' = some n ∧ c.counter ≤ n ∧ n < c'.counter

/-- Numbers, flags and labels are only added. -/
structure Grown (c c' : Names) : Prop where
  counter : c.counter ≤ c'.counter
  indicators : ∃ new, c'.indicators = new ++ c.indicators ∧
    ∀ entry ∈ new, ∃ n, entry.2.localNumber? = some n ∧ c.counter ≤ n ∧ n < c'.counter
  cleanupBase : c'.loop.cleanupBase = c.loop.cleanupBase
  inSwitch : c'.loop.inSwitch = c.loop.inSwitch
  needsLabel : c'.loop.continueNeedsLabel = c.loop.continueNeedsLabel
  breakLabel : LabelGrown c c' c.loop.breakLabel c'.loop.breakLabel
  continueLabel : LabelGrown c c' c.loop.continueLabel c'.loop.continueLabel
  unneeded : c.loop.continueNeedsLabel = false → c'.loop.continueLabel = c.loop.continueLabel

theorem LabelGrown.trans {c c₁ c₂ : Names} {l l₁ l₂ : Option Nat} (h : LabelGrown c c₁ l l₁)
    (h' : LabelGrown c₁ c₂ l₁ l₂) (hc : c.counter ≤ c₁.counter) (hc' : c₁.counter ≤ c₂.counter) :
    LabelGrown c c₂ l l₂ := by
  obtain rfl | ⟨rfl, n, rfl, h₁, h₂⟩ := h
  · obtain rfl | ⟨rfl, n, rfl, h₁, h₂⟩ := h'
    · exact .inl rfl
    · exact .inr ⟨rfl, n, rfl, by omega, h₂⟩
  · obtain rfl | ⟨hl, -⟩ := h'
    · exact .inr ⟨rfl, n, rfl, h₁, by omega⟩
    · cases hl

namespace Grown

theorem refl (c : Names) : Grown c c :=
  ⟨le_rfl, ⟨[], rfl, by simp⟩, rfl, rfl, rfl, .inl rfl, .inl rfl, fun _ => rfl⟩

theorem trans {c c₁ c₂ : Names} (h : Grown c c₁) (h' : Grown c₁ c₂) : Grown c c₂ where
  counter := h.counter.trans h'.counter
  indicators := by
    obtain ⟨new, hnew, hbound⟩ := h.indicators
    obtain ⟨new', hnew', hbound'⟩ := h'.indicators
    refine ⟨new' ++ new, by rw [hnew', hnew, List.append_assoc], fun entry hentry => ?_⟩
    obtain hentry | hentry := List.mem_append.1 hentry
    · obtain ⟨n, hn, hle, hlt⟩ := hbound' entry hentry
      exact ⟨n, hn, h.counter.trans hle, hlt⟩
    · obtain ⟨n, hn, hle, hlt⟩ := hbound entry hentry
      exact ⟨n, hn, hle, hlt.trans_le h'.counter⟩
  cleanupBase := h'.cleanupBase.trans h.cleanupBase
  inSwitch := h'.inSwitch.trans h.inSwitch
  needsLabel := h'.needsLabel.trans h.needsLabel
  breakLabel := h.breakLabel.trans h'.breakLabel h.counter h'.counter
  continueLabel := h.continueLabel.trans h'.continueLabel h.counter h'.counter
  unneeded hn := (h'.unneeded (h.needsLabel.trans hn)).trans (h.unneeded hn)

theorem fits (h : Grown c.names c'.names) {ns : List Nat} (hf : c.Fits ns) : c'.Fits ns := by
  intro n hn
  obtain ⟨hlt, hflag⟩ := hf n hn
  obtain ⟨new, hnew, hbound⟩ := h.indicators
  refine ⟨hlt.trans_le h.counter, fun entry hentry heq => ?_⟩
  have hmem : entry ∈ new ++ c.names.indicators := hnew ▸ hentry
  obtain hmem | hmem := List.mem_append.1 hmem
  · obtain ⟨n', hn', hle, -⟩ := hbound entry hmem
    cases heq.symm.trans hn'
    exact absurd hlt (not_lt.2 hle)
  · exact hflag entry hmem heq

theorem hasLabel {c c' : Names} (h : Grown c c') {n : Nat} (hn : c.HasLabel n) :
    c'.HasLabel n := by
  rcases hn with hn | hn
  · rcases h.breakLabel with heq | ⟨hnone, -⟩
    · exact .inl (heq.trans hn)
    · rw [hn] at hnone; cases hnone
  · rcases h.continueLabel with heq | ⟨hnone, -⟩
    · exact .inr (heq.trans hn)
    · rw [hn] at hnone; cases hnone

/-- A label of the innermost loop was there before or has a new number. -/
theorem hasLabel_or {c c' : Names} (h : Grown c c') {n : Nat} (hn : c'.HasLabel n) :
    c.HasLabel n ∨ c.counter ≤ n ∧ n < c'.counter := by
  rcases hn with hn | hn
  · rcases h.breakLabel with heq | ⟨-, i, hi, hbound⟩
    · exact .inl (.inl (heq.symm.trans hn))
    · cases hi.symm.trans hn; exact .inr hbound
  · rcases h.continueLabel with heq | ⟨-, i, hi, hbound⟩
    · exact .inl (.inr (heq.symm.trans hn))
    · cases hi.symm.trans hn; exact .inr hbound

end Grown

theorem Grown.number (c : Control) : Grown c.names { c with counter := c.counter + 1 }.names :=
  ⟨Nat.le_succ _, ⟨[], rfl, by simp⟩, rfl, rfl, rfl, .inl rfl, .inl rfl, fun _ => rfl⟩

theorem Grown.flagged {flag : Value} (x : VarId) (hflag : flag.localNumber? = some c.counter) :
    Grown c.names (c.flagged x flag).names :=
  ⟨Nat.le_succ _, ⟨[(x, flag)], rfl, by simpa using ⟨_, hflag, le_rfl, Nat.lt_succ_self _⟩⟩, rfl,
    rfl, rfl, .inl rfl, .inl rfl, fun _ => rfl⟩

theorem Leaves.grown (h : Leaves exit c l c') :
    Grown c.names c'.names := by
  cases h with
  | breakOut | breakTo | continueLoop | continueAt => exact .refl _
  | breakToNew _ h =>
    exact ⟨Nat.le_succ _, ⟨[], rfl, by simp⟩, rfl, rfl, rfl,
      .inr ⟨h, _, rfl, le_rfl, Nat.lt_succ_self _⟩, .inl rfl, fun _ => rfl⟩
  | continueAtNew hi h =>
    exact ⟨Nat.le_succ _, ⟨[], rfl, by simp⟩, rfl, rfl, rfl, .inl rfl,
      .inr ⟨h, _, rfl, le_rfl, Nat.lt_succ_self _⟩, fun hn => nomatch hi.symm.trans hn⟩

/-- The pieces of a body only add numbers, flags and labels. -/
theorem Emits.grown (h : Emits strict m γ sh c L c') : Grown c.names c'.names := by
  induction h with
  | nil | evaluates | declares | skips | cleanupsNil | line | evaluatesWaiting | waits | stops
  | leaves | chainNil | casesNil => exact .refl _
  | number => exact .number _
  | declaresFlag hflag | declaresWaiting hflag => exact .flagged _ hflag
  | append _ _ ih ih' | closes _ _ _ ih ih' | cleanupsCons _ _ ih ih' | ifThen _ _ _ _ ih ih'
  | elseIf _ _ _ _ ih ih' | caseBlock _ _ _ _ ih ih' => exact ih.trans ih'
  | ends _ _ ih | revive _ ih | abandons _ _ ih | returns _ _ ih | action _ _ _ _ ih
  | otherwise _ _ ih | defaultBlock _ _ ih | elementLoop _ _ _ ih => exact ih
  | exits _ _ hl ih => exact ih.trans hl.grown
  | switch _ _ ih =>
    exact ⟨ih.counter, ih.indicators, ih.cleanupBase, rfl, ih.needsLabel, ih.breakLabel,
      ih.continueLabel, ih.unneeded⟩
  | @loop _ c c₁ c₂ iterates label _ _ _ _ _ _ _ _ ih ih' =>
    have hboth : Grown (c.inLoop iterates).names c₂.names := by
      cases label <;> exact ih.trans ih'
    exact ⟨hboth.counter, hboth.indicators, rfl, rfl, rfl, .inl rfl, .inl rfl, fun _ => rfl⟩

/-! ### Cleanups -/

/-- What a piece does to the waiting cleanups. -/
def Balanced : Shape → Control → Control → Prop
  | .code, c, c' => ∃ top, c'.cleanups = top ++ c.cleanups ∧ c'.scope = top ++ c.scope
  | .cleanups closing ps, c, c' =>
    c'.cleanups = c.cleanups ∧ c'.scope = if closing then c.scope.drop ps.length else c.scope
  | .action _, c, c' | .chain, c, c' | .cases, c, c' =>
    c'.cleanups = c.cleanups ∧ c'.scope = c.scope

/-- Statements that leave the waiting cleanups as they were do the same to the scope. -/
theorem Balanced.scope_eq (h : Balanced .code c c') (hc : c'.cleanups = c.cleanups) : c'.scope = c.scope := by
  obtain ⟨top, htop, hscope⟩ := h
  rw [hc] at htop
  obtain rfl : top = [] := List.self_eq_append_left.1 htop
  exact hscope

theorem Leaves.balanced (h : Leaves exit c l c') :
    c'.cleanups = c.cleanups ∧ c'.scope = c.scope := by
  cases h <;> exact ⟨rfl, rfl⟩

/-- The pieces of a body that lowering writes are balanced. -/
theorem Emits.balanced (h : Emits strict m γ sh c L c') : Balanced sh c c' := by
  induction h with
  | nil | number | line | evaluates | declares | declaresFlag | skips | stops | leaves =>
    exact ⟨[], rfl, rfl⟩
  | append _ _ ih ih' =>
    obtain ⟨top, h₁, h₂⟩ := ih
    obtain ⟨top', h₁', h₂'⟩ := ih'
    exact ⟨top' ++ top, by rw [h₁', h₁, List.append_assoc], by rw [h₂', h₂, List.append_assoc]⟩
  | @evaluatesWaiting _ _ p | @waits _ _ p | @declaresWaiting _ _ _ _ _ p => exact ⟨[p], rfl, rfl⟩
  | ends _ _ ih | revive _ ih => exact ih
  | returns _ _ ih => exact ⟨[], ih.1, ih.2⟩
  | exits _ _ hl ih => exact ⟨[], hl.balanced.1.trans ih.1, hl.balanced.2.trans ih.2⟩
  | @closes _ c c₁ c₂ _ _ ps _ hps _ ih ih' =>
    obtain ⟨top, htop, hscope⟩ := ih
    rw [hps] at htop
    obtain rfl := List.append_cancel_right htop
    exact ⟨[], ih'.1, by simp [ih'.2, hscope]⟩
  | abandons => exact ⟨[], rfl, rfl⟩
  | action _ hbal _ _ ih => exact ⟨hbal, ih.scope_eq hbal⟩
  | cleanupsNil => exact ⟨rfl, by simp⟩
  | @cleanupsCons _ _ _ _ closing _ _ _ _ _ _ ih ih' =>
    refine ⟨ih'.1.trans ih.1, ?_⟩
    rw [ih'.2, ih.2]
    cases closing <;> simp [Control.reached]
  | ifThen _ _ hbal _ ih ih' =>
    exact ⟨[], ih'.1.trans hbal, ih'.2.trans (ih.scope_eq hbal)⟩
  | chainNil | casesNil => exact ⟨rfl, rfl⟩
  | otherwise _ hbal ih | defaultBlock _ hbal ih => exact ⟨hbal, ih.scope_eq hbal⟩
  | elseIf _ _ hbal _ ih ih' | caseBlock _ _ hbal _ ih ih' =>
    exact ⟨ih'.1.trans hbal, ih'.2.trans (ih.scope_eq hbal)⟩
  | switch _ _ ih => exact ⟨[], ih.1, ih.2⟩
  | elementLoop _ _ hbal ih => exact ⟨[], hbal, ih.scope_eq hbal⟩
  | @loop _ c c₁ c₂ _ label _ _ _ hbal _ _ hbal' _ ih ih' =>
    refine ⟨[], hbal', ?_⟩
    have hscope : c₂.scope = c₁.scope := by
      cases label <;> exact ih'.scope_eq (hbal'.trans hbal.symm)
    exact hscope.trans (ih.scope_eq hbal)

/-! ### Flags and labels by their numbers -/

/-- Flags and labels are told apart by their numbers. -/
structure Names.Sane (c : Names) : Prop where
  flags : ∀ entry ∈ c.indicators, ∃ n, entry.2.localNumber? = some n ∧ n < c.counter
  distinct : ∀ x y v v', c.indicators.lookup x = some v → c.indicators.lookup y = some v' →
    v.localNumber? = v'.localNumber? → x = y
  labels : ∀ n, c.HasLabel n → n < c.counter
  apart : ∀ n, c.loop.breakLabel = some n → c.loop.continueLabel ≠ some n

namespace Names.Sane

/-- At the beginning of a body there are no flags and no labels. -/
theorem initial : ({} : Control).names.Sane where
  flags := by rintro entry ⟨⟩
  distinct := by rintro x y v v' ⟨⟩
  labels := by rintro n (hn | hn) <;> cases hn
  apart := by rintro n ⟨⟩

theorem lookup_lt {c : Names} (h : c.Sane) {x : VarId} {v : Value}
    (hv : c.indicators.lookup x = some v) : ∃ n, v.localNumber? = some n ∧ n < c.counter := by
  obtain ⟨l₁, l₂, heq, -⟩ := List.lookup_eq_some_iff.1 hv
  exact h.flags (x, v) (by simp [heq])

/-- Giving out a number changes nothing. -/
theorem number {c : Names} (h : c.Sane) : Sane { c with counter := c.counter + 1 } where
  flags := by
    intro entry hentry
    obtain ⟨n, hn, hlt⟩ := h.flags entry hentry
    exact ⟨n, hn, hlt.trans (Nat.lt_succ_self _)⟩
  distinct := h.distinct
  labels := fun n hn => (h.labels n hn).trans (Nat.lt_succ_self _)
  apart := h.apart

theorem flagged (h : c.names.Sane) {x : VarId} {flag : Value} (hflag : flag.localNumber? = some c.counter) :
    (c.flagged x flag).names.Sane where
  flags := by
    intro entry hentry
    obtain rfl | hentry := List.mem_cons.1 hentry
    · exact ⟨_, hflag, Nat.lt_succ_self _⟩
    · exact h.number.flags entry hentry
  distinct := by
    intro y z v v' hv hv' heq
    have old {y : VarId} {v : Value} (hy : y ≠ x)
        (hv : (c.flagged x flag).indicators.lookup y = some v) : c.indicators.lookup y = some v := by
      rwa [Control.flagged, List.lookup_cons, beq_false_of_ne hy] at hv
    have new {v : Value} (hv : (c.flagged x flag).indicators.lookup x = some v) : v = flag := by
      rw [Control.flagged, List.lookup_cons, beq_self_eq_true] at hv
      exact (Option.some.inj hv).symm
    have fresh {y : VarId} {v : Value} (hv : c.indicators.lookup y = some v) :
        v.localNumber? ≠ flag.localNumber? := by
      obtain ⟨n, hn, hlt⟩ := h.lookup_lt hv
      rw [hn, hflag]
      exact fun heq => absurd hlt (by cases heq; exact lt_irrefl _)
    by_cases hy : y = x <;> by_cases hz : z = x
    · rw [hy, hz]
    · subst hy
      rw [new hv] at heq
      exact absurd heq.symm (fresh (old hz hv'))
    · subst hz
      rw [new hv'] at heq
      exact absurd heq (fresh (old hy hv))
    · exact h.distinct y z v v' (old hy hv) (old hz hv') heq
  labels := h.number.labels
  apart := h.apart

/-- In another loop the labels are those of that loop. -/
theorem withLoop {c : Names} (h : c.Sane) {loop : LoopState}
    (hlabels : ∀ n, Names.HasLabel { c with loop } n → n < c.counter)
    (hapart : ∀ n, loop.breakLabel = some n → loop.continueLabel ≠ some n) :
    Sane { c with loop } :=
  ⟨h.flags, h.distinct, hlabels, hapart⟩

end Names.Sane

theorem Leaves.sane (h : Leaves exit c l c') (hc : c.names.Sane) : c'.names.Sane := by
  cases h with
  | breakOut | breakTo | continueLoop | continueAt => exact hc
  | breakToNew _ =>
    refine hc.number.withLoop ?_ ?_
    · rintro n (hn | hn)
      · cases hn; exact Nat.lt_succ_self _
      · exact hc.number.labels n (.inr hn)
    · intro n hn hn'
      cases hn
      exact absurd (hc.labels _ (.inr hn')) (lt_irrefl _)
  | continueAtNew _ =>
    refine hc.number.withLoop ?_ ?_
    · rintro n (hn | hn)
      · exact hc.number.labels n (.inl hn)
      · cases hn; exact Nat.lt_succ_self _
    · intro n hn hn'
      cases hn'
      exact absurd (hc.labels _ (.inl hn)) (lt_irrefl _)

theorem Names.Sane.inLoop (hc : c.names.Sane) (iterates : Bool) :
    (c.inLoop iterates).names.Sane :=
  hc.withLoop (by rintro n (hn | hn) <;> cases hn) (by rintro n hn; cases hn)

theorem Names.Sane.inSwitch (hc : c.names.Sane) : c.inSwitch.names.Sane :=
  hc.withLoop hc.labels hc.apart

/-- The pieces of a body that lowering writes keep flags and labels apart. -/
theorem Emits.sane (h : Emits strict m γ sh c L c') (hc : c.names.Sane) : c'.names.Sane := by
  induction h with
  | nil | evaluates | declares | skips | cleanupsNil | line | evaluatesWaiting | waits | stops
  | leaves | chainNil | casesNil => exact hc
  | number => exact hc.number
  | declaresFlag hflag | declaresWaiting hflag => exact hc.flagged hflag
  | append _ _ ih ih' | closes _ _ _ ih ih' | cleanupsCons _ _ ih ih' | ifThen _ _ _ _ ih ih'
  | elseIf _ _ _ _ ih ih' | caseBlock _ _ _ _ ih ih' => exact ih' (ih hc)
  | ends _ _ ih | revive _ ih | abandons _ _ ih | returns _ _ ih | action _ _ _ _ ih
  | otherwise _ _ ih | defaultBlock _ _ ih | elementLoop _ _ _ ih => exact ih hc
  | exits _ _ hl ih => exact hl.sane (ih hc)
  | switch _ _ ih => exact (ih hc.inSwitch).withLoop (ih hc.inSwitch).labels (ih hc.inSwitch).apart
  | @loop _ c c₁ c₂ iterates label _ _ hX _ _ hI _ _ ih ih' =>
    have h₂ : c₂.names.Sane := ih' (by cases label <;> exact ih (hc.inLoop _))
    have hgrown : Grown (c.inLoop iterates).names c₂.names :=
      hX.grown.trans (by have := hI.grown; cases label <;> exact this)
    exact h₂.withLoop (fun n hn => (hc.labels n hn).trans_le hgrown.counter) hc.apart

end CBackend.Emission
