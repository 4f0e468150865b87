import CBackend.Proofs.Emission.Layout

/-!
# Flags of the variables that are moved out of

A variable that is moved out of somewhere has a flag, under which it is destroyed. The flag of a
variable whose cleanup waits is either still raised, or the variable was moved out of, and then it has
been cleared or a newer cleanup is going to clear it.
-/

namespace CBackend.Emission

open IR Flow

variable {p : Pending} {x : VarId} {n : Nat}

/-- Variables that have a flag, and are moved out of by expressions only, none of which takes an
element of an array temporary. -/
structure Tracked (strict : Bool) (m : Module) (T : VarId → Prop) : Prop where
  strict : ∀ x, T x → strict = true
  everMoved : ∀ x, T x → EverMoved m x
  declared : ∀ x cleanup, T x → Declared m cleanup → cleanup.moved ≠ some x
  ofExpr : ∀ x cleanup, T x → OfExpr m cleanup → cleanup.moved = some x →
    isArrayRest cleanup = false

/-- The number of the flag of a variable. -/
def Control.flagOf (c : Control) (x : VarId) : Option Nat :=
  (c.indicators.lookup x).bind Value.localNumber?

/-- The table of flags has the flags of the cleanups in scope. -/
def Control.Tracks (c : Control) (T : VarId → Prop) : Prop :=
  ∀ x, T x → ∀ p ∈ c.scope, p.owner = some x → p.guard? = c.flagOf x

/-- No tracked variable is bound while an earlier binding of it is in scope. -/
def NoneTwice (T : VarId → Prop) (L : List Step) : Prop :=
  ∀ x, T x → .note (.declares x true) ∉ L

namespace NoneTwice

variable {T : VarId → Prop} {L L' : List Step}

theorem left (h : NoneTwice T (L ++ L')) : NoneTwice T L :=
  fun x hx hmem => h x hx (List.mem_append_left _ hmem)

theorem right (h : NoneTwice T (L ++ L')) : NoneTwice T L' :=
  fun x hx hmem => h x hx (List.mem_append_right _ hmem)

theorem tail {s : Step} (h : NoneTwice T (s :: L)) : NoneTwice T L :=
  fun x hx hmem => h x hx (List.mem_cons_of_mem _ hmem)

theorem iteration {b : Bool} (h : NoneTwice T (iterationSteps b L)) : NoneTwice T L := by
  cases b
  · exact h
  · exact h.tail

theorem action {A : List Step}
    (h : NoneTwice T (.note (.starts p) :: (guardSteps p A ++ clearSteps p ++ [.note (.finishes p)]))) :
    NoneTwice T A := by
  have hguard := h.tail.left.left
  rw [guardSteps] at hguard
  split at hguard
  · exact hguard.tail.tail.left
  · exact hguard

end NoneTwice

variable {strict : Bool} {m : Module} {γ : Exits} {sh : Shape} {c c' : Control} {L : List Step}
  {T : VarId → Prop}

theorem Control.flagOf_flagged_self (c : Control) (x : VarId) (flag : Value) :
    (c.flagged x flag).flagOf x = flag.localNumber? := by
  simp [Control.flagOf, Control.flagged]

theorem Control.flagOf_flagged_of_ne (c : Control) {y : VarId} (h : y ≠ x) (flag : Value) :
    (c.flagged x flag).flagOf y = c.flagOf y := by
  simp [Control.flagOf, Control.flagged, List.lookup_cons, beq_false_of_ne h]

theorem Control.owner_ne_of_not_holds (h : c.holds x = false) (hp : p ∈ c.scope) : p.owner ≠ some x := by
  simpa using List.any_eq_false.1 h p hp

/-- Declaring a flag keeps the table right, unless the variable is in scope. -/
theorem Control.Tracks.flagged {flag : Value} (h : c.Tracks T) (hx : T x → c.holds x = false) :
    (c.flagged x flag).Tracks T := by
  intro y hy p hp howner
  by_cases hne : y = x
  · subst hne
    exact absurd howner (owner_ne_of_not_holds (hx hy) hp)
  · rw [c.flagOf_flagged_of_ne hne]
    exact h y hy p hp howner

theorem Control.Tracks.push (h : c.Tracks T) (hp : ∀ x, T x → p.owner = some x → p.guard? = c.flagOf x) :
    (c.push p).Tracks T := by
  intro x hx q hq howner
  obtain rfl | hq := List.mem_cons.1 hq
  · exact hp x hx howner
  · exact h x hx q hq howner

theorem Control.Tracks.of_subset (h : c.Tracks T) (hscope : c'.scope ⊆ c.scope)
    (hindicators : c'.indicators = c.indicators) : c'.Tracks T := by
  intro x hx p hp howner
  rw [Control.flagOf, hindicators]
  exact h x hx p (hscope hp) howner

theorem Leaves.tracks {exit : LoopExit} {l : C.Line} (h : Leaves exit c l c') (hc : c.Tracks T) :
    c'.Tracks T := by
  cases h <;> exact hc

theorem Control.reached_scope_subset (c : Control) (closing : Bool) :
    (c.reached closing).scope ⊆ c.scope := by
  cases closing
  · exact List.Subset.refl _
  · exact (List.tail_sublist c.scope).subset

private theorem not_holds {ls : List Step} (h : NoneTwice T (.note (.declares x (c.holds x)) :: ls)) (hx : T x) :
    c.holds x = false := by
  by_contra hne
  rw [Bool.not_eq_false] at hne
  exact h x hx (by simp [hne])

/-- The pieces of a body that lowering writes keep the table of flags right. -/
theorem Emits.tracks (h : Emits strict m γ sh c L c') (hT : Tracked strict m T) (hc : c.Tracks T)
    (hL : NoneTwice T L) : c'.Tracks T := by
  induction h with
  | nil | number | evaluates | declares | skips | cleanupsNil | line | stops | leaves | chainNil
  | casesNil => exact hc
  | append _ _ ih ih' => exact ih' (ih hc hL.left) hL.right
  | evaluatesWaiting _ howner => exact hc.push fun x _ hx => by rw [howner] at hx; cases hx
  | waits _ howner => exact hc.push fun x hx hown => absurd (hT.everMoved x hx) (howner x hown)
  | declaresFlag => exact hc.flagged (not_holds hL)
  | @declaresWaiting _ c x _ flag p _ _ howner hguard =>
    refine (hc.flagged (not_holds hL)).push fun y _ hown => ?_
    cases howner.symm.trans hown
    rw [c.flagOf_flagged_self, Pending.guard?, hguard, Option.bind_some]
  | ends _ _ ih => exact ih hc hL.left
  | revive _ ih => exact ih hc hL
  | returns _ _ ih => exact ih hc hL.left
  | exits _ _ hl ih => exact hl.tracks (ih hc hL.left)
  | closes _ _ _ ih ih' => exact ih' (ih hc hL.left) hL.right
  | abandons h₁ _ ih =>
    obtain ⟨top, -, hscope⟩ := h₁.balanced
    refine (ih hc hL).of_subset ?_ rfl
    rw [hscope]
    exact List.subset_append_right _ _
  | action _ _ _ _ ih => exact ih hc hL.action
  | @cleanupsCons _ c _ _ closing _ _ _ _ _ _ ih ih' =>
    refine ih' (ih ?_ hL.left) hL.right
    exact hc.of_subset (c.reached_scope_subset closing) rfl
  | ifThen _ _ _ _ ih ih' | elseIf _ _ _ _ ih ih' =>
    exact ih' (ih hc hL.tail.tail.left) hL.tail.tail.right.tail
  | otherwise _ _ ih | switch _ _ ih | elementLoop _ _ _ ih => exact ih hc hL.tail.tail.left
  | caseBlock _ _ _ _ ih ih' =>
    exact ih' (ih hc hL.right.tail.left.left) hL.right.tail.right.tail
  | defaultBlock _ _ ih => exact ih hc hL.tail.tail.left.left
  | @loop _ c c₁ c₂ _ label _ _ _ _ _ _ _ _ ih ih' =>
    have h₁ : c₁.Tracks T := ih hc hL.tail.tail.tail.left.left.left
    have h₂ : c₂.Tracks T := ih' (by cases label <;> exact h₁) hL.tail.tail.tail.left.right.iteration
    exact h₂

/-! ### What flags tell -/

/-- What the flag of a variable tells while some frames are newer than the variable's. -/
def FlagTells (w : World) (x : VarId) (n : Nat) (newer : List Frame) : Prop :=
  if w.moved x then
    w.flags n = some false ∨ w.flags n = some true ∧ ∃ f ∈ newer, f.pending.clears? = some n
  else
    w.flags n = some true ∧ ∀ f ∈ newer, f.pending.clears? ≠ some n

/-- The cleanup of a variable waits under a flag that tells whether the variable was moved out of. -/
def FlagsHold (w : World) (x : VarId) : Prop :=
  ∀ newer p older, w.stack = newer ++ .waiting p :: older → p.owner = some x → w.feasible = true →
    ∃ n, p.guard? = some n ∧ FlagTells w x n newer

/-- What is known at a point of a body: the cleanups that are not over, the loops around, and that the
flags tell what they should. -/
structure Holds (strict : Bool) (T : VarId → Prop) (frames : List Frame)
    (loops : Marks) (w : World) : Prop where
  stack : strict = true → w.stack = frames
  loops : strict = true → w.loops = loops
  flags : ∀ x, T x → FlagsHold w x
  calm : ∀ p x, w.starting = some p → p.owner = some x → ¬ T x

/-- The flags of the waiting cleanups are not among the given numbers. -/
def Apart (T : VarId → Prop) (frames : List Frame) (ns : List Nat) : Prop :=
  ∀ x p n, T x → .waiting p ∈ frames → p.owner = some x → p.guard? = some n → n ∉ ns

variable {F : List Frame} {W : Marks} {w w' : World}

theorem FlagTells.congr {newer : List Frame} (h : FlagTells w x n newer) (hmoved : w'.moved x = w.moved x)
    (hflags : w'.flags n = w.flags n) :
    FlagTells w' x n newer := by
  rwa [FlagTells, hmoved, hflags]

/-- A newer frame clears the flag just if the variable is moved out of with it. -/
theorem FlagTells.cons {newer : List Frame} {f : Frame} {b : Bool} (h : FlagTells w x n newer)
    (hmoved : w'.moved x = (w.moved x || b)) (hflags : w'.flags n = w.flags n)
    (hclears : f.pending.clears? = some n ↔ b = true) :
    FlagTells w' x n (f :: newer) := by
  rw [FlagTells] at h ⊢
  rw [hmoved, hflags]
  cases hm : w.moved x with
  | true =>
    rw [hm] at h
    refine h.imp id fun ⟨hn, f', hf', hclears'⟩ => ⟨hn, f', List.mem_cons_of_mem _ hf', hclears'⟩
  | false =>
    rw [hm] at h
    cases b with
    | true => exact .inr ⟨h.1, f, List.mem_cons_self, hclears.2 rfl⟩
    | false =>
      have hne : f.pending.clears? ≠ some n := fun hn => Bool.false_ne_true (hclears.1 hn)
      exact ⟨h.1, List.forall_mem_cons.2 ⟨hne, h.2⟩⟩

namespace Holds

/-- Nothing is asked of the flags of an event, where no cleanup of a variable begins. -/
theorem ok {e : Event} (h : Holds strict T F W w) (he : e.Reachable)
    (horder : strict = true → w.Orderly e) : (discipline strict T).Ok w e :=
  ⟨he, horder, fun x hx p hp howner => absurd hx (h.calm p x hp howner)⟩

/-- What does not touch the flags of waiting cleanups keeps what is known. -/
theorem frame (h : Holds strict T F W w) (hT : ∀ x, T x → strict = true)
    (hstack : w'.stack = w.stack) (hloops : w'.loops = w.loops)
    (hmoved : ∀ x p, T x → .waiting p ∈ F → p.owner = some x → p.guard?.isSome = true →
      w'.moved x = w.moved x)
    (hfeasible : w'.feasible = true → w.feasible = true) (hstart : w'.starting = none)
    (hflags : ∀ x p n, T x → .waiting p ∈ F → p.owner = some x → p.guard? = some n →
      w'.flags n = w.flags n) : Holds strict T F W w' where
  stack hs := hstack.trans (h.stack hs)
  loops hs := hloops.trans (h.loops hs)
  flags := by
    intro x hx newer p older heq howner hf
    rw [hstack] at heq
    obtain ⟨n, hn, htells⟩ := h.flags x hx newer p older heq howner (hfeasible hf)
    have hmem : .waiting p ∈ F := by rw [← h.stack (hT x hx), heq]; simp
    refine ⟨n, hn, htells.congr (hmoved x p hx hmem howner ?_) (hflags x p n hx hmem howner hn)⟩
    rw [hn, Option.isSome_some]
  calm := by simp [hstart]

/-- A cleanup begins to wait. Exactly if it clears the flag of a variable, the variable is moved out
of; its own variable has just been declared. -/
theorem push {moves : VarId → Bool} (h : Holds strict T F W w) (hT : ∀ x, T x → strict = true)
    (hstack : w'.stack = .waiting p :: w.stack) (hloops : w'.loops = w.loops)
    (hmoved : ∀ x, T x → w'.moved x = (w.moved x || moves x)) (hfeasible : w'.feasible = true → w.feasible = true)
    (hstart : w'.starting = none) (hflags : w'.flags = w.flags) (hself : ∀ x, T x → p.owner = some x →
      ∃ n, p.guard? = some n ∧ w'.flags n = some true ∧ w'.moved x = false)
    (hclears : ∀ x q n, T x → .waiting q ∈ F → q.owner = some x → q.guard? = some n →
      (p.clears? = some n ↔ moves x = true)) : Holds strict T (.waiting p :: F) W w' where
  stack hs := by rw [hstack, h.stack hs]
  loops hs := hloops.trans (h.loops hs)
  flags := by
    intro x hx newer q older heq howner' hf
    rw [hstack] at heq
    cases newer with
    | nil =>
      cases heq
      obtain ⟨n, hn, htrue, hnew⟩ := hself x hx howner'
      exact ⟨n, hn, by simp [FlagTells, hnew, htrue]⟩
    | cons f newer =>
      obtain ⟨rfl, htail⟩ := List.cons.inj heq
      obtain ⟨n, hn, htells⟩ := h.flags x hx newer q older htail howner' (hfeasible hf)
      have hmem : .waiting q ∈ F := by rw [← h.stack (hT x hx), htail]; simp
      exact ⟨n, hn, htells.cons (hmoved x hx) (by rw [hflags]) (hclears x q n hx hmem howner' hn)⟩
  calm := by simp [hstart]

/-- The code of a cleanup begins. The flag of its variable, if it has one, tells at once whether the
variable was moved out of. -/
theorem starts (h : Holds strict T (.waiting p :: F) W w) (hT : ∀ x, T x → strict = true) (hx : T x)
    (howner : p.owner = some x) (hf : w.feasible = true) : ∃ n, p.guard? = some n ∧ w.flags n = some (!w.moved x) := by
  obtain ⟨n, hn, htells⟩ := h.flags x hx [] p F (h.stack (hT x hx)) howner hf
  refine ⟨n, hn, ?_⟩
  rw [FlagTells] at htells
  cases hm : w.moved x <;> rw [hm] at htells <;> simpa using htells

/-- A cleanup that waits is run instead. -/
theorem run (h : Holds strict T (.waiting p :: F) W w) (hT : ∀ x, T x → strict = true)
    (hstack : w'.stack = .running p :: w.stack.tail) (hloops : w'.loops = w.loops.touch w.stack.length)
    (hmoved : w'.moved = w.moved) (hfeasible : w'.feasible = true → w.feasible = true) (hflags : w'.flags = w.flags)
    (hcalm : ∀ q x, w'.starting = some q → q.owner = some x → ¬ T x) :
    Holds strict T (.running p :: F) (W.touch (F.length + 1)) w' where
  stack hs := by rw [hstack, h.stack hs, List.tail_cons]
  loops hs := by rw [hloops, h.stack hs, h.loops hs, List.length_cons]
  flags := by
    intro x hx newer q older heq howner hf
    rw [hstack, h.stack (hT x hx), List.tail_cons] at heq
    cases newer with
    | nil => cases heq
    | cons f newer =>
      obtain ⟨rfl, htail⟩ := List.cons.inj heq
      have hold : w.stack = .waiting p :: newer ++ .waiting q :: older := by
        rw [h.stack (hT x hx), htail]; rfl
      obtain ⟨n, hn, htells⟩ := h.flags x hx _ q older hold howner (hfeasible hf)
      refine ⟨n, hn, ?_⟩
      rw [FlagTells, hmoved, hflags]
      simpa [FlagTells, Frame.pending] using htells
  calm := hcalm

/-- The flag that a cleanup clears is cleared. -/
theorem clear (h : Holds strict T (.running p :: F) W w) (hT : ∀ x, T x → strict = true) (hn : p.clears? = some n)
    (hstack : w'.stack = w.stack) (hloops : w'.loops = w.loops) (hmoved : w'.moved = w.moved)
    (hfeasible : w'.feasible = w.feasible) (hstart : w'.starting = none)
    (hself : w'.flags n = (w.flags n).map fun _ => false) (hflags : ∀ i, i ≠ n → w'.flags i = w.flags i) :
    Holds strict T (.running p :: F) W w' where
  stack hs := hstack.trans (h.stack hs)
  loops hs := hloops.trans (h.loops hs)
  flags := by
    intro x hx newer q older heq howner hf
    rw [hstack] at heq
    obtain ⟨i, hi, htells⟩ := h.flags x hx newer q older heq howner (hfeasible ▸ hf)
    refine ⟨i, hi, ?_⟩
    by_cases hne : i = n
    · subst hne
      have hnewer : .running p ∈ newer := by
        rw [h.stack (hT x hx)] at heq
        cases newer with
        | nil => cases heq
        | cons f newer => rw [(List.cons.inj heq).1]; exact List.mem_cons_self
      rw [FlagTells] at htells ⊢
      rw [hmoved, hself]
      cases hm : w.moved x with
      | false => rw [hm] at htells; exact absurd hn (htells.2 _ hnewer)
      | true =>
        rw [hm] at htells
        obtain hflag | ⟨hflag, -⟩ := htells <;> exact .inl (by rw [hflag]; rfl)
    · exact htells.congr (by rw [hmoved]) (hflags i hne)
  calm := by simp [hstart]

/-- A cleanup that ran is over, and the flag it clears is not raised. -/
theorem finish (h : Holds strict T (.running p :: F) W w) (hT : ∀ x, T x → strict = true)
    (hcleared : ∀ n, p.clears? = some n → w.flags n ≠ some true) (hstack : w'.stack = w.stack.tail)
    (hloops : w'.loops = w.loops) (hmoved : w'.moved = w.moved) (hfeasible : w'.feasible = w.feasible)
    (hstart : w'.starting = none) (hflags : w'.flags = w.flags) : Holds strict T F W w' where
  stack hs := by rw [hstack, h.stack hs, List.tail_cons]
  loops hs := hloops.trans (h.loops hs)
  flags := by
    intro x hx newer q older heq howner hf
    rw [hstack, h.stack (hT x hx), List.tail_cons] at heq
    have hold : w.stack = .running p :: newer ++ .waiting q :: older := by
      rw [h.stack (hT x hx), heq, List.cons_append]
    obtain ⟨n, hn, htells⟩ := h.flags x hx _ q older hold howner (hfeasible ▸ hf)
    refine ⟨n, hn, ?_⟩
    rw [FlagTells] at htells ⊢
    rw [hmoved, hflags]
    cases hm : w.moved x with
    | false =>
      rw [hm] at htells
      exact ⟨htells.1, (List.forall_mem_cons.1 htells.2).2⟩
    | true =>
      rw [hm] at htells
      obtain hflag | ⟨hflag, f, hf, hclears⟩ := htells
      · exact .inl hflag
      · obtain rfl | hf := List.mem_cons.1 hf
        · exact absurd hflag (hcleared n hclears)
        · exact .inr ⟨hflag, f, hf, hclears⟩
  calm := by simp [hstart]

end Holds

end CBackend.Emission
