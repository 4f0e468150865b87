import CBackend.C.CType
import CBackend.Proofs.Types.Spelling

/-!
# Pointer chains as stacks

A chain of pointer levels is a stack of bounded depth that is packed into one word. The word tells the stack: pushing
carries no count into the bits of the levels, popping leaves no bit behind, and two ways to build a chain give the same
word when they give the same stack.

## Main definitions

* `StackOp` : pushing and popping a level.
* `PointerChain.run?`, `StackOp.run?` : a sequence of operations, on a chain and on a list.
* `PointerChain.Represents` : what is read from a chain is what is read from a list.

## Main results

* `PointerChain.Packs.pop?_of_push` : popping undoes pushing.
* `pointer_chains_refine_stacks` : after any operations a chain represents the list after the same operations.
-/

namespace CBackend.C

/-- An operation on a stack of pointer levels. -/
inductive StackOp
  | push (l : PointerLevel)
  | pop

/-- The operation on a list of levels, the outermost first. A full list stays as it is, and an empty one has no level to
pop. -/
def StackOp.perform? (ls : List PointerLevel) : StackOp → Option (List PointerLevel)
  | .push l => some (if ls.length < PointerChain.maxDepth then l :: ls else ls)
  | .pop => ls.tail?

/-- A sequence of operations on the empty list. -/
def StackOp.run? (ops : List StackOp) : Option (List PointerLevel) :=
  ops.foldlM StackOp.perform? []

namespace PointerChain

/-- The operation on a chain. A full chain stays as it is. -/
def perform? (c : PointerChain) : StackOp → Option PointerChain
  | .push l => some ((c.push? l).getD c)
  | .pop => c.pop?.map Prod.snd

/-- A sequence of operations on the empty chain. -/
def run? (ops : List StackOp) : Option PointerChain :=
  ops.foldlM perform? .empty

/-- The chain reads as the list of levels, which has the outermost level first. -/
structure Represents (c : PointerChain) (ls : List PointerLevel) : Prop where
  length_le : ls.length ≤ maxDepth
  depth : c.depth = ls.length
  /-- The levels are read from the innermost to the outermost. -/
  levels : c.levels = ls.reverse
  top : c.top? = ls.head?
  popped : c.pop?.map Prod.fst = ls.head?
  /-- A level is refused when the list has its largest length, and only then. -/
  refuses : ∀ l, c.push? l = none ↔ ls.length = maxDepth

variable {c c' : PointerChain} {l : PointerLevel} {ls : List PointerLevel} {w : UInt64} {n : Nat}

/-! ### Popping -/

theorem testBit_clear (hn : n < maxDepth) (i : Nat) :
    (w &&& ~~~mask n).toNat.testBit i = (w.toNat.testBit i && decide (i ≠ n + 6)) := by
  have hmask : (mask n).toNat < 2 ^ 64 := (mask n).toNat_lt
  have hnot : (~~~mask n).toNat = 2 ^ 64 - ((mask n).toNat + 1) := by
    rw [UInt64.toNat_not, Nat.sub_sub, Nat.add_comm]
    rfl
  rw [UInt64.toNat_and, Nat.testBit_and, hnot, Nat.testBit_two_pow_sub_succ hmask, toNat_mask hn, Nat.testBit_two_pow]
  by_cases hi : i < 64
  · simp [hi, eq_comm]
  · have hclear : w.toNat.testBit i = false :=
      Nat.testBit_lt_two_pow (Nat.lt_of_lt_of_le w.toNat_lt (Nat.pow_le_pow_right (by decide) (Nat.le_of_not_lt hi)))
    simp [hclear]

/-- Clearing the bit of a level does not touch the number of levels. -/
theorem clear_mod (hn : n < maxDepth) : (w &&& ~~~mask n).toNat % 2 ^ 6 = w.toNat % 2 ^ 6 := by
  refine Nat.eq_of_testBit_eq fun i => ?_
  rw [Nat.testBit_mod_two_pow, Nat.testBit_mod_two_pow, testBit_clear hn]
  by_cases hi : i < 6
  · have hne : i ≠ n + 6 := by omega
    simp [hne]
  · simp [hi]

theorem testBit_clear_div (hn : n < maxDepth) (i : Nat) :
    ((w &&& ~~~mask n).toNat / 2 ^ 6).testBit i = ((w.toNat / 2 ^ 6).testBit i && decide (i ≠ n)) := by
  rw [Nat.testBit_div_two_pow, Nat.testBit_div_two_pow, testBit_clear hn]
  simp

namespace Packs

theorem depth_eq_length (h : Packs c ls) : c.depth = ls.length := by
  have hlength := congrArg List.length h.levels_eq
  simpa [PointerChain.levels] using hlength

theorem depth_le (h : Packs c ls) : c.depth ≤ maxDepth := by
  cases h with
  | empty => decide
  | push _ hpush =>
    obtain ⟨hfull, hdepth, -⟩ := push?_spec hpush
    omega

/-- The word without its outermost level is the word before that level came. -/
theorem word_of_push (h : Packs c ls) (hpush : c.push? l = some c') :
    (c'.word &&& ~~~mask c.depth) - 1 = c.word := by
  obtain ⟨hfull, hdepth, hbits⟩ := push?_spec hpush
  have hcount : (c'.word &&& ~~~mask c.depth).toNat % 2 ^ 6 = c.depth + 1 := by
    rw [clear_mod hfull, ← c'.depth_eq, hdepth]
  have hlevels : (c'.word &&& ~~~mask c.depth).toNat / 2 ^ 6 = c.bits := by
    refine Nat.eq_of_testBit_eq fun i => ?_
    have hclear : c.bits.testBit c.depth = false := Nat.testBit_lt_two_pow h.bits_lt
    have hi : (c'.word.toNat / 2 ^ 6).testBit i = c'.bits.testBit i := rfl
    rw [testBit_clear_div hfull, hi, hbits]
    by_cases hne : i = c.depth
    · simp [hne, hclear]
    · cases l <;> simp [hne, Nat.testBit_two_pow_of_ne (Ne.symm hne)]
  have hword : (c'.word &&& ~~~mask c.depth).toNat = c.word.toNat + 1 := by
    have hc := c.depth_eq
    unfold bits at hlevels
    omega
  rw [← UInt64.toNat_inj, UInt64.toNat_sub_of_le _ _ (by rw [UInt64.le_iff_toNat_le, hword]; simp), hword]
  simp

/-- Popping undoes pushing. -/
theorem pop?_of_push (h : Packs c ls) (hpush : c.push? l = some c') : c'.pop? = some (l, c) := by
  have hdepth : c'.depth = c.depth + 1 := (push?_spec hpush).2.1
  unfold pop?
  rw [hdepth]
  simp only [h.level_of_push hpush, h.word_of_push hpush]

theorem push?_eq_none_iff (h : Packs c ls) : c.push? l = none ↔ ls.length = maxDepth := by
  have hle := h.depth_le
  rw [← h.depth_eq_length]
  unfold push?
  by_cases hfull : maxDepth ≤ c.depth
  · rw [if_pos hfull]
    exact ⟨fun _ => Nat.le_antisymm hle hfull, fun _ => rfl⟩
  · rw [if_neg hfull]
    cases l <;> exact ⟨nofun, fun heq => absurd (Nat.le_of_eq heq.symm) hfull⟩

/-- One operation keeps a chain and a list of levels in step. -/
theorem perform? (h : Packs c ls) (op : StackOp) : Option.Rel Packs (c.perform? op) (op.perform? ls) := by
  cases op with
  | push l =>
    have hnone := h.push?_eq_none_iff (l := l)
    have hle := h.depth_eq_length ▸ h.depth_le
    refine .some ?_
    cases hpush : c.push? l with
    | none =>
      rw [if_neg (by rw [hnone.1 hpush]; exact Nat.lt_irrefl _)]
      exact h
    | some c' =>
      rw [if_pos (Nat.lt_of_le_of_ne hle fun heq => by rw [hnone.2 heq] at hpush; cases hpush)]
      exact .push h hpush
  | pop =>
    cases h with
    | empty => exact .none
    | push h hpush =>
      unfold PointerChain.perform?
      rw [h.pop?_of_push hpush]
      exact .some h

theorem foldlM (h : Packs c ls) (ops : List StackOp) :
    Option.Rel Packs (ops.foldlM PointerChain.perform? c) (ops.foldlM StackOp.perform? ls) := by
  induction ops generalizing c ls with
  | nil => exact .some h
  | cons op ops ih =>
    have hstep := h.perform? op
    rw [List.foldlM_cons, List.foldlM_cons]
    generalize c.perform? op = next, op.perform? ls = next' at hstep
    cases hstep with
    | none => exact .none
    | some h' => exact ih h'

theorem represents (h : Packs c ls) : Represents c ls where
  length_le := h.depth_eq_length ▸ h.depth_le
  depth := h.depth_eq_length
  levels := h.levels_eq
  top := by
    cases h with
    | empty => rfl
    | push h hpush =>
      unfold top?
      rw [(push?_spec hpush).2.1]
      simp only [h.level_of_push hpush, List.head?_cons]
  popped := by
    cases h with
    | empty => rfl
    | push h hpush => rw [h.pop?_of_push hpush]; rfl
  refuses := fun _ => h.push?_eq_none_iff

/-- Chains with the same levels are the same word. -/
theorem eq_of_levels {ls' : List PointerLevel} (h : Packs c ls) (h' : Packs c' ls') (heq : c.levels = c'.levels) :
    c = c' := by
  rw [h.levels_eq, h'.levels_eq, List.reverse_inj] at heq
  exact h.unique (heq ▸ h')

end Packs

theorem rel_run? (ops : List StackOp) : Option.Rel Packs (run? ops) (StackOp.run? ops) :=
  Packs.empty.foldlM ops

theorem packs_of_run? {ops : List StackOp} (hc : c ∈ run? ops) : ∃ ls, StackOp.run? ops = some ls ∧ Packs c ls := by
  have hrel := rel_run? ops
  rw [Option.mem_def.1 hc] at hrel
  generalize StackOp.run? ops = s at hrel
  cases hrel with
  | some h => exact ⟨_, rfl, h⟩

end PointerChain

/-- A chain after any operations reads as the list after the same operations, and the chains of two runs are equal when
the lists are. So the pointee of the pointer to a type is the type itself, and types are equal when their heads and
their levels are. -/
theorem pointer_chains_refine_stacks :
    (∀ ops, Option.Rel PointerChain.Represents (PointerChain.run? ops) (StackOp.run? ops)) ∧
    ∀ ops, ∀ c ∈ PointerChain.run? ops,
      (∀ ops', ∀ c' ∈ PointerChain.run? ops', c = c' ↔ StackOp.run? ops = StackOp.run? ops') ∧
      ∀ head,
        (∀ l, ((⟨head, c⟩ : CType).pointerTo? l).bind CType.pointee? =
          ((⟨head, c⟩ : CType).pointerTo? l).map fun _ => (⟨head, c⟩, l)) ∧
        ∀ ops', ∀ c' ∈ PointerChain.run? ops', ∀ head',
          (⟨head, c⟩ : CType) = ⟨head', c'⟩ ↔ head = head' ∧ c.levels = c'.levels := by
  refine ⟨fun ops => ?_, fun ops c hc => ?_⟩
  · have hrel := PointerChain.rel_run? ops
    generalize PointerChain.run? ops = c, StackOp.run? ops = ls at hrel
    cases hrel with
    | none => exact .none
    | some h => exact .some h.represents
  · obtain ⟨ls, hls, hpacks⟩ := PointerChain.packs_of_run? hc
    refine ⟨fun ops' c' hc' => ?_, fun head => ⟨fun l => ?_, fun ops' c' hc' head' => ?_⟩⟩
    · obtain ⟨ls', hls', hpacks'⟩ := PointerChain.packs_of_run? hc'
      rw [hls, hls', Option.some.injEq]
      refine ⟨fun heq => ?_, fun heq => hpacks.unique (heq ▸ hpacks')⟩
      rw [← List.reverse_inj, ← hpacks.levels_eq, ← hpacks'.levels_eq, heq]
    · unfold CType.pointerTo? CType.pointee?
      cases hpush : c.push? l with
      | none => rfl
      | some c' => simp [hpacks.pop?_of_push hpush]
    · obtain ⟨ls', -, hpacks'⟩ := PointerChain.packs_of_run? hc'
      rw [CType.mk.injEq]
      exact and_congr_right fun _ => ⟨congrArg _, hpacks.eq_of_levels hpacks'⟩

end CBackend.C
