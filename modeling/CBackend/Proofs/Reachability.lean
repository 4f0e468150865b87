import CBackend.Proofs.Bracketing.Nodes
import CBackend.Proofs.CleanupOrder
import Mathlib.Data.List.Induction

/-!
# Points that control does not get to

Lowering keeps a flag which says that control cannot get past the last line, and leaves out what would
follow. The flag is set just if a note at that point says the same, and no path through the finished body
passes such a note. So nothing that is left out could have been reached, no case falls through into the
next one, and control does not get to the closing brace of a function that yields something.

## Main definitions

* `EndsUnreached` : a note says that control does not get past the last line.

## Main results

* `endsNoted_eq_true_iff` : what the flag says, seen from the steps.
* `terminated_points_unreached` : control does not get to points where the flag is set.
-/

namespace CBackend

open IR Flow Emission Lowering

variable {m : Module}

/-- A note says that control does not get past the last line. -/
def EndsUnreached (L : List Step) : Prop :=
  ∃ P N, L = P ++ .note .ends :: N ∧ ∀ s ∈ N, s.line? = none

theorem EndsUnreached.append_note {L : List Step} {n : Note} (h : EndsUnreached L) :
    EndsUnreached (L ++ [.note n]) := by
  obtain ⟨P, N, rfl, hN⟩ := h
  refine ⟨P, N ++ [.note n], by simp, fun s hs => ?_⟩
  obtain hs | hs := List.mem_append.1 hs
  · exact hN s hs
  · rw [List.mem_singleton.1 hs]
    rfl

/-- After the last of the notes that say so there is no line. -/
theorem EndsUnreached.of_append {L : List Step} {s : Step} (h : EndsUnreached (L ++ [s]))
    (hs : s ≠ .note .ends) : s.line? = none ∧ EndsUnreached L := by
  obtain ⟨P, N, heq, hN⟩ := h
  obtain rfl | ⟨N, s', rfl⟩ := List.eq_nil_or_concat' N
  · exact absurd (List.append_inj_right' heq rfl |> List.cons.inj |>.1) hs
  · rw [← List.cons_append, ← List.append_assoc] at heq
    obtain ⟨rfl, hlast⟩ := List.append_inj' heq rfl
    obtain rfl := (List.cons.inj hlast).1
    exact ⟨hN s (by simp), P, N, rfl, fun s' hs' => hN s' (by simp [hs'])⟩

theorem endsNoted_eq_true_iff (L : List Step) : endsNoted L = true ↔ EndsUnreached L := by
  induction L using List.reverseRecOn with
  | nil => exact ⟨by rintro ⟨⟩, fun ⟨P, N, h, _⟩ => by simp at h⟩
  | append_singleton L s ih =>
    rw [endsNoted_append]
    split
    · exact ⟨by rintro ⟨⟩, fun h => by cases (h.of_append (by rintro ⟨⟩)).1⟩
    · exact ⟨fun _ => ⟨L, [], rfl, by simp⟩, fun _ => rfl⟩
    · next n hn =>
      rw [ih]
      exact ⟨.append_note, fun h => (h.of_append fun heq => hn (Step.note.inj heq)).2⟩

/-- The events of a path through a body are such that control gets there. -/
theorem reachable_of_legal {strict : Bool} {T : VarId → Prop} {w : World} {t : List Event}
    (h : (discipline strict T).Legal w t) : ∀ e ∈ t, e.Reachable := by
  induction t generalizing w with
  | nil => exact fun e he => absurd he List.not_mem_nil
  | cons e t ih => exact List.forall_mem_cons.2 ⟨h.1.1, ih h.2⟩

/-- A node of a module is lowered. -/
inductive LowersNode (m : Module) (d d' : Draft) : Prop
  | expr {depth id dest v} (h : (walk m depth).expr id dest d = .ok (v, d'))
  | stmt {depth id} (h : (walk m depth).stmt id d = .ok ((), d'))
  | cleanup {depth p} (h : (walk m depth).cleanup p d = .ok ((), d'))

theorem LowersNode.framed {d d' : Draft} (h : LowersNode m d d') : Framed false d.func d'.func := by
  cases h with
  | @expr depth id dest v h =>
    exact Steps.framed_of_ok ((walk_bracketed false m depth).expr [] id dest .of_false) h
  | @stmt depth id h => exact Steps.framed_of_ok ((walk_bracketed false m depth).stmt [] id) h
  | @cleanup depth p h =>
    exact Steps.framed_of_ok ((walk_bracketed false m depth).cleanup ⟨[], false⟩ p) h

/-- The flag which says that control cannot get past the last line is sound. It is not set when a body is
begun, and after each node it is set just if a note says so. No path through a body passes such a note or
one that says that something is left out, and no case falls through. A function that yields something is
left by control before its closing brace. -/
theorem terminated_points_unreached :
    (∀ r : ResultPassing, ({ indent := 1, returns := r } : FunctionDraft).Recorded) ∧
    (∀ d d', d.func.Recorded → LowersNode m d d' →
      (d'.func.terminated = true ↔ EndsUnreached d'.func.steps.toList)) ∧
    ∀ options d body t o, generateDraft m options = .ok d → body ∈ d.bodies → HasPath body t o →
      (∀ e ∈ t, e.Reachable) ∧ OfFunction m body ∧ (body.returns ≠ .nothing → o ≠ .falls) := by
  refine ⟨fun _ => rfl, fun d d' hd h => ?_, fun options d body t o h hbody hpath => ?_⟩
  · rw [← endsNoted_eq_true_iff, h.framed.recorded hd]
  · have hwritten := (Finished.ofTidy false nofun h).written body hbody
    obtain ⟨c, he, -, hends⟩ := hwritten.emits
    obtain ⟨hlegal, hpost⟩ := he.meets .none .none hpath
    refine ⟨reachable_of_legal hlegal, hwritten.ofFunction, ?_⟩
    rintro hreturns rfl
    exact Bool.false_ne_true (hpost.1.symm.trans (hends hreturns))

/-- A function that returns a number, with a statement after the return. -/
def earlyReturn : Module where
  exprs := #[{ kind := .constant (.sint 1), ty := .builtin .i32, category := .rvalue }]
  stmts := #[.returnWith (some ⟨0⟩), .expression ⟨0⟩, .returnWith none]
  functions := #[{ name := "f", params := [], result := .builtin .i32, body := some [⟨0⟩, ⟨1⟩] }]
  roots := #[⟨0⟩]

/-- The beginning of the body of a function. -/
def atBeginning : Draft where
  options := {}
  func := { indent := 1 }

/-- Whether something is left out. -/
def Step.isSkip : Step → Bool
  | note .skips => true
  | _ => false

/-- In `earlyReturn` a statement is left out, which control does not get to. -/
theorem terminated_points_unreached_earlyReturn :
    (∃ d', LowersNode earlyReturn atBeginning d' ∧ d'.func.terminated = true ∧
      EndsUnreached d'.func.steps.toList) ∧
    ∃ d body t, generateDraft earlyReturn {} = .ok d ∧ body ∈ d.bodies ∧ body.returns ≠ .nothing ∧
      body.steps.any Step.isSkip = true ∧ HasPath body t .returns ∧ ∀ e ∈ t, e.Reachable := by
  constructor
  · have hrun : ((walk earlyReturn 2).stmt ⟨2⟩ atBeginning).toOption.any
        (fun r => r.2.func.terminated) = true := by decide +kernel
    cases h : (walk earlyReturn 2).stmt ⟨2⟩ atBeginning with
    | error e => rw [h] at hrun; cases hrun
    | ok r =>
      rw [h] at hrun
      exact ⟨r.2, .stmt h, hrun, (terminated_points_unreached.2.1 atBeginning r.2 rfl (.stmt h)).1 hrun⟩
  · obtain ⟨d, body, t, o, hd, hbody, hpath, hcheck⟩ := exists_path_of_follow earlyReturn 20 []
      (fun b _ o => b.returns != .nothing && b.steps.any Step.isSkip && o == .returns) (by decide +kernel)
    obtain ⟨⟨hreturns, hskips⟩, rfl⟩ :
        (body.returns ≠ .nothing ∧ body.steps.any Step.isSkip = true) ∧ o = .returns := by
      simpa only [Bool.and_eq_true, bne_iff_ne, beq_iff_eq] using hcheck
    exact ⟨d, body, t, hd, hbody, hreturns, hskips, hpath,
      (terminated_points_unreached.2.2 _ d body _ _ hd hbody hpath).1⟩

end CBackend
