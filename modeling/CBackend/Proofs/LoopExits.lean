import CBackend.Proofs.Bracketing.Nodes
import CBackend.Proofs.Emission.LoopExits
import CBackend.Proofs.Lowering.Functions

/-!
# Loop exits

Each `break` and `continue` of a source program leaves or goes on with the innermost loop around it,
whichever conditionals and switches lie between. The labels that this takes stand once in the body of their
function, and each of them is jumped to.

## Main definitions

* `IR.Module.JumpsInLoops` : `break` and `continue` are in loops.
* `FunctionDraft.Notes` : a note is made in the body of a function.

## Main results

* `notes_exprNode` : the lowering of a `break` or `continue` makes a note of it.
* `loop_exits_land` : where the exits go, and the labels for them.
-/

namespace CBackend

open IR Flow Emission
open Lowering (Walk walk)

/-- No `break` or `continue` leaves the body of a function, a cleanup, a plan for the elements of an array
or an iteration expression. -/
structure IR.Module.JumpsInLoops (m : Module) : Prop extends m.JumpsConfined where
  bodies : ∀ func f body, m.function? func = some f → f.body = some body →
    ∀ s ∈ body, Node.JumpFree m (.stmt s)

/-- The expression of an exit. -/
def LoopExit.kind : LoopExit → ExprKind
  | out => .breakLoop
  | next => .continueLoop

/-! ### Notes of exits -/

/-- A note is made between two states of a function. -/
def FunctionDraft.Notes (n : Note) (f f' : FunctionDraft) : Prop :=
  ∃ L L', f'.steps.toList = f.steps.toList ++ L ++ .note n :: L'

variable {m : Module} {options : Options} {d : Draft} {body : Body} {w : Walk} {exit : LoopExit}

theorem Framed.notes {b : Bool} {n : Note} {f f₁ f₂ : FunctionDraft} (h : Framed b f f₁)
    (h' : f₁.Notes n f₂) : f.Notes n f₂ := by
  obtain ⟨L, hL, -⟩ := h.steps
  obtain ⟨L₁, L₂, hL'⟩ := h'
  exact ⟨L ++ L₁, L₂, by simp [hL', hL]⟩

theorem FunctionDraft.Notes.framed {b : Bool} {n : Note} {f f₁ f₂ : FunctionDraft} (h : f.Notes n f₁)
    (h' : Framed b f₁ f₂) : f.Notes n f₂ := by
  obtain ⟨L, L₁, hL⟩ := h
  obtain ⟨L₂, hL', -⟩ := h'.steps
  exact ⟨L, L₁ ++ L₂, by simp [hL', hL]⟩

theorem Ensures.framed {α : Type} {x y : Emit α} {Φ : α → Prop} (h : Stays false ⟨[], false⟩ x y Φ) :
    Ensures d x fun _ d' => Framed false d.func d'.func :=
  fun _ _ hx => h.framed_of_ok hx

/-- An exit is noted after the cleanups of the loop. -/
theorem notes_exitLoop (hw : w.Bracketed false m) {k : Emit Unit} (hk : Stays false ⟨[], false⟩ k) :
    Ensures d (w.runLoopCleanups >>= fun _ => Emit.note (.exitsLoop exit) >>= fun _ => k) fun _ d' =>
      d.func.Notes (.exitsLoop exit) d'.func := by
  refine .bind (.framed (.runLoopCleanups hw)) fun _ d₁ h₁ => ?_
  have hnote : Ensures d₁ (Emit.note (.exitsLoop exit)) fun _ d' =>
      d₁.func.Notes (.exitsLoop exit) d'.func :=
    .modifyFunction ⟨[], [], by simp⟩
  exact .bind hnote fun _ _ h₂ => (Ensures.framed hk).mono fun _ _ h₃ => h₁.notes (h₂.framed h₃)

/-- The lowering of a `break` or `continue` makes a note of it. -/
theorem notes_exprNode (hw : w.Bracketed false m) {id : ExprId} {e : Expr} {dest : Option Value}
    (he : m.expr? id = some e) (hkind : e.kind = exit.kind) :
    Ensures d (Lowering.exprNode m w id dest) fun _ d' => d.func.Notes (.exitsLoop exit) d'.func := by
  have hexit (dest : Option Value) : Ensures d (Lowering.exprKind m w e dest) fun _ d' =>
      d.func.Notes (.exitsLoop exit) d'.func := by
    rw [Lowering.exprKind, hkind]
    cases exit with
    | out =>
      refine .bind (notes_exitLoop hw (.bind .breakLabel? fun label _ => ?_)) fun _ _ h => .pure h
      cases label <;> exact .exitLine rfl
    | next =>
      refine .bind (notes_exitLoop hw (.bind .continueLabel? fun label _ => ?_)) fun _ _ h => .pure h
      cases label <;> exact .exitLine rfl
  refine .lift_bind fun e' he' => ?_
  obtain rfl : e' = e := Option.some.inj ((eq_some_of_inRange he').symm.trans he)
  refine .bind (hexit _) fun _ _ h => ?_
  refine .bind (.framed .storeResult) fun _ _ h₁ => .bind (.framed .addOwnCleanup) fun _ _ h₂ => ?_
  exact .bind (.framed (.note nofun)) fun _ _ h₃ => .pure (((h.framed h₁).framed h₂).framed h₃)

/-- Each exit of a loop goes where it should, and the labels for this stand once and are jumped to. -/
theorem loop_exits_land (hm : m.JumpsInLoops) :
    (∀ depth id e exit dest d v d', m.expr? id = some e → e.kind = exit.kind →
      (walk m depth).expr id dest d = .ok (v, d') → d.func.Notes (.exitsLoop exit) d'.func) ∧
    ∀ options d body, generateDraft m options = .ok d → body ∈ d.bodies →
      (∀ P exit Q, body.steps = P ++ .note (.exitsLoop exit) :: Q → Lands P exit Q) ∧
      (body.steps.filterMap Step.label?).Nodup ∧
      ∀ n, n ∈ body.steps.filterMap Step.label? ↔ n ∈ body.steps.filterMap Step.goto? := by
  constructor
  · intro depth id e exit dest d v d' he hkind h
    cases depth with
    | zero => cases h
    | succ depth => exact notes_exprNode (Lowering.walk_bracketed false m depth) he hkind v d' h
  · intro options d body h hbody
    have hadmits : Admits false m ⟨false, true, true⟩ := ⟨fun _ => rfl, fun _ h => Bool.noConfusion h, fun _ => hm.toJumpsConfined⟩
    have hfinished : Finished false m ⟨false, true, true⟩ d :=
      finished_of_generateDraft (absurd · Bool.false_ne_true) rfl hadmits (fun func f body hf hbody s hs hreached =>
        ⟨hreached, hadmits, fun n' hn' hjumps => absurd hjumps (hm.bodies func f body hf hbody s hs n' hn'),
          fun _ _ _ => rfl⟩) h
    obtain ⟨c, he, -, -⟩ := (hfinished.written body hbody).emits
    have hnone (n : Nat) : ¬ c.names.HasLabel n := by
      rw [Names.HasLabel, Control.names, he.loop_eq rfl]
      rintro (hn | hn) <;> cases hn
    refine ⟨fun P exit Q hsplit => ?_, he.nodup_labels .initial, fun n => ?_⟩
    · exact (he.exitsLand rfl P exit Q hsplit).resolve_right (Bool.false_ne_true ·.1)
    · rw [Step.mem_filterMap_label?, Step.mem_filterMap_goto?]
      exact ⟨he.goto_of_label, fun hn => (he.label_of_goto rfl hn).resolve_right (hnone n)⟩

/-- A loop with an iteration expression. In a switch, one case leaves the loop, and the other one goes on
with it. -/
def switchInLoop : Module where
  exprs := #[{ kind := .breakLoop, ty := .void, category := .noreturn },
    { kind := .continueLoop, ty := .void, category := .noreturn },
    { kind := .constant (.sint 1), ty := .builtin .i32, category := .rvalue },
    { kind := .switch ⟨2⟩ [⟨[.sint 0], ⟨0⟩⟩, ⟨[.sint 1], ⟨1⟩⟩] none false, ty := .void, category := .none }]
  stmts := #[.forLoop none none (some ⟨2⟩) ⟨3⟩]
  functions := #[{ name := "f", params := [], result := .void, body := some [⟨0⟩] }]
  roots := #[⟨0⟩]

theorem jumpsInLoops_switchInLoop : switchInLoop.JumpsInLoops where
  cleanups := by
    have hnone : ∀ e ∈ switchInLoop.exprs, e.cleanup.call? = none := by decide
    rintro _ (⟨id, e, he, rfl⟩ | h) call hcall
    · cases (hnone e (Array.mem_of_getElem? he)).symm.trans hcall
    · cases h with
      | ofVariable h => cases Array.mem_of_getElem? h with | mk h => cases h
      | deferred h => simpa [switchInLoop] using Array.mem_of_getElem? h
      | ofElement h he =>
        have hmem := Array.mem_of_getElem? h
        simp only [switchInLoop, List.mem_toArray, List.mem_cons, List.not_mem_nil, or_false] at hmem
        obtain rfl | rfl | rfl | rfl := hmem <;> cases he
  plans := by
    have hnone : ∀ e ∈ switchInLoop.exprs, e.kind.elementPlan? = none := by decide
    intro id e he plan hplan
    cases (hnone e (Array.mem_of_getElem? he)).symm.trans hplan
  iterations := by
    intro id s hs e he n' hn'
    obtain rfl : s = _ := by simpa [switchInLoop] using Array.mem_of_getElem? hs
    cases he
    obtain rfl := hn'.eq_of_exposed_eq_nil rfl
    rintro ⟨_, ⟨⟩, hkind | hkind⟩ <;> cases hkind
  bodies := by
    intro func f body hf hbody s hs n' hn'
    obtain rfl : f = _ := by simpa [switchInLoop] using Array.mem_of_getElem? hf
    cases hbody
    obtain rfl := List.mem_singleton.1 hs
    obtain rfl := hn'.eq_of_exposed_eq_nil rfl
    exact id

/-- The exit that a note is about. -/
def Step.exit? : Step → Option LoopExit
  | note (.exitsLoop exit) => some exit
  | _ => none

theorem Step.note_mem_of_exit? {L : List Step} (h : exit ∈ L.filterMap exit?) :
    .note (.exitsLoop exit) ∈ L := by
  obtain ⟨s, hs, hexit⟩ := List.mem_filterMap.1 h
  rw [exit?.eq_def] at hexit
  split at hexit <;> cases hexit
  exact hs

/-- In `switchInLoop` there are two exits and two labels. -/
theorem loop_exits_land_switchInLoop :
    (∃ v d', (walk switchInLoop 1).expr ⟨0⟩ none { options := {} } = .ok (v, d') ∧
      FunctionDraft.Notes (.exitsLoop .out) {} d'.func) ∧
    ∃ d body P₁ Q₁ P₂ Q₂, generateDraft switchInLoop {} = .ok d ∧ body ∈ d.bodies ∧
      body.steps = P₁ ++ .note (.exitsLoop .out) :: Q₁ ∧ Lands P₁ .out Q₁ ∧
      body.steps = P₂ ++ .note (.exitsLoop .next) :: Q₂ ∧ Lands P₂ .next Q₂ ∧
      (body.steps.filterMap Step.label?).length = 2 ∧ (body.steps.filterMap Step.label?).Nodup := by
  obtain ⟨hnotes, hland⟩ := loop_exits_land jumpsInLoops_switchInLoop
  constructor
  · have hrun : ((walk switchInLoop 1).expr ⟨0⟩ none { options := {} }).toOption.isSome = true := by
      decide +kernel
    cases h : (walk switchInLoop 1).expr ⟨0⟩ none { options := {} } with
    | error e => rw [h] at hrun; cases hrun
    | ok r => exact ⟨r.1, r.2, rfl, hnotes 1 ⟨0⟩ _ .out none _ r.1 r.2 rfl rfl h⟩
  · obtain ⟨d, body, hd, hbody, hcheck⟩ := exists_body_of_any switchInLoop {}
      (fun b => b.steps.filterMap Step.exit? == [.out, .next] &&
        (b.steps.filterMap Step.label?).length == 2) (by decide +kernel)
    obtain ⟨hexits, hlength⟩ := Bool.and_eq_true_iff.1 hcheck
    have hmem (exit : LoopExit) : .note (.exitsLoop exit) ∈ body.steps := by
      refine Step.note_mem_of_exit? ?_
      rw [eq_of_beq hexits]
      cases exit <;> decide
    obtain ⟨P₁, Q₁, hsplit₁⟩ := List.append_of_mem (hmem .out)
    obtain ⟨P₂, Q₂, hsplit₂⟩ := List.append_of_mem (hmem .next)
    obtain ⟨hlands, hnodup, -⟩ := hland {} d body hd hbody
    exact ⟨d, body, P₁, Q₁, P₂, Q₂, hd, hbody, hsplit₁, hlands _ _ _ hsplit₁, hsplit₂,
      hlands _ _ _ hsplit₂, eq_of_beq hlength, hnodup⟩

end CBackend
