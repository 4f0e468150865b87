import CBackend.Proofs.Flow.Triples
import CBackend.Proofs.Flow.World

/-!
# Cleanups along a path

The cleanups that are registered along a path and those that are run are paired off like brackets: a
cleanup that waits is run once, and only after all cleanups that were registered later are over. What a
path leaves on the stack of a monitor tells what is missing to such a pairing.
-/

namespace CBackend.Flow

/-- Whether an event is about a cleanup. -/
def Event.isCleanup : Event → Bool
  | .passes (.note (.waits _)) | .passes (.note (.starts _)) | .passes (.note (.finishes _)) => true
  | _ => false

/-- The cleanups of a trace are paired off: each one that begins to wait is run to its end once, after
those that began to wait later are over, and no other one is run. -/
inductive Disciplined : List Event → Prop
  | nil : Disciplined []
  | other {e t} (he : e.isCleanup = false) (h : Disciplined t) : Disciplined (e :: t)
  | cleanup {p t₁ t₂ t₃} (h₁ : Disciplined t₁) (h₂ : Disciplined t₂) (h₃ : Disciplined t₃) :
      Disciplined (.passes (.note (.waits p)) :: (t₁ ++
        .passes (.note (.starts p)) :: (t₂ ++ .passes (.note (.finishes p)) :: t₃)))

theorem Disciplined.append {t t' : List Event} (h : Disciplined t) (h' : Disciplined t') :
    Disciplined (t ++ t') := by
  induction h with
  | nil => exact h'
  | other he _ ih => exact .other he ih
  | cleanup h₁ h₂ _ _ _ ih =>
    simp only [List.cons_append, List.append_assoc]
    exact .cleanup h₁ h₂ ih

/-- A trace runs the given cleanups that are not over, the first one first, and its own ones. -/
inductive Completes : List Frame → List Event → Prop
  | nil {t} (h : Disciplined t) : Completes [] t
  | waiting {p F t₁ t₂ t₃} (h₁ : Disciplined t₁) (h₂ : Disciplined t₂) (h₃ : Completes F t₃) :
      Completes (.waiting p :: F) (t₁ ++
        .passes (.note (.starts p)) :: (t₂ ++ .passes (.note (.finishes p)) :: t₃))
  | running {p F t₂ t₃} (h₂ : Disciplined t₂) (h₃ : Completes F t₃) :
      Completes (.running p :: F) (t₂ ++ .passes (.note (.finishes p)) :: t₃)

namespace Completes

theorem append {F : List Frame} {t t' : List Event} (h : Disciplined t) (h' : Completes F t') :
    Completes F (t ++ t') := by
  cases h' with
  | nil h' => exact .nil (h.append h')
  | waiting h₁ h₂ h₃ =>
    rw [← List.append_assoc]
    exact .waiting (h.append h₁) h₂ h₃
  | running h₂ h₃ =>
    rw [← List.append_assoc]
    exact .running (h.append h₂) h₃

/-- A cleanup that begins to wait is run before the others. -/
theorem waits {p : Pending} {F : List Frame} {t : List Event} (h : Completes (.waiting p :: F) t) :
    Completes F (.passes (.note (.waits p)) :: t) := by
  cases h with
  | @waiting _ _ t₁ t₂ t₃ h₁ h₂ h₃ =>
    have h := h₃.append (.cleanup (p := p) h₁ h₂ .nil)
    simpa only [List.cons_append, List.append_assoc, List.nil_append] using h

theorem starts {p : Pending} {F : List Frame} {t : List Event} (h : Completes (.running p :: F) t) :
    Completes (.waiting p :: F) (.passes (.note (.starts p)) :: t) := by
  cases h with
  | running h₂ h₃ => exact .waiting .nil h₂ h₃

theorem finishes {p : Pending} {F : List Frame} {t : List Event} (h : Completes F t) :
    Completes (.running p :: F) (.passes (.note (.finishes p)) :: t) :=
  .running .nil h

end Completes

/-! ### The stack of cleanups -/

section

variable {F G : List Frame} {e : Event} {t : List Event}

/-- The events by which the cleanups that are not over are done. -/
def closing : List Frame → List Event
  | [] => []
  | .waiting p :: F => .passes (.note (.starts p)) :: .passes (.note (.finishes p)) :: closing F
  | .running p :: F => .passes (.note (.finishes p)) :: closing F

end

/-! ### Cleanups in a loop -/

section

variable {T : IR.VarId → Prop} {w : World} {e : Event} {t t' : List Event}

end

end CBackend.Flow
