import CBackend.Proofs.Bracketing.Functions

/-!
# The checks that the generator makes of itself

While it runs, the generator checks that its own bookkeeping is in order: blocks, scopes and bound
elements are closed in turn, types are numbered in turn and filled once, values and types come in equal
numbers, and no address is taken of a value that has none. No module makes such a check fail, however
malformed it is.

## Main results

* `internal_checks_hold` : a fault is never one of these checks.
-/

namespace CBackend

open IR

variable {m : Module} {options : Options} {f : Fault}

/-- Where a draft cannot be made, no check has failed. -/
theorem harmless_generateDraft (m : Module) (options : Options) :
    Harmless true (generateDraft m options) := by
  obtain ⟨hnew, hconsistent⟩ := Draft.harmless_new options
  refine .bind hnew fun d hd => .bind ?_ fun _ _ => .pure
  exact (Orderly.wholeModule (m := m) d (hconsistent d hd)).harmless

/-- No module and no choice of options makes a check fail that the generator makes of itself. -/
theorem internal_checks_hold (h : generate m options = .error f) : f.isInternal = false := by
  have hunit : Harmless true (generateUnit m options) :=
    .bind (harmless_generateDraft m options) fun _ _ => .pure
  have htext : Harmless true (generate m options) := .bind hunit fun _ _ => .pure
  exact htext.fault rfl f h

/-- A function that asks for a member of a number, in the middle of a conditional in a loop. -/
def memberOfNumber : Module where
  vars := #[{ name := "x", ty := .builtin .i32, destruction := { action := .ofVariable ⟨0⟩ } }]
  exprs := #[{ kind := .variableRef ⟨0⟩, ty := .builtin .i32, category := .lvalue },
    { kind := .memberAccess ⟨0⟩ 0, ty := .builtin .i32, category := .lvalue },
    { kind := .ifElse ⟨0⟩ ⟨1⟩ none, ty := .void, category := .none }]
  stmts := #[.varDecl ⟨0⟩, .whileLoop ⟨0⟩ ⟨2⟩]
  functions := #[{ name := "f", params := [], result := .void, body := some [⟨0⟩, ⟨1⟩] }]
  roots := #[⟨0⟩]

/-- `memberOfNumber` has no text, and no check has failed. -/
theorem internal_checks_hold_memberOfNumber :
    ∃ f, generate memberOfNumber {} = .error f ∧ f.isInternal = false := by
  have hfails : (generate memberOfNumber {}).toOption.isNone = true := by decide +kernel
  cases h : generate memberOfNumber {} with
  | ok text =>
    rw [h] at hfails
    cases hfails
  | error f => exact ⟨f, rfl, internal_checks_hold h⟩

end CBackend
