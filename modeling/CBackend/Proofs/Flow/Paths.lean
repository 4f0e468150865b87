import CBackend.Draft.Basic
import Mathlib.Data.List.Basic

/-!
# Control paths through a body

What control can do in the lines of a function body, read as C. A body is a flat list of steps, in
which blocks are opened and closed by lines of their own. A path starts at a step and follows C's
rules: a conditional takes one of its branches, a loop goes round as often as it likes, a switch
enters at one of its labels, and `break`, `continue`, `goto` and `return` go where C sends them. What
a condition evaluates to is left open, so that every path that C can take is among these.

A path may be cut at any point. Its *trace* is the list of the steps it passes and of the decisions
it takes, notes included, since control passes the point at which a note stands.
-/

namespace CBackend

/-- Whether control simply passes a line. -/
def C.Line.isPlain : C.Line → Bool
  | declare .. | expression _ | caseLabel _ | defaultLabel | label _ | verbatim _ => true
  | _ => false

/-- Whether control simply passes a step. -/
def Step.isPlain : Step → Bool
  | line l => l.isPlain
  | note _ => true

namespace Flow

/-- What a path meets. -/
inductive Event
  /-- A step is passed. -/
  | passes (s : Step)
  /-- A condition is evaluated. -/
  | decides (condition : C.Expr) (holds : Bool)
  /-- Control gets to the closing brace of a case, and so falls into the next one. -/
  | fallsThrough

/-- How a path ends. -/
inductive Outcome
  /-- The path is cut where it is. -/
  | cut
  /-- Control gets past the last step. -/
  | falls
  | breaks
  | continues
  | jumps (label : Nat)
  | returns
  /-- Control does not go on: the program is aborted, or the point is never reached. -/
  | stops
  deriving DecidableEq, Repr

/-- How a path ends at a line that control cannot get past. -/
def exitOf : C.Line → Option Outcome
  | .breakOut => some .breaks
  | .continueLoop => some .continues
  | .goto n => some (.jumps n)
  | .returnWith _ => some .returns
  | .unreachable | .abort => some .stops
  | _ => none

/-! ### Blocks -/

/-- The steps up to the brace that closes the current block, and those after it. The number counts
the inner blocks that are open. -/
def splitBlock : Nat → List Step → Option (List Step × List Step)
  | _, [] => none
  | n, .line .openBlock :: r =>
    (splitBlock (n + 1) r).map fun (c, r) => (.line .openBlock :: c, r)
  | 0, .line .closeBlock :: r => some ([], r)
  | n + 1, .line .closeBlock :: r =>
    (splitBlock n r).map fun (c, r) => (.line .closeBlock :: c, r)
  | n, s :: r => (splitBlock n r).map fun (c, r) => (s :: c, r)

/-- The number of open blocks after a step. -/
def depthAfter (n : Nat) : Step → Nat
  | .line l => l.depthAfter n
  | .note _ => n

/-- The rests of a list at the points that lie in no inner block. The number counts the inner blocks
that are open. -/
def points : Nat → List Step → List (List Step)
  | _, [] => []
  | 0, s :: r => (s :: r) :: points (depthAfter 0 s) r
  | n + 1, s :: r => points (depthAfter (n + 1) s) r

/-- Whether a line goes on with a conditional. -/
def isElse : Step → Bool
  | .line (.elseIf _) | .line .otherwise => true
  | _ => false

/-- Whether steps go on with the conditional before them. -/
def StartsElse : List Step → Prop
  | s :: _ => isElse s = true
  | [] => False

/-- The point behind the remaining branches of a conditional of which one was taken. -/
inductive AfterElse : List Step → List Step → Prop
  | done {r} (h : ¬ StartsElse r) : AfterElse r r
  | skip {s r c r' k} (hs : isElse s = true) (hr : splitBlock 0 r = some (c, r'))
      (h : AfterElse r' k) : AfterElse (s :: .line .openBlock :: r) k

/-- A label through which a switch is entered. -/
def isCaseLabel : Step → Bool
  | .line (.caseLabel _) | .line .defaultLabel => true
  | _ => false

/-- Whether a switch has a label for the values without a case of their own. -/
def HasDefault (c : List Step) : Prop :=
  ∃ r, .line .defaultLabel :: r ∈ points 0 c

/-! ### Paths -/

/-- The paths that start at the first of some steps. A jump is followed only where the block around
the steps is given: it goes to a label of that block, or leaves the block. -/
inductive Path : Option (List Step) → List Step → List Event → Outcome → Prop
  | cut (r) : Path none r [] .cut
  | falls : Path none [] [] .falls
  | pass {s r t o} (hs : s.isPlain = true) (h : Path none r t o) :
      Path none (s :: r) (.passes s :: t) o
  | exit {l r o} (hl : exitOf l = some o) : Path none (.line l :: r) [.passes (.line l)] o
  -- a block of its own, which is the block of a case
  | block {r c r' t t' o} (hr : splitBlock 0 r = some (c, r')) (h : Path (some c) c t .falls)
      (h' : Path none r' t' o) :
      Path none (.line .openBlock :: r) (t ++ .fallsThrough :: t') o
  | blockExit {r c r' t o} (hr : splitBlock 0 r = some (c, r')) (h : Path (some c) c t o)
      (ho : o ≠ .falls) : Path none (.line .openBlock :: r) t o
  -- a condition holds, and its branch is run
  | take {l e r c r' k t t' o} (hl : l = .ifThen e ∨ l = .elseIf e)
      (hr : splitBlock 0 r = some (c, r')) (h : Path (some c) c t .falls) (hk : AfterElse r' k)
      (h' : Path none k t' o) :
      Path none (.line l :: .line .openBlock :: r) (.decides e true :: (t ++ t')) o
  | takeExit {l e r c r' t o} (hl : l = .ifThen e ∨ l = .elseIf e)
      (hr : splitBlock 0 r = some (c, r')) (h : Path (some c) c t o) (ho : o ≠ .falls) :
      Path none (.line l :: .line .openBlock :: r) (.decides e true :: t) o
  -- a condition does not hold, and control goes on to the next branch or behind them
  | refuse {l e r c r' t o} (hl : l = .ifThen e ∨ l = .elseIf e)
      (hr : splitBlock 0 r = some (c, r')) (h : Path none r' t o) :
      Path none (.line l :: .line .openBlock :: r) (.decides e false :: t) o
  | otherwise {r c r' t t' o} (hr : splitBlock 0 r = some (c, r')) (h : Path (some c) c t .falls)
      (h' : Path none r' t' o) :
      Path none (.line .otherwise :: .line .openBlock :: r) (t ++ t') o
  | otherwiseExit {r c r' t o} (hr : splitBlock 0 r = some (c, r')) (h : Path (some c) c t o)
      (ho : o ≠ .falls) : Path none (.line .otherwise :: .line .openBlock :: r) t o
  -- loops
  | done {e r c r' t o} (hr : splitBlock 0 r = some (c, r')) (h : Path none r' t o) :
      Path none (.line (.whileLoop e) :: .line .openBlock :: r) (.decides e false :: t) o
  | round {e r c r' t t' o o'} (hr : splitBlock 0 r = some (c, r')) (h : Path (some c) c t o')
      (ho : o' = .falls ∨ o' = .continues)
      (h' : Path none (.line (.whileLoop e) :: .line .openBlock :: r) t' o) :
      Path none (.line (.whileLoop e) :: .line .openBlock :: r) (.decides e true :: (t ++ t')) o
  | broken {e r c r' t t' o} (hr : splitBlock 0 r = some (c, r')) (h : Path (some c) c t .breaks)
      (h' : Path none r' t' o) :
      Path none (.line (.whileLoop e) :: .line .openBlock :: r) (.decides e true :: (t ++ t')) o
  | roundExit {e r c r' t o} (hr : splitBlock 0 r = some (c, r')) (h : Path (some c) c t o)
      (ho : o ≠ .falls ∧ o ≠ .continues ∧ o ≠ .breaks) :
      Path none (.line (.whileLoop e) :: .line .openBlock :: r) (.decides e true :: t) o
  -- switches
  | unmatched {e r c r' t o} (hr : splitBlock 0 r = some (c, r')) (hc : ¬ HasDefault c)
      (h : Path none r' t o) :
      Path none (.line (.switchOn e) :: .line .openBlock :: r) (.passes (.line (.switchOn e)) :: t) o
  | matched {e r c r' s k t t' o o'} (hr : splitBlock 0 r = some (c, r'))
      (hs : isCaseLabel s = true) (hk : s :: k ∈ points 0 c) (h : Path (some c) k t o')
      (ho : o' = .falls ∨ o' = .breaks) (h' : Path none r' t' o) :
      Path none (.line (.switchOn e) :: .line .openBlock :: r)
        (.passes (.line (.switchOn e)) :: (t ++ t')) o
  | matchedExit {e r c r' s k t o} (hr : splitBlock 0 r = some (c, r'))
      (hs : isCaseLabel s = true) (hk : s :: k ∈ points 0 c) (h : Path (some c) k t o)
      (ho : o ≠ .falls ∧ o ≠ .breaks) :
      Path none (.line (.switchOn e) :: .line .openBlock :: r)
        (.passes (.line (.switchOn e)) :: t) o
  -- jumps
  | stay {b r t o} (h : Path none r t o)
      (hn : ∀ n r', o = .jumps n → .line (.label n) :: r' ∉ points 0 b) : Path (some b) r t o
  | jump {b r n r' t t' o} (h : Path none r t (.jumps n))
      (hn : .line (.label n) :: r' ∈ points 0 b) (h' : Path (some b) r' t' o) :
      Path (some b) r (t ++ t') o

/-! ### Where a path starts -/

theorem exitOf_eq_none_of_isPlain {l : C.Line} (h : (Step.line l).isPlain = true) :
    exitOf l = none := by
  cases l <;> first | rfl | cases h

/-- A path that starts at a step that control simply passes. -/
theorem Path.plain_cases {s : Step} {r : List Step} {t : List Event} {o : Outcome}
    (h : Path none (s :: r) t o) (hs : s.isPlain = true) :
    (t = [] ∧ o = .cut) ∨ ∃ t', t = .passes s :: t' ∧ Path none r t' o := by
  cases h with
  | cut => exact .inl ⟨rfl, rfl⟩
  | pass _ h => exact .inr ⟨_, rfl, h⟩
  | exit hl => cases (exitOf_eq_none_of_isPlain hs).symm.trans hl
  | take hl | takeExit hl | refuse hl => rcases hl with rfl | rfl <;> cases hs
  | _ => cases hs

/-- A path that starts at a line that control cannot get past. -/
theorem Path.exit_cases {l : C.Line} {r : List Step} {t : List Event} {o o' : Outcome}
    (h : Path none (.line l :: r) t o) (hl : exitOf l = some o') :
    (t = [] ∧ o = .cut) ∨ (t = [.passes (.line l)] ∧ o = o') := by
  cases h with
  | cut => exact .inl ⟨rfl, rfl⟩
  | pass hs => cases (exitOf_eq_none_of_isPlain hs).symm.trans hl
  | exit hl' => exact .inr ⟨rfl, Option.some.inj (hl'.symm.trans hl)⟩
  | take hl' | takeExit hl' | refuse hl' => rcases hl' with rfl | rfl <;> cases hl
  | _ => cases hl

theorem Path.nil_cases {t : List Event} {o : Outcome} (h : Path none [] t o) :
    t = [] ∧ (o = .cut ∨ o = .falls) := by
  cases h with
  | cut => exact ⟨rfl, .inl rfl⟩
  | falls => exact ⟨rfl, .inr rfl⟩

/-- A path that starts at a condition: its branch is left or run to its end, or it is not taken. -/
theorem Path.condition_cases {l : C.Line} {e : C.Expr} {r c r' : List Step} {t : List Event}
    {o : Outcome} (h : Path none (.line l :: .line .openBlock :: r) t o)
    (hl : l = .ifThen e ∨ l = .elseIf e) (hr : splitBlock 0 r = some (c, r')) :
    (t = [] ∧ o = .cut) ∨
      (∃ t', t = .decides e true :: t' ∧ Path (some c) c t' o ∧ o ≠ .falls) ∨
      (∃ t₁ t₂ k, t = .decides e true :: (t₁ ++ t₂) ∧ Path (some c) c t₁ .falls ∧
        AfterElse r' k ∧ Path none k t₂ o) ∨
      ∃ t', t = .decides e false :: t' ∧ Path none r' t' o := by
  have same {e' : C.Expr} (hl' : l = .ifThen e' ∨ l = .elseIf e') : e' = e := by
    rcases hl with rfl | rfl <;> rcases hl' with heq | heq <;> cases heq <;> rfl
  cases h with
  | cut => exact .inl ⟨rfl, rfl⟩
  | take hl' hr' h hk h' =>
    cases same hl'; cases hr.symm.trans hr'
    exact .inr (.inr (.inl ⟨_, _, _, rfl, h, hk, h'⟩))
  | takeExit hl' hr' h ho =>
    cases same hl'; cases hr.symm.trans hr'
    exact .inr (.inl ⟨_, rfl, h, ho⟩)
  | refuse hl' hr' h =>
    cases same hl'; cases hr.symm.trans hr'
    exact .inr (.inr (.inr ⟨_, rfl, h⟩))
  | pass hs => rcases hl with rfl | rfl <;> cases hs
  | exit hl' => rcases hl with rfl | rfl <;> cases hl'
  | _ => rcases hl with heq | heq <;> cases heq

/-- A path that starts at the last branch of a conditional. -/
theorem Path.otherwise_cases {r c r' : List Step} {t : List Event} {o : Outcome}
    (h : Path none (.line .otherwise :: .line .openBlock :: r) t o)
    (hr : splitBlock 0 r = some (c, r')) :
    (t = [] ∧ o = .cut) ∨ (Path (some c) c t o ∧ o ≠ .falls) ∨
      ∃ t₁ t₂, t = t₁ ++ t₂ ∧ Path (some c) c t₁ .falls ∧ Path none r' t₂ o := by
  cases h with
  | cut => exact .inl ⟨rfl, rfl⟩
  | otherwise hr' h h' =>
    cases hr.symm.trans hr'
    exact .inr (.inr ⟨_, _, rfl, h, h'⟩)
  | otherwiseExit hr' h ho =>
    cases hr.symm.trans hr'
    exact .inr (.inl ⟨h, ho⟩)
  | take hl | takeExit hl | refuse hl => rcases hl with heq | heq <;> cases heq
  | pass hs => cases hs
  | exit hl => cases hl

/-- A path that starts at the block of a case: it leaves the block, or falls out of it. -/
theorem Path.block_cases {r c r' : List Step} {t : List Event} {o : Outcome}
    (h : Path none (.line .openBlock :: r) t o) (hr : splitBlock 0 r = some (c, r')) :
    (t = [] ∧ o = .cut) ∨ (Path (some c) c t o ∧ o ≠ .falls) ∨
      ∃ t₁ t₂, t = t₁ ++ .fallsThrough :: t₂ ∧ Path (some c) c t₁ .falls ∧ Path none r' t₂ o := by
  cases h with
  | cut => exact .inl ⟨rfl, rfl⟩
  | block hr' h h' =>
    cases hr.symm.trans hr'
    exact .inr (.inr ⟨_, _, rfl, h, h'⟩)
  | blockExit hr' h ho =>
    cases hr.symm.trans hr'
    exact .inr (.inl ⟨h, ho⟩)
  | take hl | takeExit hl | refuse hl => rcases hl with heq | heq <;> cases heq
  | pass hs => cases hs
  | exit hl => cases hl

/-- A path that starts at a switch. -/
theorem Path.switch_cases {e : C.Expr} {r c r' : List Step} {t : List Event} {o : Outcome}
    (h : Path none (.line (.switchOn e) :: .line .openBlock :: r) t o)
    (hr : splitBlock 0 r = some (c, r')) :
    (t = [] ∧ o = .cut) ∨
      ∃ t', t = .passes (.line (.switchOn e)) :: t' ∧
        ((¬ HasDefault c ∧ Path none r' t' o) ∨
          ∃ s k, isCaseLabel s = true ∧ s :: k ∈ points 0 c ∧
            ((Path (some c) k t' o ∧ o ≠ .falls ∧ o ≠ .breaks) ∨
              ∃ t₁ t₂ o', t' = t₁ ++ t₂ ∧ Path (some c) k t₁ o' ∧ (o' = .falls ∨ o' = .breaks) ∧
                Path none r' t₂ o)) := by
  cases h with
  | cut => exact .inl ⟨rfl, rfl⟩
  | unmatched hr' hc h =>
    cases hr.symm.trans hr'
    exact .inr ⟨_, rfl, .inl ⟨hc, h⟩⟩
  | matched hr' hs hk h ho h' =>
    cases hr.symm.trans hr'
    exact .inr ⟨_, rfl, .inr ⟨_, _, hs, hk, .inr ⟨_, _, _, rfl, h, ho, h'⟩⟩⟩
  | matchedExit hr' hs hk h ho =>
    cases hr.symm.trans hr'
    exact .inr ⟨_, rfl, .inr ⟨_, _, hs, hk, .inl ⟨h, ho⟩⟩⟩
  | take hl | takeExit hl | refuse hl => rcases hl with heq | heq <;> cases heq
  | pass hs => cases hs
  | exit hl => cases hl

/-- The paths of a function body from its opening brace. -/
def HasPath (b : Body) (t : List Event) (o : Outcome) : Prop :=
  Path (some b.steps) b.steps t o

end Flow

end CBackend
