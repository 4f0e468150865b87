import CBackend.Proofs.Flow.World

/-!
# What lowering writes

The steps that lowering adds to a body, with what they change of the state of the function: the waiting
cleanups, the innermost loop, the flags, the numbers in use and whether control gets past the last
line. Everything that is proved of the paths through a body is proved from this description, which says
once how the pieces of a body are put together.

Where *strict* pieces are asked for, the code of a cleanup has no exit, and the code for an element of
an array no `break` or `continue`. Where these are to be *confined*, neither a cleanup, nor the code for
an element, nor an iteration expression has one that leaves it.
-/

namespace CBackend.Emission

open IR Flow

/-- What the next piece of a body depends on. -/
structure Control where
  /-- The waiting cleanups, the latest first. -/
  cleanups : List Pending := []
  /-- The cleanups whose scopes are not closed yet, the latest first. -/
  scope : List Pending := []
  loop : LoopState := {}
  terminated : Bool := false
  indicators : List (VarId × Value) := []
  counter : Nat := 0

namespace Control

variable (c : Control)

/-- A number that has been given out, and not to a flag. -/
def Owns (n : Nat) : Prop :=
  n < c.counter ∧ ∀ entry ∈ c.indicators, entry.2.localNumber? ≠ some n

/-- Only numbers that are in use are mentioned, and no flags. -/
def Fits (ns : List Nat) : Prop :=
  ∀ n ∈ ns, c.Owns n

/-- Control gets past the last line. -/
def live : Control :=
  { c with terminated := false }

/-- Control does not get past the last line. -/
def dead : Control :=
  { c with terminated := true }

/-- A cleanup begins to wait. -/
def push (p : Pending) : Control :=
  { c with cleanups := p :: c.cleanups, scope := p :: c.scope }

/-- A flag is declared. -/
def flagged (x : VarId) (flag : Value) : Control :=
  { c with
    indicators := (x, flag) :: c.indicators
    counter := c.counter + 1
    terminated := false }

/-- Whether the cleanup of a variable waits. -/
def holds (x : VarId) : Bool :=
  c.scope.any (·.owner == some x)

/-- The flag of the variable that a cleanup was moved out of. -/
def indicatorOf (cleanup : Cleanup) : Option Value :=
  cleanup.moved.bind fun x => c.indicators.lookup x

/-- A loop is entered. -/
def inLoop (continueNeedsLabel : Bool) : Control :=
  { c with loop := { cleanupBase := c.cleanups.length, continueNeedsLabel }, terminated := false }

/-- A switch is entered. -/
def inSwitch : Control :=
  { c with loop.inSwitch := true, terminated := false }

/-- The turn of a cleanup has come, by which its scope may be closed. -/
def reached (closing : Bool) : Control :=
  { c with scope := if closing then c.scope.tail else c.scope }

/-- The cleanups that wait inside the innermost loop. -/
def loopCleanups : List Pending :=
  c.cleanups.take (c.cleanups.length - c.loop.cleanupBase)

end Control

/-- The exits that a piece of a body may contain. -/
structure Exits where
  /-- `break` and `continue`. -/
  jumps : Bool
  returns : Bool
  /-- Whether `break` and `continue` are kept out of cleanups, of the code for the elements of arrays
  and of iteration expressions. -/
  confined : Bool := false

namespace Exits

/-- Every exit. -/
def all : Exits := ⟨true, true, false⟩

/-- The exits of the code for an element of an array. -/
def inElements (strict : Bool) (γ : Exits) : Exits :=
  { γ with jumps := γ.jumps && !strict && !γ.confined }

/-- The exits of a cleanup. -/
def inCleanup (strict : Bool) (γ : Exits) : Exits :=
  { γ.inElements strict with returns := γ.returns && !strict }

/-- The exits inside a loop. -/
def inLoop (γ : Exits) : Exits :=
  { γ with jumps := true }

/-- The exits of the iteration expression of a loop. -/
def inIteration (γ : Exits) : Exits :=
  { γ with jumps := !γ.confined }

variable {strict : Bool} {γ : Exits}

theorem inElements_jumps :
    (γ.inElements strict).jumps = true ↔
      γ.jumps = true ∧ strict = false ∧ γ.confined = false := by
  simp [inElements, and_assoc]

theorem inCleanup_jumps :
    (γ.inCleanup strict).jumps = true ↔
      γ.jumps = true ∧ strict = false ∧ γ.confined = false :=
  inElements_jumps

theorem inCleanup_returns :
    (γ.inCleanup strict).returns = true ↔ γ.returns = true ∧ strict = false := by
  simp [inCleanup]

/-- In an array a cleanup has the exits that it has elsewhere. -/
theorem inElements_inCleanup : (γ.inCleanup strict).inElements strict = γ.inCleanup strict := by
  cases strict <;> cases h : γ.confined <;> simp [inCleanup, inElements, h]

end Exits

/-- A variable with a flag. -/
def EverMoved (m : Module) (x : VarId) : Prop :=
  ∃ decl, m.var? x = some decl ∧ decl.everMovedFrom = true

/-- The cleanup of an expression. -/
def OfExpr (m : Module) (cleanup : Cleanup) : Prop :=
  ∃ id e, m.expr? id = some e ∧ e.cleanup = cleanup

/-- The cleanup of a variable or of an element of an array, or a deferred one. -/
inductive Declared (m : Module) : Cleanup → Prop
  | ofVariable {x decl} (h : m.var? x = some decl) : Declared m decl.destruction
  | deferred {id cleanup} (h : m.stmt? id = some (.defer cleanup)) : Declared m cleanup
  | ofElement {id e base index cleanup} (h : m.expr? id = some e)
      (he : e.kind = .rvalueArraySubscript base index cleanup) : Declared m cleanup

/-- Whether a cleanup destroys the rest of an array. -/
def isArrayRest (cleanup : Cleanup) : Bool :=
  match cleanup.action with
  | .arrayRest _ => true
  | _ => false

/-- What kind of piece is written. -/
inductive Shape
  /-- Statements. -/
  | code
  /-- The code of a cleanup. -/
  | action (p : Pending)
  /-- The code of cleanups, one after the other, whose scope may be closed by them. -/
  | cleanups (closing : Bool) (ps : List Pending)
  /-- The further branches of a conditional. -/
  | chain
  /-- The cases of a switch. -/
  | cases

/-- The line that leaves or goes on with the innermost loop. A label is given out when it is first
needed. -/
inductive Leaves : LoopExit → Control → C.Line → Control → Prop
  | breakOut {c} (h : c.loop.inSwitch = false) : Leaves .out c .breakOut c
  | breakTo {c n} (hs : c.loop.inSwitch = true) (h : c.loop.breakLabel = some n) :
      Leaves .out c (.goto n) c
  | breakToNew {c} (hs : c.loop.inSwitch = true) (h : c.loop.breakLabel = none) :
      Leaves .out c (.goto c.counter)
        { c with counter := c.counter + 1, loop.breakLabel := some c.counter }
  | continueLoop {c} (hi : c.loop.continueNeedsLabel = false) : Leaves .next c .continueLoop c
  | continueAt {c n} (hi : c.loop.continueNeedsLabel = true) (h : c.loop.continueLabel = some n) :
      Leaves .next c (.goto n) c
  | continueAtNew {c} (hi : c.loop.continueNeedsLabel = true) (h : c.loop.continueLabel = none) :
      Leaves .next c (.goto c.counter)
        { c with counter := c.counter + 1, loop.continueLabel := some c.counter }

/-- A label that may not be needed. -/
def labelSteps (label : Option Nat) : List Step :=
  label.toList.map fun n => .line (.label n)

/-- The iteration expression of a loop that may not have one. -/
def iterationSteps (iterates : Bool) (I : List Step) : List Step :=
  if iterates then .note .iterates :: I else I

/-- The way out of a case that control gets to the end of. -/
def caseEnd (terminated : Bool) : List Step :=
  if terminated then [] else [.line .breakOut, .note .ends]

/-- The action of a cleanup under its flag. -/
def guardSteps (p : Pending) (action : List Step) : List Step :=
  match p.guard? with
  | some n =>
    .line (.ifThen (.name (.localVar n))) :: .line .openBlock :: (action ++ [.line .closeBlock])
  | none => action

/-- The line that clears a flag. -/
def clearLine (n : Nat) : C.Line :=
  .expression (.binary "=" (.name (.localVar n)) (.nat 0))

/-- The clearing of the flag of a variable that was moved out of. -/
def clearSteps (p : Pending) : List Step :=
  match p.clears? with
  | some n => [.line (clearLine n)]
  | none => []

/-- A line that is a statement by itself and only mentions values. -/
def isStatement : C.Line → Bool
  | .declare .. | .expression _ => true
  | _ => false

/-- The pieces of a body that lowering writes, between two states of the function. -/
inductive Emits (strict : Bool) (m : Module) :
    Exits → Shape → Control → List Step → Control → Prop
  | nil {γ c} : Emits strict m γ .code c [] c
  | append {γ c c₁ c₂ L L'} (h : Emits strict m γ .code c L c₁)
      (h' : Emits strict m γ .code c₁ L' c₂) : Emits strict m γ .code c (L ++ L') c₂
  /-- A number is given out. -/
  | number {γ c} : Emits strict m γ .code c [] { c with counter := c.counter + 1 }
  | line {γ c l} (hl : isStatement l = true) (hf : c.Fits l.locals) :
      Emits strict m γ .code c [.line l] c.live
  -- expressions and their cleanups
  | evaluates {γ c cleanup} (hc : OfExpr m cleanup)
      (h : ∀ x, cleanup.moved = some x → c.indicators.lookup x = none ∨ isArrayRest cleanup = true) :
      Emits strict m γ .code c [.note (.evaluates cleanup)] c
  | evaluatesWaiting {γ c p} (hc : OfExpr m p.cleanup) (howner : p.owner = none)
      (hclears : p.indicator = c.indicatorOf p.cleanup) :
      Emits strict m γ .code c [.note (.waits p), .note (.evaluates p.cleanup)] (c.push p)
  | waits {γ c p} (hc : Declared m p.cleanup) (howner : ∀ x, p.owner = some x → ¬ EverMoved m x)
      (hclears : p.indicator = c.indicatorOf p.cleanup) :
      Emits strict m γ .code c [.note (.waits p)] (c.push p)
  -- variables
  | declares {γ c x} (hx : ¬ EverMoved m x) :
      Emits strict m γ .code c [.note (.declares x (c.holds x))] c
  | declaresFlag {γ c x ty flag} (hflag : flag.localNumber? = some c.counter) :
      Emits strict m γ .code c
        [.note (.declares x (c.holds x)), .line (.declare ty c.counter (some (.nat 1)))]
        (c.flagged x flag)
  | declaresWaiting {γ c x ty flag p} (hflag : flag.localNumber? = some c.counter)
      (hc : Declared m p.cleanup) (howner : p.owner = some x) (hguard : p.condition = some flag)
      (hclears : p.indicator = (c.flagged x flag).indicatorOf p.cleanup) :
      Emits strict m γ .code c
        [.note (.declares x (c.holds x)), .line (.declare ty c.counter (some (.nat 1))),
          .note (.waits p)]
        ((c.flagged x flag).push p)
  -- points that control does not get to
  | skips {γ c} (h : c.terminated = true) : Emits strict m γ .code c [.note .skips] c
  | ends {γ c c' L} (h : Emits strict m γ .code c L c') (ht : c'.terminated = true) :
      Emits strict m γ .code c (L ++ [.note .ends]) c'
  | revive {γ c c' L} (h : Emits strict m γ .code c L c') : Emits strict m γ .code c L c'.live
  -- exits
  | stops {γ c l} (hl : exitOf l = some .stops) :
      Emits strict m γ .code c [.line l, .note .ends] c.dead
  | returns {γ c c' L e} (hγ : γ.returns = true)
      (h : Emits strict m γ (.cleanups false c.cleanups) c L c') :
      Emits strict m γ .code c (L ++ [.line (.returnWith e), .note .ends]) c'.dead
  | exits {γ c c₁ c₂ L exit l} (hγ : γ.jumps = true)
      (h : Emits strict m γ (.cleanups false c.loopCleanups) c L c₁) (hl : Leaves exit c₁ l c₂) :
      Emits strict m γ .code c (L ++ [.note (.exitsLoop exit), .line l, .note .ends]) c₂.dead
  | leaves {γ c} (hγ : γ.jumps = true) (hbase : c.cleanups.length = c.loop.cleanupBase)
      (hswitch : c.loop.inSwitch = false) :
      Emits strict m γ .code c [.line .breakOut, .note .ends] c.dead
  -- scopes
  | closes {γ c c₁ c₂ L L' ps} (h : Emits strict m γ .code c L c₁)
      (hps : c₁.cleanups = ps ++ c.cleanups)
      (h' : Emits strict m γ (.cleanups true ps) { c₁ with cleanups := c.cleanups } L' c₂) :
      Emits strict m γ .code c (L ++ L') c₂
  | abandons {γ c c₁ L} (h : Emits strict m γ .code c L c₁) (ht : c₁.terminated = true) :
      Emits strict m γ .code c L { c₁ with cleanups := c.cleanups, scope := c.scope }
  | action {γ c c₁ p A b} (h : Emits strict m (γ.inCleanup strict) .code c A c₁)
      (hbal : c₁.cleanups = c.cleanups)
      (hguard : ∀ x, p.owner = some x → EverMoved m x → p.guard?.isSome = true)
      (hb : b = true → c₁.terminated = true ∧ p.guard? = none ∧ p.clears? = none) :
      Emits strict m γ (.action p) c
        (.note (.starts p) :: (guardSteps p A ++ clearSteps p ++ [.note (.finishes p)]))
        { c₁ with terminated := b }
  | cleanupsNil {γ c b} : Emits strict m γ (.cleanups b []) c [] c
  | cleanupsCons {γ c c₁ c₂ b p ps L L'}
      (h : Emits strict m γ (.action p) (c.reached b) L c₁)
      (h' : Emits strict m γ (.cleanups b ps) c₁ L' c₂) :
      Emits strict m γ (.cleanups b (p :: ps)) c (L ++ L') c₂
  -- conditionals
  | ifThen {γ c c₁ c₂ e A R} (he : c.Fits e.locals) (hA : Emits strict m γ .code c.live A c₁)
      (hbal : c₁.cleanups = c.cleanups) (hR : Emits strict m γ .chain c₁.live R c₂) :
      Emits strict m γ .code c
        (.line (.ifThen e) :: .line .openBlock :: (A ++ .line .closeBlock :: R))
        { c₂ with terminated := c₁.terminated && c₂.terminated }
  | chainNil {γ c} : Emits strict m γ .chain c [] c.live
  | otherwise {γ c c₁ A} (hA : Emits strict m γ .code c.live A c₁)
      (hbal : c₁.cleanups = c.cleanups) :
      Emits strict m γ .chain c
        (.line .otherwise :: .line .openBlock :: (A ++ [.line .closeBlock])) c₁
  | elseIf {γ c c₁ c₂ e A R} (he : c.Fits e.locals) (hA : Emits strict m γ .code c.live A c₁)
      (hbal : c₁.cleanups = c.cleanups) (hR : Emits strict m γ .chain c₁.live R c₂) :
      Emits strict m γ .chain c
        (.line (.elseIf e) :: .line .openBlock :: (A ++ .line .closeBlock :: R))
        { c₂ with terminated := c₁.terminated && c₂.terminated }
  -- switches
  | switch {γ c c₁ e K} (he : c.Fits e.locals) (hK : Emits strict m γ .cases c.inSwitch K c₁) :
      Emits strict m γ .code c
        (.line (.switchOn e) :: .line .openBlock :: (K ++ [.line .closeBlock]))
        { c₁ with loop.inSwitch := c.loop.inSwitch }
  | casesNil {γ c} : Emits strict m γ .cases c [] c.live
  | caseBlock {γ c c₁ c₂ A K} {labels : List C.Expr} (hl : ∀ e ∈ labels, c.Fits e.locals)
      (hA : Emits strict m γ .code c.live A c₁) (hbal : c₁.cleanups = c.cleanups)
      (hK : Emits strict m γ .cases c₁.live K c₂) :
      Emits strict m γ .cases c
        (labels.map (fun e => .line (.caseLabel e)) ++
          .line .openBlock :: (A ++ caseEnd c₁.terminated ++ .line .closeBlock :: K))
        { c₂ with terminated := c₁.terminated && c₂.terminated }
  | defaultBlock {γ c c₁ A} (hA : Emits strict m γ .code c.live A c₁)
      (hbal : c₁.cleanups = c.cleanups) :
      Emits strict m γ .cases c
        (.line .defaultLabel ::
          .line .openBlock :: (A ++ caseEnd c₁.terminated ++ [.line .closeBlock]))
        c₁
  -- loops
  | elementLoop {γ c c₁ e A} (he : c.Fits e.locals)
      (hA : Emits strict m (γ.inElements strict) .code c.live A c₁)
      (hbal : c₁.cleanups = c.cleanups) :
      Emits strict m γ .code c
        (.line (.whileLoop e) :: .line .openBlock :: (A ++ [.line .closeBlock])) c₁.live
  | loop {γ c c₁ c₂ iterates label X I}
      (hX : Emits strict m γ.inLoop .code (c.inLoop iterates) X c₁)
      (hbal : c₁.cleanups = c.cleanups) (hlabel : c₁.loop.continueLabel = label)
      (hI : Emits strict m γ.inIteration .code (if label.isSome then c₁.live else c₁) I c₂)
      (hbal' : c₂.cleanups = c.cleanups) (hnone : iterates = false → I = []) :
      Emits strict m γ .code c
        (.note .entersLoop ::
          .line (.whileLoop (.nat 1)) :: .line .openBlock ::
            (X ++ labelSteps label ++ iterationSteps iterates I ++
              .line .closeBlock :: (labelSteps c₂.loop.breakLabel ++ [.note .leavesLoop])))
        { c₂ with loop := c.loop, terminated := false }

end CBackend.Emission
