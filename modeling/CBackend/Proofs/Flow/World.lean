import CBackend.Proofs.Flow.Triples

/-!
# What happens along a path

The state that a path is in: the cleanups that have been registered and not yet run, the loops of the
source program around it, and what is known of the flags of the variables that are moved out of.

A *flag* is a local variable of the output. Its value is known from its declaration with `1` on, and an
assignment of `0` changes it; every other mention of it could do anything to it, so that nothing is
known of it until it is declared again. A path on which a decision contradicts a known value is not
feasible.
-/

namespace CBackend

open IR

namespace C

mutual

/-- The local variables that an expression mentions. -/
def Expr.locals : Expr → List Nat
  | .name (.localVar n) => [n]
  | .name _ | .literal _ | .verbatim _ | .sizeOf _ => []
  | .paren e | .deref e | .addressOf e | .unary _ e | .before _ e | .cast _ e | .member e _
  | .arrow e _ => e.locals
  | .binary _ l r => l.locals ++ r.locals
  | .index e i => e.locals ++ i.locals
  | .conditional c t e => c.locals ++ t.locals ++ e.locals
  | .call f args => f.locals ++ localsEach args
  | .braces _ _ elems => localsEach elems

/-- The local variables that the expressions of a list mention. -/
def Expr.localsEach : List Expr → List Nat
  | [] => []
  | e :: es => e.locals ++ localsEach es

end

/-- The local variables that a line mentions. -/
def Line.locals : Line → List Nat
  | declare _ n none => [n]
  | declare _ n (some e) => n :: e.locals
  | expression e | ifThen e | elseIf e | whileLoop e | switchOn e | caseLabel e
  | returnWith (some e) => e.locals
  | _ => []

/-- The local variable that an expression sets to zero. -/
def Expr.clears? : Expr → Option Nat
  | .binary "=" (.name (.localVar n)) (.literal (.int 0)) => some n
  | _ => none

/-- The local variable that a line declares with the value one. -/
def Line.raises? : Line → Option Nat
  | declare _ n (some (.literal (.int 1))) => some n
  | _ => none

/-- The local variable that a line sets to zero. -/
def Line.clears? : Line → Option Nat
  | expression e => e.clears?
  | _ => none

end C

/-- The number of the local variable that a value is. -/
def Value.localNumber? (v : Value) : Option Nat :=
  match v.content with
  | some ⟨_, .name (.localVar n)⟩ => some n
  | _ => .none

namespace Pending

/-- The flag under which a cleanup is done. -/
def guard? (p : Pending) : Option Nat :=
  p.condition.bind Value.localNumber?

/-- The flag that is cleared after a cleanup. -/
def clears? (p : Pending) : Option Nat :=
  p.indicator.bind Value.localNumber?

end Pending

namespace Flow

/-- A cleanup that has been registered and is not over. -/
inductive Frame
  | waiting (p : Pending)
  | running (p : Pending)

namespace Frame

/-- The cleanup of a frame. -/
def pending : Frame → Pending
  | waiting p | running p => p

end Frame

/-- For each loop of the source program around, the cleanups that were not over when it was entered,
as long as none of them has been run. -/
abbrev Marks := List (Option (List Frame))

namespace Marks

/-- What is left of the marks when the topmost of so many frames is run. -/
def touch (marks : Marks) (height : Nat) : Marks :=
  marks.map (·.filter (·.length < height))

/-- The frames with which the innermost loop is left. -/
def exit (marks : Marks) : List Frame :=
  (marks.headD (some [])).getD []

/-- Every mark has at most the given number of frames. -/
def Below (marks : Marks) (height : Nat) : Prop :=
  ∀ F, some F ∈ marks → F.length ≤ height

theorem Below.mono {marks : Marks} {h h' : Nat} (hb : marks.Below h) (hle : h ≤ h') :
    marks.Below h' :=
  fun F hF => Nat.le_trans (hb F hF) hle

theorem touch_below (marks : Marks) (h : Nat) : (marks.touch (h + 1)).Below h := by
  intro F hF
  obtain ⟨mark, -, hmark⟩ := List.mem_map.1 hF
  obtain ⟨-, hlt⟩ := Option.filter_eq_some_iff.1 hmark
  exact Nat.lt_succ_iff.1 (of_decide_eq_true hlt)

theorem touch_touch (marks : Marks) {h h' : Nat} (hle : h ≤ h') :
    (marks.touch h').touch h = marks.touch h := by
  rw [touch, touch, touch, List.map_map]
  refine List.map_congr_left fun mark _ => ?_
  cases mark with
  | none => rfl
  | some F =>
    by_cases hlt : F.length < h
    · simp [Option.filter, hlt, Nat.lt_of_lt_of_le hlt hle]
    · by_cases hlt' : F.length < h' <;> simp [Option.filter, hlt, hlt']

theorem Below.touch_eq {marks : Marks} {h : Nat} (hb : marks.Below h) :
    marks.touch (h + 1) = marks := by
  rw [touch]
  conv_rhs => rw [← List.map_id marks]
  refine List.map_congr_left fun mark hmark => ?_
  cases mark with
  | none => rfl
  | some F => simp [Option.filter, Nat.lt_succ_iff, hb F hmark]

end Marks

/-- The state that a path is in. -/
structure World where
  /-- The cleanups that are not over, the newest first. -/
  stack : List Frame := []
  /-- The loops of the source program around. -/
  loops : Marks := []
  /-- The known values of flags. -/
  flags : Nat → Option Bool := fun _ => none
  /-- Whether a variable was moved out of since it was declared. -/
  moved : VarId → Bool := fun _ => false
  /-- Whether all decisions agree with the known values. -/
  feasible : Bool := true
  /-- The cleanup whose code begins here. -/
  starting : Option Pending := none

namespace World

/-- The known values of flags after a line. -/
def flagsAfter (flags : Nat → Option Bool) (l : C.Line) : Nat → Option Bool := fun n =>
  if l.raises? = some n then some true
  else if l.clears? = some n then (flags n).map fun _ => false
  else if n ∈ l.locals then none
  else flags n

/-- The state after a note. -/
def afterNote (w : World) : Note → World
  | .waits p => { w with stack := .waiting p :: w.stack }
  | .starts p =>
    { w with stack := .running p :: w.stack.tail, loops := w.loops.touch w.stack.length }
  | .finishes _ => { w with stack := w.stack.tail }
  | .entersLoop => { w with loops := some w.stack :: w.loops }
  | .leavesLoop => { w with loops := w.loops.tail }
  | .declares x _ => { w with moved := fun y => if y = x then false else w.moved y }
  | .evaluates c => { w with moved := fun y => if c.moved = some y then true else w.moved y }
  | .exitsLoop _ | .iterates | .ends | .skips => w

/-- The state after a decision. -/
def afterDecision (w : World) (condition : C.Expr) (holds : Bool) : World :=
  match condition with
  | .name (.localVar n) => { w with feasible := w.feasible && w.flags n != some (!holds) }
  | e => { w with flags := fun n => if n ∈ e.locals then none else w.flags n }

/-- The cleanup whose code begins at an event. -/
def startedBy : Event → Option Pending
  | .passes (.note (.starts p)) => some p
  | _ => none

/-- The state after an event. -/
def next (w : World) (e : Event) : World :=
  let w' := match e with
    | .passes (.line l) => { w with flags := flagsAfter w.flags l }
    | .passes (.note n) => w.afterNote n
    | .decides condition holds => w.afterDecision condition holds
    | .fallsThrough => w
  { w' with starting := startedBy e }

/-- The state after a trace. -/
def after (w : World) (t : List Event) : World :=
  t.foldl next w

/-- A cleanup starts only if it is the newest one and has not been run, and is over only if it is the
newest one and has been started. A loop is left, by `break`, by `continue` and at its end, with
exactly the cleanups that were registered when it was entered, none of which has been run. -/
def Orderly (w : World) : Event → Prop
  | .passes (.note (.starts p)) => w.stack.head? = some (.waiting p)
  | .passes (.note (.finishes p)) => w.stack.head? = some (.running p)
  | .passes (.note (.exitsLoop _)) | .passes (.note .leavesLoop) =>
    w.loops.headD (some []) = some w.stack
  | _ => True

/-- The code of a variable's cleanup begins with a decision on a flag, by which the rest is run or
not; on a feasible path it is run just if the variable was not moved out of. -/
def Guards (w : World) (x : VarId) (e : Event) : Prop :=
  ∀ p, w.starting = some p → p.owner = some x →
    ∃ n b, e = .decides (.name (.localVar n)) b ∧
      ((w.next e).feasible = true → b = !w.moved x)

end World

/-- No note says that control cannot get here, and control does not fall out of a case. -/
def Event.Reachable : Event → Prop
  | .passes (.note .ends) | .passes (.note .skips) | .fallsThrough => False
  | _ => True

/-- The monitor of cleanups and flags. It asks for order only if this is wanted, and for flags only of
the given variables. -/
def discipline (ordered : Bool) (tracked : VarId → Prop) : Monitor World where
  next := World.next
  Ok w e := e.Reachable ∧ (ordered = true → w.Orderly e) ∧ ∀ x, tracked x → w.Guards x e

end Flow

end CBackend
