import CBackend.Proofs.Bracketing.Nodes

/-!
# Brackets

Lowering an expression or a statement leaves nothing open. The lines that it writes are complete
statements, in which every brace has its counterpart at the same indentation. Blocks, bound elements and
the loop around are given back as they were found, except that the loop may have been given labels, and
the cleanups that were waiting still wait. What is lowered in a scope of its own leaves no new cleanup.

## Main definitions

* `BracesMatch` : every brace has its counterpart at the same indentation.
* `LeftAsFound` : how a function is after a piece of lowering.

## Main results

* `Flow.Nested.bracesMatch` : the braces of complete statements.
* `lowering_leaves_nothing_open` : the lowering of expressions and statements.
-/

namespace CBackend

open IR Flow Lowering

/-! ### Braces -/

/-- The number of blocks that are open after lines, given the number before them. -/
def C.Line.depthThrough (n : Nat) (ls : List C.Line) : Nat :=
  ls.foldl C.Line.depthAfter n

open C.Line (depthThrough)

/-- The lines between two braces stand deeper than the braces, which stand at the same indentation. The
number is that of the blocks that are open before the first brace. -/
def Braced (n : Nat) (c : List C.Line) : Prop :=
  C.Line.depthAt (depthThrough n (.openBlock :: c)) .closeBlock = C.Line.depthAt n .openBlock ∧
    ∀ c₁ l c₂, c = c₁ ++ l :: c₂ →
      C.Line.depthAt n .openBlock < C.Line.depthAt (depthThrough n (.openBlock :: c₁)) l

/-- In lines before which the given number of blocks are open, every opening brace has its closing brace
at the same indentation, and the other way round. -/
structure BracesMatch (n : Nat) (ls : List C.Line) : Prop where
  opened : ∀ p q, ls = p ++ .openBlock :: q →
    ∃ c r, q = c ++ .closeBlock :: r ∧ Braced (depthThrough n p) c
  closed : ∀ p q, ls = p ++ .closeBlock :: q →
    ∃ r c, p = r ++ .openBlock :: c ∧ Braced (depthThrough n r) c

/-- Lines that end at the depth at which they begin, and do not go below it. -/
structure C.Line.Level (n : Nat) (ls : List C.Line) : Prop where
  after : depthThrough n ls = n
  above : ∀ p l q, ls = p ++ l :: q → n ≤ C.Line.depthAt (depthThrough n p) l

open C.Line (Level)

variable {n : Nat} {l : C.Line} {ls c r : List C.Line}

theorem C.Line.depthThrough_append (n : Nat) (ls ls' : List C.Line) :
    depthThrough n (ls ++ ls') = depthThrough (depthThrough n ls) ls' :=
  List.foldl_append

theorem C.Line.Level.braced (hc : Level (n + 1) c) : Braced n c := by
  refine ⟨?_, fun c₁ l c₂ h => hc.above c₁ l c₂ h⟩
  have hafter : depthThrough n (.openBlock :: c) = n + 1 := hc.after
  rw [hafter]
  rfl

theorem C.Line.depthAt_of_ne (hc : l ≠ .closeBlock) : l.depthAt n = n := by
  cases l <;> first | rfl | exact absurd rfl hc

theorem C.Line.depthThrough_cons_of_ne (ho : l ≠ .openBlock) (hc : l ≠ .closeBlock)
    (ls : List C.Line) : depthThrough n (l :: ls) = depthThrough n ls := by
  cases l <;> first | rfl | exact absurd rfl ho | exact absurd rfl hc

/-- Where a point lies in a list that is split at a point already. -/
theorem append_cons_eq_append_cons {α : Type} {c r p q : List α} {x y : α}
    (h : c ++ x :: r = p ++ y :: q) :
    (∃ q', c = p ++ y :: q' ∧ q = q' ++ x :: r) ∨ (p = c ∧ y = x ∧ q = r) ∨
      ∃ p', p = c ++ x :: p' ∧ r = p' ++ y :: q := by
  obtain hleft | ⟨p', rfl, hp'⟩ := append_eq_append_cons h
  · exact .inl hleft
  · cases p' with
    | nil =>
      obtain ⟨rfl, rfl⟩ := List.cons.inj hp'
      exact .inr (.inl ⟨List.append_nil c, rfl, rfl⟩)
    | cons z p' =>
      obtain ⟨rfl, rfl⟩ := List.cons.inj hp'
      exact .inr (.inr ⟨p', rfl, rfl⟩)

namespace C.Line.Level

theorem nil : Level n [] :=
  ⟨rfl, fun p _ _ h => by cases p <;> cases h⟩

theorem cons (ho : l ≠ .openBlock) (hc : l ≠ .closeBlock) (hls : Level n ls) : Level n (l :: ls) := by
  refine ⟨(depthThrough_cons_of_ne ho hc ls).trans hls.after, fun p l' q h => ?_⟩
  cases p with
  | nil =>
    cases h
    exact (depthAt_of_ne hc).ge
  | cons l'' p =>
    obtain ⟨rfl, ht⟩ := List.cons.inj h
    rw [depthThrough_cons_of_ne ho hc]
    exact hls.above p l' q ht

/-- The depth after a block, and further lines. -/
theorem depthThrough_block (hc : Level (n + 1) c) (ls : List C.Line) :
    depthThrough n (.openBlock :: (c ++ .closeBlock :: ls)) = depthThrough n ls := by
  change depthThrough (n + 1) (c ++ .closeBlock :: ls) = _
  rw [depthThrough_append, hc.after]
  rfl

theorem block (hc : Level (n + 1) c) (hr : Level n r) :
    Level n (.openBlock :: (c ++ .closeBlock :: r)) := by
  refine ⟨(hc.depthThrough_block r).trans hr.after, fun p l q h => ?_⟩
  cases p with
  | nil =>
    cases h
    exact le_rfl
  | cons l' p =>
    obtain ⟨rfl, ht⟩ := List.cons.inj h
    obtain ⟨q', rfl, rfl⟩ | ⟨rfl, rfl, rfl⟩ | ⟨p', rfl, rfl⟩ := append_cons_eq_append_cons ht
    · exact (Nat.le_succ n).trans (hc.above p l q' rfl)
    · change n ≤ depthThrough (n + 1) p - 1
      rw [hc.after]
      exact le_rfl
    · rw [hc.depthThrough_block]
      exact hr.above p' l q rfl

end C.Line.Level

namespace BracesMatch

theorem nil : BracesMatch n [] :=
  ⟨fun _ _ h => by simp at h, fun _ _ h => by simp at h⟩

theorem cons (ho : l ≠ .openBlock) (hc : l ≠ .closeBlock) (hls : BracesMatch n ls) :
    BracesMatch n (l :: ls) := by
  refine ⟨fun p q h => ?_, fun p q h => ?_⟩
  · cases p with
    | nil => exact absurd (List.cons.inj h).1 ho
    | cons l' p =>
      obtain ⟨rfl, ht⟩ := List.cons.inj h
      rw [C.Line.depthThrough_cons_of_ne ho hc]
      exact hls.opened p q ht
  · cases p with
    | nil => exact absurd (List.cons.inj h).1 hc
    | cons l' p =>
      obtain ⟨rfl, ht⟩ := List.cons.inj h
      obtain ⟨r, c, rfl, hb⟩ := hls.closed p q ht
      refine ⟨l :: r, c, rfl, ?_⟩
      rw [C.Line.depthThrough_cons_of_ne ho hc]
      exact hb

/-- The braces around a block are a pair, and the others pair off in the block and after it. -/
theorem block (hc : Level (n + 1) c) (hcm : BracesMatch (n + 1) c) (hr : BracesMatch n r) :
    BracesMatch n (.openBlock :: (c ++ .closeBlock :: r)) := by
  refine ⟨fun p q h => ?_, fun p q h => ?_⟩
  · cases p with
    | nil =>
      cases h
      exact ⟨c, r, rfl, hc.braced⟩
    | cons l p =>
      obtain ⟨rfl, ht⟩ := List.cons.inj h
      obtain ⟨q', rfl, rfl⟩ | ⟨-, hl, -⟩ | ⟨p', rfl, rfl⟩ := append_cons_eq_append_cons ht
      · obtain ⟨c', r', rfl, hb⟩ := hcm.opened p q' rfl
        exact ⟨c', r' ++ .closeBlock :: r, by simp, hb⟩
      · cases hl
      · rw [hc.depthThrough_block]
        exact hr.opened p' q rfl
  · cases p with
    | nil => cases h
    | cons l p =>
      obtain ⟨rfl, ht⟩ := List.cons.inj h
      obtain ⟨q', rfl, rfl⟩ | ⟨rfl, -, rfl⟩ | ⟨p', rfl, rfl⟩ := append_cons_eq_append_cons ht
      · obtain ⟨r', c', rfl, hb⟩ := hcm.closed p q' rfl
        exact ⟨.openBlock :: r', c', rfl, hb⟩
      · exact ⟨[], p, rfl, hc.braced⟩
      · obtain ⟨r', c', rfl, hb⟩ := hr.closed p' q rfl
        refine ⟨.openBlock :: (c ++ .closeBlock :: r'), c', by simp, ?_⟩
        rw [hc.depthThrough_block]
        exact hb

end BracesMatch

/-- The braces of complete statements, at whatever depth they are written. -/
theorem Flow.Nested.bracesMatch {L : List Step} (h : Nested L) :
    ∀ n, Level n (L.filterMap Step.line?) ∧ BracesMatch n (L.filterMap Step.line?) := by
  induction h with
  | nil => exact fun _ => ⟨.nil, .nil⟩
  | @step s r hs _ ih =>
    cases s with
    | note _ => exact ih
    | line l =>
      intro n
      have ho : l ≠ .openBlock := by rintro rfl; cases hs
      have hc : l ≠ .closeBlock := by rintro rfl; cases hs
      exact ⟨.cons ho hc (ih n).1, .cons ho hc (ih n).2⟩
  | @block c r _ _ ihc ihr =>
    intro n
    have hlines : (.line .openBlock :: (c ++ .line .closeBlock :: r) : List Step).filterMap Step.line? =
        .openBlock :: (c.filterMap Step.line? ++ .closeBlock :: r.filterMap Step.line?) := by
      simp [Step.line?]
    rw [hlines]
    exact ⟨.block (ihc (n + 1)).1 (ihr n).1, .block (ihc (n + 1)).1 (ihc (n + 1)).2 (ihr n).2⟩
  | @head l r hl _ ih =>
    intro n
    have ho : l ≠ .openBlock := by rintro rfl; cases hl
    have hc : l ≠ .closeBlock := by rintro rfl; cases hl
    exact ⟨.cons ho hc (ih n).1, .cons ho hc (ih n).2⟩

/-! ### Lowering -/

/-- How a function is after a piece of lowering, compared with how it was before. -/
structure LeftAsFound (f f' : FunctionDraft) : Prop where
  indent : f'.indent = f.indent
  bindings : f'.bindings = f.bindings
  cleanups : f.cleanups <:+ f'.cleanups
  loop : f.loop.Extends f'.loop
  counter : f.counter ≤ f'.counter
  steps : ∃ L, f'.steps.toList = f.steps.toList ++ L ∧ Nested L ∧
    BracesMatch f.indent (L.filterMap Step.line?)

theorem Framed.leftAsFound {bal : Bool} {f f' : FunctionDraft} (h : Framed bal f f') : LeftAsFound f f' := by
  obtain ⟨L, hL, hn⟩ := h.steps
  exact
    { indent := h.indent
      bindings := h.bindings
      cleanups := h.cleanups
      loop := h.loop
      counter := h.counter
      steps := ⟨L, hL, hn, (hn.bracesMatch f.indent).2⟩ }

/-- Lowering is bracketed. Whatever the module and the draft, an expression or statement that is lowered
leaves blocks, bound elements, cleanups and the loop as it found them, up to new cleanups and labels, and
writes complete statements whose braces match. What is lowered in a scope of its own, with or without
bound elements, leaves no cleanup either. -/
theorem lowering_leaves_nothing_open (m : Module) (depth : Nat) (d d' : Draft) :
    (∀ id dest v, (walk m depth).expr id dest d = .ok (v, d') → LeftAsFound d.func d'.func) ∧
    (∀ id, (walk m depth).stmt id d = .ok ((), d') → LeftAsFound d.func d'.func) ∧
    (∀ id dest v, (walk m depth).inScope id dest d = .ok (v, d') →
      LeftAsFound d.func d'.func ∧ d'.func.cleanups = d.func.cleanups) ∧
    ∀ elems id dest, (walk m depth).withBound elems id dest d = .ok ((), d') →
      LeftAsFound d.func d'.func ∧ d'.func.cleanups = d.func.cleanups := by
  have hw := walk_bracketed false m depth
  refine ⟨fun id dest v h => ?_, fun id h => ?_, fun id dest v h => ?_, fun elems id dest h => ?_⟩
  · exact (Steps.framed_of_ok (hw.expr [] id dest .of_false) h).leftAsFound
  · exact (Steps.framed_of_ok (hw.stmt [] id) h).leftAsFound
  · have hf := Steps.framed_of_ok (b := true) (Steps.inScope hw .of_false) h
    exact ⟨hf.leftAsFound, hf.balanced rfl⟩
  · have hf := Steps.framed_of_ok (b := true) (Steps.withBound hw .of_false) h
    exact ⟨hf.leftAsFound, hf.balanced rfl⟩

/-- A conditional whose branch leaves the loop. -/
def guardedBreak : Module where
  exprs := #[{ kind := .valueReference 0, ty := .builtin .i32, category := .lvalue },
    { kind := .breakLoop, ty := .void, category := .noreturn },
    { kind := .ifElse ⟨0⟩ ⟨1⟩ none, ty := .void, category := .none }]
  stmts := #[.expression ⟨2⟩]

/-- A draft of a function, inside of a switch in a loop, with a bound element. -/
def insideSwitch : Draft where
  options := {}
  func :=
    { indent := 3
      bindings := [{ content := some ⟨0, .symbol "c"⟩, ty := .int }]
      loop := { inSwitch := true } }

/-- Whether a block was written and a label given out. -/
def Draft.hasBlockAndLabel (d : Draft) : Bool :=
  (d.func.steps.toList.filterMap Step.line?).length == 4 && d.func.loop.breakLabel.isSome

/-- In `guardedBreak` a block is opened and closed, and the loop is given a label. -/
theorem lowering_leaves_nothing_open_guardedBreak :
    (∃ v d', (walk guardedBreak 3).expr ⟨2⟩ none insideSwitch = .ok (v, d') ∧
      d'.hasBlockAndLabel = true ∧ LeftAsFound insideSwitch.func d'.func) ∧
    (∃ d', (walk guardedBreak 3).stmt ⟨0⟩ insideSwitch = .ok ((), d') ∧
      d'.hasBlockAndLabel = true ∧ LeftAsFound insideSwitch.func d'.func) ∧
    (∃ v d', (walk guardedBreak 3).inScope ⟨2⟩ none insideSwitch = .ok (v, d') ∧
      d'.hasBlockAndLabel = true ∧ LeftAsFound insideSwitch.func d'.func ∧ d'.func.cleanups = []) ∧
    ∃ d', (walk guardedBreak 3).withBound [.none] ⟨1⟩ none insideSwitch = .ok ((), d') ∧
      LeftAsFound insideSwitch.func d'.func ∧ d'.func.cleanups = [] := by
  have hresult {α : Type} (x : Except Fault (α × Draft)) (check : Draft → Bool)
      (h : (x.toOption.any fun r => check r.2) = true) : ∃ a d', x = .ok (a, d') ∧ check d' = true := by
    cases x with
    | error e => cases h
    | ok r => exact ⟨r.1, r.2, rfl, h⟩
  obtain ⟨v₁, d₁, h₁, hc₁⟩ := hresult ((walk guardedBreak 3).expr ⟨2⟩ none insideSwitch)
    Draft.hasBlockAndLabel (by decide +kernel)
  obtain ⟨v₂, d₂, h₂, hc₂⟩ := hresult ((walk guardedBreak 3).stmt ⟨0⟩ insideSwitch)
    Draft.hasBlockAndLabel (by decide +kernel)
  obtain ⟨v₃, d₃, h₃, hc₃⟩ := hresult ((walk guardedBreak 3).inScope ⟨2⟩ none insideSwitch)
    Draft.hasBlockAndLabel (by decide +kernel)
  obtain ⟨v₄, d₄, h₄, -⟩ := hresult ((walk guardedBreak 3).withBound [.none] ⟨1⟩ none insideSwitch)
    (fun _ => true) (by decide +kernel)
  exact ⟨⟨v₁, d₁, h₁, hc₁, (lowering_leaves_nothing_open _ _ _ d₁).1 _ _ _ h₁⟩,
    ⟨d₂, h₂, hc₂, (lowering_leaves_nothing_open _ _ _ d₂).2.1 _ h₂⟩,
    ⟨v₃, d₃, h₃, hc₃, (lowering_leaves_nothing_open _ _ _ d₃).2.2.1 _ _ _ h₃⟩,
    ⟨d₄, h₄, (lowering_leaves_nothing_open _ _ _ d₄).2.2.2 _ _ _ h₄⟩⟩

end CBackend
