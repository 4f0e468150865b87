import CBackend.Proofs.Emission.Static

/-!
# The layout of what lowering writes

The pieces that lowering writes are well-nested, and no jump goes from one piece to another except to
the labels of the innermost loop. So the paths through a body can be taken apart along its pieces.
-/

namespace CBackend.Emission

open IR Flow

variable {strict : Bool} {m : Module} {γ : Exits} {sh : Shape} {c c' : Control} {L : List Step} {n : Nat}
  {c₁ c₂ : Names}

/-! ### Nesting -/

/-- How the steps of a piece are nested. -/
def Laid : Shape → List Step → Prop
  | .code, L | .action _, L | .cleanups _ _, L => Nested L ∧ ¬ StartsElse L
  | .chain, L => Chain L
  | .cases, L => Nested L ∧ NoLabels L

theorem Laid.append {L' : List Step} (h : Nested L ∧ ¬ StartsElse L) (h' : Nested L' ∧ ¬ StartsElse L') :
    Nested (L ++ L') ∧ ¬ StartsElse (L ++ L') :=
  ⟨h.1.append h'.1, not_startsElse_append h.2 h'.2⟩

/-- Steps that are complete in themselves are well-nested. -/
theorem nested_of_isComplete (h : ∀ s ∈ L, s.isComplete = true) : Nested L := by
  induction L with
  | nil => exact .nil
  | cons s L ih =>
    exact .step (h s List.mem_cons_self) (ih fun s' hs' => h s' (List.mem_cons_of_mem _ hs'))

theorem nested_caseEnd (b : Bool) : Nested (caseEnd b) := by
  cases b
  · exact nested_of_isComplete (by simp [caseEnd, Step.isComplete, C.Line.isComplete])
  · exact .nil

theorem nested_labelSteps (label : Option Nat) : Nested (labelSteps label) :=
  nested_of_isComplete (by cases label <;> simp [labelSteps, Step.isComplete, C.Line.isComplete])

theorem nested_iterationSteps (b : Bool) {I : List Step} (hI : Nested I) :
    Nested (iterationSteps b I) := by
  cases b
  · exact hI
  · exact .step rfl hI

theorem nested_clearSteps (p : Pending) : Nested (clearSteps p) := by
  rw [clearSteps]
  split
  · exact nested_of_isComplete (by simp [clearLine, Step.isComplete, C.Line.isComplete])
  · exact .nil

theorem nested_guardSteps {A : List Step} (p : Pending) (hA : Nested A) :
    Nested (guardSteps p A) := by
  rw [guardSteps]
  split
  · exact .head rfl (.block hA .nil)
  · exact hA

theorem nested_caseLabels (labels : List C.Expr) :
    Nested (labels.map fun e => .line (.caseLabel e)) :=
  nested_of_isComplete (by simp [Step.isComplete, C.Line.isComplete])

theorem noLabels_block {A K : List Step} (hA : Nested A) (hK : NoLabels K) :
    NoLabels (.line .openBlock :: (A ++ .line .closeBlock :: K)) := by
  intro n k hk
  simp [points, depthAfter, C.Line.depthAfter, hA.points_succ_append] at hk
  exact hK n k hk

theorem noLabels_append {L' : List Step} (hL : Nested L) (h : NoLabels L) (h' : NoLabels L') :
    NoLabels (L ++ L') := by
  intro n k hk
  obtain ⟨k₁, hk₁, -⟩ | hk := hL.mem_points_append.1 hk
  · exact h n k₁ hk₁
  · exact h' n k hk

/-- The pieces of a body that lowering writes are well-nested. -/
theorem Emits.laid (h : Emits strict m γ sh c L c') : Laid sh L := by
  induction h with
  | nil | number | cleanupsNil => exact ⟨.nil, id⟩
  | append _ _ ih ih' | closes _ _ _ ih ih' | cleanupsCons _ _ ih ih' => exact Laid.append ih ih'
  | @line _ _ l hl =>
    cases l <;> first | exact ⟨.step rfl .nil, Bool.false_ne_true⟩ | cases hl
  | evaluates | evaluatesWaiting | waits | declares | declaresFlag | declaresWaiting | skips
  | leaves =>
    exact ⟨nested_of_isComplete (by simp [Step.isComplete, C.Line.isComplete]), Bool.false_ne_true⟩
  | ends _ _ ih => exact Laid.append ih ⟨.step rfl .nil, Bool.false_ne_true⟩
  | revive _ ih | abandons _ _ ih => exact ih
  | @stops _ _ l hl =>
    cases l <;> first | exact ⟨.step rfl (.step rfl .nil), Bool.false_ne_true⟩ | cases hl
  | returns _ _ ih => exact Laid.append ih ⟨.step rfl (.step rfl .nil), Bool.false_ne_true⟩
  | exits _ _ hl ih =>
    refine Laid.append ih ⟨.step rfl (.step ?_ (.step rfl .nil)), Bool.false_ne_true⟩
    cases hl <;> rfl
  | action _ _ _ _ ih =>
    refine ⟨.step rfl (((nested_guardSteps _ ih.1).append (nested_clearSteps _)).append ?_), Bool.false_ne_true⟩
    exact .step rfl .nil
  | ifThen _ _ _ _ ih ih' => exact ⟨.head rfl (.block ih.1 ih'.nested), Bool.false_ne_true⟩
  | chainNil => exact .nil
  | otherwise _ _ ih => exact .otherwise ih.1
  | elseIf _ _ _ _ ih ih' => exact .elseIf ih.1 ih'
  | switch _ _ ih | elementLoop _ _ _ ih => exact ⟨.head rfl (.block ih.1 .nil), Bool.false_ne_true⟩
  | casesNil => exact ⟨.nil, fun _ _ hk => by cases hk⟩
  | @caseBlock _ _ c₁ _ _ _ _ _ _ _ _ ih ih' =>
    have hblock := ih.1.append (nested_caseEnd c₁.terminated)
    refine ⟨(nested_caseLabels _).append (.block hblock ih'.1), ?_⟩
    refine noLabels_append (nested_caseLabels _) (.of_notMem ?_) (noLabels_block hblock ih'.2)
    simp
  | @defaultBlock _ _ c₁ _ _ _ ih =>
    have hblock := ih.1.append (nested_caseEnd c₁.terminated)
    have hlabel : NoLabels [.line .defaultLabel] := .of_notMem (by simp)
    refine ⟨.step rfl (.block hblock .nil), ?_⟩
    exact noLabels_append (.step rfl .nil) hlabel (noLabels_block hblock fun _ _ hk => by cases hk)
  | loop _ _ _ _ _ _ ih ih' =>
    refine ⟨.step rfl (.head rfl (.block ((ih.1.append (nested_labelSteps _)).append
      (nested_iterationSteps _ ih'.1)) ?_)), Bool.false_ne_true⟩
    exact (nested_labelSteps _).append (.step rfl .nil)

/-! ### Jumps and labels -/

theorem Leaves.goto_hasLabel {exit : LoopExit} (h : Leaves exit c (.goto n) c') :
    c'.names.HasLabel n := by
  cases h with
  | breakTo _ h => exact .inl h
  | breakToNew => exact .inl rfl
  | continueAt _ h => exact .inr h
  | continueAtNew => exact .inr rfl

theorem Leaves.not_label {exit : LoopExit} (h : Leaves exit c (.label n) c') : False := by
  cases h

@[simp]
theorem line_mem_iterationSteps (l : C.Line) (b : Bool) (I : List Step) :
    .line l ∈ iterationSteps b I ↔ .line l ∈ I := by
  cases b <;> simp [iterationSteps]

@[simp]
theorem goto_notMem_caseEnd (n : Nat) (b : Bool) : .line (.goto n) ∉ caseEnd b := by
  cases b <;> simp [caseEnd]

@[simp]
theorem label_notMem_caseEnd (n : Nat) (b : Bool) : .line (.label n) ∉ caseEnd b := by
  cases b <;> simp [caseEnd]

@[simp]
theorem goto_notMem_labelSteps (n : Nat) (label : Option Nat) :
    .line (.goto n) ∉ labelSteps label := by
  cases label <;> simp [labelSteps]

@[simp]
theorem label_mem_labelSteps (n : Nat) (label : Option Nat) :
    .line (.label n) ∈ labelSteps label ↔ label = some n := by
  cases label <;> simp [labelSteps, eq_comm]

@[simp]
theorem goto_notMem_clearSteps (n : Nat) (p : Pending) : .line (.goto n) ∉ clearSteps p := by
  rw [clearSteps]
  split <;> simp [clearLine]

@[simp]
theorem label_notMem_clearSteps (n : Nat) (p : Pending) : .line (.label n) ∉ clearSteps p := by
  rw [clearSteps]
  split <;> simp [clearLine]

@[simp]
theorem goto_mem_guardSteps (n : Nat) (p : Pending) (A : List Step) :
    .line (.goto n) ∈ guardSteps p A ↔ .line (.goto n) ∈ A := by
  rw [guardSteps]
  split <;> simp

@[simp]
theorem label_mem_guardSteps (n : Nat) (p : Pending) (A : List Step) :
    .line (.label n) ∈ guardSteps p A ↔ .line (.label n) ∈ A := by
  rw [guardSteps]
  split <;> simp

/-- A number that a jump between two states may have. -/
def JumpsWithin (c c' : Names) (n : Nat) : Prop :=
  c'.HasLabel n ∨ c.counter ≤ n ∧ n < c'.counter

theorem JumpsWithin.extend {c : Names} (h : JumpsWithin c c₁ n) (hg : Grown c₁ c₂) : JumpsWithin c c₂ n := by
  obtain h | ⟨hle, hlt⟩ := h
  · exact .inl (hg.hasLabel h)
  · exact .inr ⟨hle, hlt.trans_le hg.counter⟩

theorem JumpsWithin.precede {c : Names} (h : JumpsWithin c₁ c₂ n) (hg : Grown c c₁) : JumpsWithin c c₂ n := by
  obtain h | ⟨hle, hlt⟩ := h
  · exact .inl h
  · exact .inr ⟨hg.counter.trans hle, hlt⟩

/-- A jump of a piece goes to a label of the innermost loop, or has a number of the piece's own. -/
theorem Emits.goto_mem (h : Emits strict m γ sh c L c') (hn : .line (.goto n) ∈ L) :
    JumpsWithin c.names c'.names n := by
  induction h with
  | nil | number | cleanupsNil | chainNil | casesNil => cases hn
  | append h₁ h₂ ih ih' | closes h₁ _ h₂ ih ih' | cleanupsCons h₁ h₂ ih ih' =>
    obtain hn | hn := List.mem_append.1 hn
    · exact (ih hn).extend h₂.grown
    · exact (ih' hn).precede h₁.grown
  | @line _ _ l hl =>
    cases List.mem_singleton.1 hn
    cases hl
  | evaluates | evaluatesWaiting | waits | declares | declaresFlag | declaresWaiting | skips
  | leaves => simp at hn
  | ends _ _ ih | returns _ _ ih | action _ _ _ _ ih | otherwise _ _ ih | defaultBlock _ _ ih
  | elementLoop _ _ _ ih | switch _ _ ih => exact ih (by simpa using hn)
  | revive _ ih | abandons _ _ ih => exact ih hn
  | @stops _ _ l hl =>
    simp only [List.mem_cons, Step.line.injEq, reduceCtorEq, List.not_mem_nil, or_false] at hn
    subst hn
    cases hl
  | exits _ _ hl ih =>
    simp only [List.mem_append, List.mem_cons, Step.line.injEq, reduceCtorEq, List.not_mem_nil,
      or_false, false_or] at hn
    obtain hn | rfl := hn
    · exact (ih hn).extend hl.grown
    · exact .inl hl.goto_hasLabel
  | ifThen _ h₁ _ h₂ ih ih' | elseIf _ h₁ _ h₂ ih ih' =>
    simp only [List.mem_cons, List.mem_append, Step.line.injEq, reduceCtorEq, false_or] at hn
    obtain hn | hn := hn
    · exact (ih hn).extend h₂.grown
    · exact (ih' hn).precede h₁.grown
  | caseBlock _ h₁ _ h₂ ih ih' =>
    simp only [List.mem_append, List.mem_map, List.mem_cons, Step.line.injEq, reduceCtorEq,
      and_false, exists_false, false_or, goto_notMem_caseEnd, or_false] at hn
    obtain hn | hn := hn
    · exact (ih hn).extend h₂.grown
    · exact (ih' hn).precede h₁.grown
  | @loop _ c c₁ c₂ iterates label X I h₁ _ _ h₂ _ _ ih ih' =>
    simp only [List.mem_append, List.mem_cons, Step.line.injEq, reduceCtorEq, false_or, or_false,
      goto_notMem_labelSteps, line_mem_iterationSteps, List.not_mem_nil] at hn
    have hg₂ : Grown c₁.names c₂.names := by
      have := h₂.grown
      cases label <;> exact this
    -- the loop starts without labels, so the labels it has at its end have numbers of its own
    have hall : JumpsWithin (c.inLoop iterates).names c₂.names n := by
      obtain hn | hn := hn
      · exact (ih hn).extend hg₂
      · refine (ih' hn).precede ?_
        cases label <;> exact h₁.grown
    obtain hlabel | hbound := hall
    · obtain hnone | hbound := (h₁.grown.trans hg₂).hasLabel_or hlabel
      · rcases hnone with hnone | hnone <;> cases hnone
      · exact .inr hbound
    · exact .inr hbound

/-- A number that a label between two states may have: one of the piece's own that does not belong to
the innermost loop. -/
def LabelsWithin (c c' : Names) (n : Nat) : Prop :=
  (c.counter ≤ n ∧ n < c'.counter) ∧ ¬ c'.HasLabel n

theorem LabelsWithin.extend {c : Names} (h : LabelsWithin c c₁ n) (hg : Grown c₁ c₂) : LabelsWithin c c₂ n := by
  refine ⟨⟨h.1.1, h.1.2.trans_le hg.counter⟩, fun hlabel => ?_⟩
  obtain hlabel | ⟨hle, -⟩ := hg.hasLabel_or hlabel
  · exact h.2 hlabel
  · exact absurd h.1.2 (not_lt.2 hle)

theorem LabelsWithin.precede {c : Names} (h : LabelsWithin c₁ c₂ n) (hg : Grown c c₁) : LabelsWithin c c₂ n :=
  ⟨⟨hg.counter.trans h.1.1, h.1.2⟩, h.2⟩

/-- A label of a piece has a number of the piece's own and does not belong to the innermost loop. -/
theorem Emits.label_mem (h : Emits strict m γ sh c L c') (hc : c.names.Sane) (hn : .line (.label n) ∈ L) :
    LabelsWithin c.names c'.names n := by
  induction h with
  | nil | number | cleanupsNil | chainNil | casesNil => cases hn
  | append h₁ h₂ ih ih' | closes h₁ _ h₂ ih ih' | cleanupsCons h₁ h₂ ih ih' =>
    obtain hn | hn := List.mem_append.1 hn
    · exact (ih hc hn).extend h₂.grown
    · exact (ih' (h₁.sane hc) hn).precede h₁.grown
  | @line _ _ l hl =>
    cases List.mem_singleton.1 hn
    cases hl
  | evaluates | evaluatesWaiting | waits | declares | declaresFlag | declaresWaiting | skips
  | leaves => simp at hn
  | ends _ _ ih | returns _ _ ih | action _ _ _ _ ih | otherwise _ _ ih | defaultBlock _ _ ih
  | elementLoop _ _ _ ih => exact ih hc (by simpa using hn)
  | switch _ _ ih => exact ih hc.inSwitch (by simpa using hn)
  | revive _ ih | abandons _ _ ih => exact ih hc hn
  | @stops _ _ l hl =>
    simp only [List.mem_cons, Step.line.injEq, reduceCtorEq, List.not_mem_nil, or_false] at hn
    subst hn
    cases hl
  | exits _ _ hl ih =>
    simp only [List.mem_append, List.mem_cons, Step.line.injEq, reduceCtorEq, List.not_mem_nil,
      or_false, false_or] at hn
    obtain hn | rfl := hn
    · exact (ih hc hn).extend hl.grown
    · exact hl.not_label.elim
  | ifThen _ h₁ _ h₂ ih ih' | elseIf _ h₁ _ h₂ ih ih' =>
    simp only [List.mem_cons, List.mem_append, Step.line.injEq, reduceCtorEq, false_or] at hn
    obtain hn | hn := hn
    · exact (ih hc hn).extend h₂.grown
    · exact (ih' (h₁.sane hc) hn).precede h₁.grown
  | caseBlock _ h₁ _ h₂ ih ih' =>
    simp only [List.mem_append, List.mem_map, List.mem_cons, Step.line.injEq, reduceCtorEq,
      and_false, exists_false, false_or, label_notMem_caseEnd, or_false] at hn
    obtain hn | hn := hn
    · exact (ih hc hn).extend h₂.grown
    · exact (ih' (h₁.sane hc) hn).precede h₁.grown
  | @loop _ c c₁ c₂ iterates label X I h₁ _ hlabel h₂ _ _ ih ih' =>
    simp only [List.mem_append, List.mem_cons, Step.line.injEq, reduceCtorEq, false_or, or_false,
      label_mem_labelSteps, line_mem_iterationSteps, List.not_mem_nil] at hn
    have hsane₁ : c₁.names.Sane := h₁.sane (hc.inLoop _)
    have hg₂ : Grown c₁.names c₂.names := by
      have := h₂.grown
      cases label <;> exact this
    have hbound : c.counter ≤ n ∧ n < c₂.counter := by
      have old {c' : Names} (hg : Grown (c.inLoop iterates).names c') (hl : c'.HasLabel n) :
          c.counter ≤ n ∧ n < c'.counter := by
        obtain hnone | hbound := hg.hasLabel_or hl
        · rcases hnone with hnone | hnone <;> cases hnone
        · exact hbound
      rcases hn with ((hn | hn) | hn) | hn
      · exact ((ih (hc.inLoop _) hn).extend hg₂).1
      · exact (old h₁.grown (.inr (hlabel.trans hn))).imp id (·.trans_le hg₂.counter)
      · exact ((ih' (by cases label <;> exact hsane₁) hn).precede
          (by cases label <;> exact h₁.grown)).1
      · exact old (h₁.grown.trans hg₂) (.inl hn)
    exact ⟨hbound, fun hl => absurd (hc.labels n hl) (not_lt.2 hbound.1)⟩

/-! ### Pieces after one another -/

section

variable {γ' : Exits} {sh' : Shape} {c₁ c₁' c₂ : Control} {L₁ L₂ : List Step} (h₁ : Emits strict m γ sh c L₁ c₁)
  (h₂ : Emits strict m γ' sh' c₁' L₂ c₂) (heq : c₁'.names = c₁.names) (hc : c.names.Sane)

include h₁ h₂ heq hc

/-- No jump goes from a piece to the next one. -/
theorem Emits.separate : Separate L₁ L₂ := by
  intro n hgoto hlabel
  have hg := h₂.grown
  obtain ⟨⟨hle, -⟩, hno⟩ := h₂.label_mem (heq ▸ h₁.sane hc) hlabel
  rw [heq] at hg hle
  obtain hl | ⟨-, hlt⟩ := h₁.goto_mem hgoto
  · exact hno (hg.hasLabel hl)
  · exact absurd hlt (not_lt.2 hle)

/-- No jump goes back from a piece to the one before. -/
theorem Emits.separate_back : Separate L₂ L₁ := by
  intro n hgoto hlabel
  have hg := h₂.grown
  have hjump := h₂.goto_mem hgoto
  obtain ⟨⟨-, hlt⟩, hno⟩ := h₁.label_mem hc hlabel
  rw [heq] at hg hjump
  obtain hl | ⟨hle, -⟩ := hjump
  · obtain hl | ⟨hle, -⟩ := hg.hasLabel_or hl
    · exact hno hl
    · exact absurd hlt (not_lt.2 hle)
  · exact absurd hlt (not_lt.2 hle)

/-- Two pieces have no label in common. -/
theorem Emits.labels_disjoint (n : Nat) (hn : .line (.label n) ∈ L₁) : .line (.label n) ∉ L₂ := by
  intro hn'
  obtain ⟨⟨-, hlt⟩, -⟩ := h₁.label_mem hc hn
  obtain ⟨⟨hle, -⟩, -⟩ := h₂.label_mem (heq ▸ h₁.sane hc) hn'
  rw [heq] at hle
  exact absurd hlt (not_lt.2 hle)

omit h₂ heq hc in
/-- A label that the innermost loop has later, and to which a piece jumps, it has after the piece. -/
theorem Emits.hasLabel_of_goto {N : Names} (hg : Grown c₁.names N) (hgoto : .line (.goto n) ∈ L₁)
    (hn : N.HasLabel n) : c₁.names.HasLabel n := by
  obtain hl | ⟨hle, -⟩ := hg.hasLabel_or hn
  · exact hl
  · obtain hl | ⟨-, hlt⟩ := h₁.goto_mem hgoto
    · exact hl
    · exact absurd hlt (not_lt.2 hle)

end

end CBackend.Emission
