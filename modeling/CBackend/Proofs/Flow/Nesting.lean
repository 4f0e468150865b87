import CBackend.Proofs.Flow.Paths

/-!
# Well-nested steps

Steps in which every block is closed and every conditional, loop and switch has its block. The block
structure of such steps does not depend on what follows them, and so neither do their paths: a path
through well-nested steps and what comes after them is a path through the one and then a path through
the other.
-/

namespace CBackend

variable {s : Step} {l : C.Line} {L₁ L₂ R k : List Step} {n : Nat} {t : List Event} {o : Outcome}

/-- Whether a line needs a block after it. -/
def C.Line.isHead : C.Line → Bool
  | ifThen _ | elseIf _ | otherwise | whileLoop _ | switchOn _ => true
  | _ => false

/-- Whether a line is complete in itself. -/
def C.Line.isComplete : C.Line → Bool
  | ifThen _ | elseIf _ | otherwise | whileLoop _ | switchOn _ | openBlock | closeBlock => false
  | _ => true

/-- Whether a step is complete in itself. -/
def Step.isComplete : Step → Bool
  | line l => l.isComplete
  | note _ => true

/-- Where a point lies in two lists after one another. -/
theorem append_eq_append_cons {α : Type} {L L' P Q : List α} {s : α} (h : L ++ L' = P ++ s :: Q) :
    (∃ Q', L = P ++ s :: Q' ∧ Q = Q' ++ L') ∨ ∃ P', P = L ++ P' ∧ L' = P' ++ s :: Q := by
  obtain ⟨a, rfl, ha⟩ | ⟨a, rfl, ha⟩ := List.append_eq_append_iff.1 h
  · exact .inr ⟨a, rfl, ha⟩
  · cases a with
    | nil => exact .inr ⟨[], by simp, ha.symm⟩
    | cons s' a =>
      obtain ⟨rfl, rfl⟩ := List.cons.inj ha
      exact .inl ⟨a, rfl, rfl⟩

namespace Flow

/-- Well-nested steps. -/
inductive Nested : List Step → Prop
  | nil : Nested []
  | step {s r} (hs : s.isComplete = true) (hr : Nested r) : Nested (s :: r)
  | block {c r} (hc : Nested c) (hr : Nested r) :
      Nested (.line .openBlock :: (c ++ .line .closeBlock :: r))
  | head {l r} (hl : l.isHead = true) (hr : Nested (.line .openBlock :: r)) :
      Nested (.line l :: .line .openBlock :: r)

theorem not_startsElse_append {L L' : List Step} (h : ¬ StartsElse L) (h' : ¬ StartsElse L') :
    ¬ StartsElse (L ++ L') := by
  cases L with
  | nil => exact h'
  | cons s L => exact h

/-! ### Complete steps -/

theorem isComplete_of_isPlain (h : s.isPlain = true) : s.isComplete = true := by
  cases s with
  | line l => cases l <;> first | rfl | cases h
  | note n => rfl

theorem isComplete_of_isHead (h : l.isHead = true) : l.isComplete = false := by
  cases l <;> first | rfl | cases h

theorem splitBlock_cons_of_isComplete (hs : s.isComplete = true) (n : Nat) (r : List Step) :
    splitBlock n (s :: r) = (splitBlock n r).map fun p => (s :: p.1, p.2) := by
  cases s with
  | note _ => cases n <;> rfl
  | line l => cases l <;> first | (cases n <;> rfl) | cases hs

theorem splitBlock_cons_of_isHead (hl : l.isHead = true) (n : Nat) (r : List Step) :
    splitBlock n (.line l :: r) = (splitBlock n r).map fun p => (.line l :: p.1, p.2) := by
  cases l <;> first | (cases n <;> rfl) | cases hl

theorem depthAfter_of_isComplete (hs : s.isComplete = true) (n : Nat) :
    depthAfter n s = n := by
  cases s with
  | note _ => rfl
  | line l => cases l <;> first | rfl | cases hs

theorem depthAfter_of_isHead (hl : l.isHead = true) (n : Nat) :
    depthAfter n (.line l) = n := by
  cases l <;> first | rfl | cases hl

/-! ### The block structure of well-nested steps -/

namespace Nested

theorem append {c r : List Step} (hc : Nested c) (hr : Nested r) : Nested (c ++ r) := by
  induction hc with
  | nil => exact hr
  | step hs _ ih => exact .step hs ih
  | @block c r' hc _ _ ih =>
    have h := block hc ih
    simpa using h
  | head hl _ ih => exact .head hl ih

/-- What well-nested steps do to a search for the end of the block around them: nothing. -/
theorem splitBlock_append {c : List Step} (hc : Nested c) (n : Nat) (r : List Step) :
    splitBlock n (c ++ r) = (splitBlock n r).map fun p => (c ++ p.1, p.2) := by
  induction hc generalizing n r with
  | nil => simp
  | step hs _ ih => simp [splitBlock_cons_of_isComplete hs, ih, Function.comp_def]
  | @block c' r' _ _ ihc ihr =>
    have hopen (x : List Step) : splitBlock n (.line .openBlock :: x) =
        (splitBlock (n + 1) x).map fun p => (.line .openBlock :: p.1, p.2) := by
      cases n <;> rfl
    have hclose (x : List Step) : splitBlock (n + 1) (.line .closeBlock :: x) =
        (splitBlock n x).map fun p => (.line .closeBlock :: p.1, p.2) := rfl
    simp [hopen, hclose, ihc, ihr, Function.comp_def]
  | head hl _ ih =>
    have h := ih n r
    simp only [List.cons_append] at h ⊢
    simp [splitBlock_cons_of_isHead hl, h, Function.comp_def]

/-- Well-nested steps fill the block that a brace after them closes. -/
@[simp]
theorem splitBlock_close {c : List Step} (hc : Nested c) (r : List Step) :
    splitBlock 0 (c ++ .line .closeBlock :: r) = some (c, r) := by
  simp [hc.splitBlock_append, splitBlock]

theorem points_succ_append {c : List Step} (hc : Nested c) (n : Nat) (r : List Step) :
    points (n + 1) (c ++ r) = points (n + 1) r := by
  induction hc generalizing n r with
  | nil => rfl
  | step hs _ ih => simp [points, depthAfter_of_isComplete hs, ih]
  | block _ _ ihc ihr =>
    simp [points, depthAfter, C.Line.depthAfter, ihc, ihr]
  | head hl _ ih =>
    have h := ih n r
    simp only [List.cons_append] at h ⊢
    rw [points, depthAfter_of_isHead hl, h]

/-- The points of well-nested steps with what follows them. -/
theorem points_append {c : List Step} (hc : Nested c) (r : List Step) :
    points 0 (c ++ r) = (points 0 c).map (· ++ r) ++ points 0 r := by
  induction hc with
  | nil => rfl
  | step hs _ ih => simp [points, depthAfter_of_isComplete hs, ih]
  | block hc _ _ ihr =>
    simp [points, depthAfter, C.Line.depthAfter, hc.points_succ_append, ihr]
  | @head l r' hl _ ih =>
    have hp (x : List Step) : points 0 (.line l :: x) = (.line l :: x) :: points 0 x := by
      rw [points, depthAfter_of_isHead hl]
    simp only [List.cons_append] at ih ⊢
    rw [hp, hp, ih]
    rfl

/-- From every point of well-nested steps on, the rest is well-nested. -/
theorem of_mem_points {c : List Step} (hc : Nested c) (hk : k ∈ points 0 c) : Nested k := by
  induction hc with
  | nil => cases hk
  | step hs hr ih =>
    rw [points, depthAfter_of_isComplete hs] at hk
    obtain rfl | hk := List.mem_cons.1 hk
    · exact .step hs hr
    · exact ih hk
  | @block c r hc hr _ ihr =>
    rw [points] at hk
    obtain rfl | hk := List.mem_cons.1 hk
    · exact .block hc hr
    · simp only [depthAfter, C.Line.depthAfter, Nat.zero_add] at hk
      rw [hc.points_succ_append] at hk
      exact ihr hk
  | head hl hr ih =>
    rw [points, depthAfter_of_isHead hl] at hk
    obtain rfl | hk := List.mem_cons.1 hk
    · exact .head hl hr
    · exact ih hk

theorem tail_of_isComplete {r : List Step} (h : Nested (s :: r)) (hs : s.isComplete = true) : Nested r := by
  cases h with
  | step _ hr => exact hr
  | block => cases hs
  | head hl => exact absurd hs (by simp [Step.isComplete, isComplete_of_isHead hl])

theorem eq_block {r : List Step} (h : Nested (.line .openBlock :: r)) :
    ∃ c k, r = c ++ .line .closeBlock :: k ∧ Nested c ∧ Nested k := by
  cases h with
  | step hs => cases hs
  | block hc hr => exact ⟨_, _, rfl, hc, hr⟩
  | head hl => cases hl

theorem eq_head {r : List Step} (hl : l.isHead = true) (h : Nested (.line l :: r)) :
    ∃ c k, r = .line .openBlock :: (c ++ .line .closeBlock :: k) ∧ Nested c ∧ Nested k := by
  cases h with
  | step hs => exact absurd hs (by simp [Step.isComplete, isComplete_of_isHead hl])
  | block => cases hl
  | head _ hr =>
    obtain ⟨c, k, rfl, hc, hk⟩ := hr.eq_block
    exact ⟨c, k, rfl, hc, hk⟩

end Nested

theorem mem_of_splitBlock {r c : List Step} (h : splitBlock n r = some (c, k)) :
    c ⊆ r ∧ k ⊆ r := by
  induction r generalizing n c k with
  | nil => cases n <;> cases h
  | cons s r ih =>
    have step {n' : Nat} {c' : List Step}
        (h' : (splitBlock n' r).map (fun p => (s :: p.1, p.2)) = some (c', k)) :
        c' ⊆ s :: r ∧ k ⊆ s :: r := by
      obtain ⟨⟨c'', k'⟩, hs, heq⟩ := Option.map_eq_some_iff.1 h'
      cases heq
      obtain ⟨h₁, h₂⟩ := ih hs
      exact ⟨List.cons_subset_cons _ h₁, List.subset_cons_of_subset _ h₂⟩
    by_cases hs : s.isComplete = true
    · exact step (splitBlock_cons_of_isComplete hs n r ▸ h)
    · cases s with
      | note _ => exact absurd rfl hs
      | line l =>
        by_cases hl : l.isHead = true
        · exact step (splitBlock_cons_of_isHead hl n r ▸ h)
        · cases l with
          | openBlock => cases n <;> exact step h
          | closeBlock =>
            cases n with
            | zero => cases h; exact ⟨List.nil_subset _, List.subset_cons_self _ _⟩
            | succ n => exact step h
          | _ => first | exact absurd rfl hs | exact absurd rfl hl

theorem mem_of_mem_points {r : List Step} (h : s :: k ∈ points n r) :
    s ∈ r := by
  induction r generalizing n with
  | nil => cases n <;> cases h
  | cons s' r ih =>
    cases n with
    | zero =>
      rw [points] at h
      obtain h | h := List.mem_cons.1 h
      · cases h; exact List.mem_cons_self
      · exact List.mem_cons_of_mem _ (ih h)
    | succ n => exact List.mem_cons_of_mem _ (ih h)

/-! ### Paths through well-nested steps -/

/-- The block at the front of well-nested steps with what follows them. -/
private theorem Nested.split_append {r c r' : List Step} (hr : Nested (.line .openBlock :: r))
    (h : splitBlock 0 (r ++ k) = some (c, r')) :
    ∃ r₁, splitBlock 0 r = some (c, r₁) ∧ r' = r₁ ++ k ∧ Nested r₁ := by
  obtain ⟨c₁, r₁, rfl, hc, hr₁⟩ := hr.eq_block
  rw [List.append_assoc, List.cons_append, hc.splitBlock_close] at h
  cases h
  exact ⟨r₁, hc.splitBlock_close r₁, rfl, hr₁⟩

/-- The block after a head at the front of well-nested steps with what follows them. -/
private theorem Nested.head_append {r y c r' : List Step} (hr : Nested (s :: r)) (hl : l.isHead = true)
    (hx : s :: r ++ k = .line l :: .line .openBlock :: y) (h : splitBlock 0 y = some (c, r')) :
    s = .line l ∧ ∃ r₀ r₁, r = .line .openBlock :: r₀ ∧ splitBlock 0 r₀ = some (c, r₁) ∧
      r' = r₁ ++ k ∧ Nested r₁ := by
  obtain ⟨rfl, hy⟩ := List.cons.inj (List.cons_append.symm.trans hx)
  obtain ⟨c₁, r₁, rfl, hc, hr₁⟩ := hr.eq_head hl
  obtain rfl := (List.cons.inj (List.cons_append.symm.trans hy)).2
  obtain ⟨r₂, h₂, rfl, hr₂⟩ := (Nested.block hc hr₁).split_append h
  exact ⟨rfl, _, r₂, rfl, h₂, rfl, hr₂⟩

/-- Behind the branches of a conditional in well-nested steps with what follows them. -/
theorem AfterElse.append_cases {r x : List Step} (h : AfterElse (r ++ k) x) (hr : Nested r) (hk : ¬ StartsElse k) :
    ∃ r₁, x = r₁ ++ k ∧ AfterElse r r₁ ∧ Nested r₁ := by
  generalize hy : r ++ k = y at h
  induction h generalizing r with
  | done h =>
    subst hy
    refine ⟨r, rfl, .done ?_, hr⟩
    cases r with
    | nil => exact id
    | cons s r => exact h
  | @skip s y₁ c r' x hs hsplit _ ih =>
    cases r with
    | nil => subst hy; exact absurd hs hk
    | cons s₁ r =>
      obtain ⟨l, rfl, hl⟩ : ∃ l, s = .line l ∧ l.isHead = true := by
        cases s with
        | note _ => cases hs
        | line l => exact ⟨l, rfl, by cases l <;> first | rfl | cases hs⟩
      obtain ⟨rfl, r₀, r₁, rfl, hsplit', rfl, hr₁⟩ := hr.head_append hl hy hsplit
      obtain ⟨r₂, rfl, hafter, hr₂⟩ := ih hr₁ rfl
      exact ⟨r₂, rfl, .skip hs hsplit' hafter, hr₂⟩

/-- A path through well-nested steps with what follows them stays within them or gets past them. -/
theorem Path.append_cases {r : List Step} (h : Path none (r ++ k) t o) (hr : Nested r) (hk : ¬ StartsElse k) :
    (Path none r t o ∧ o ≠ .falls) ∨
      ∃ t₁ t₂, t = t₁ ++ t₂ ∧ Path none r t₁ .falls ∧ Path none k t₂ o := by
  generalize hx : r ++ k = x at h
  generalize hm : (none : Option (List Step)) = mode at h
  -- once no steps are left, the path is one through `k`
  have empty {t : List Event} {o : Outcome} (h : Path none k t o) :
      (Path none [] t o ∧ o ≠ .falls) ∨
        ∃ t₁ t₂, t = t₁ ++ t₂ ∧ Path none [] t₁ .falls ∧ Path none k t₂ o :=
    .inr ⟨[], t, rfl, .falls, h⟩
  induction h generalizing r with
  | cut y => exact .inl ⟨.cut r, Outcome.noConfusion⟩
  | falls =>
    obtain ⟨rfl, rfl⟩ := List.append_eq_nil_iff.1 hx
    exact empty .falls
  | pass hs h ih =>
    cases r with
    | nil => subst hx; exact empty (.pass hs h)
    | cons s r =>
      obtain ⟨rfl, rfl⟩ := List.cons.inj hx
      obtain ⟨h, ho⟩ | ⟨t₁, t₂, rfl, h₁, h₂⟩ :=
        ih (hr.tail_of_isComplete (isComplete_of_isPlain hs)) rfl rfl
      · exact .inl ⟨.pass hs h, ho⟩
      · exact .inr ⟨_, t₂, rfl, .pass hs h₁, h₂⟩
  | @exit l y o hl =>
    cases r with
    | nil => subst hx; exact empty (.exit hl)
    | cons s r =>
      obtain ⟨rfl, rfl⟩ := List.cons.inj hx
      refine .inl ⟨.exit hl, ?_⟩
      rintro rfl
      cases l <;> cases hl
  | block hsplit h h' _ ih' =>
    cases r with
    | nil => subst hx; exact empty (.block hsplit h h')
    | cons s r =>
      obtain ⟨rfl, rfl⟩ := List.cons.inj hx
      obtain ⟨r₁, hs, rfl, hr₁⟩ := hr.split_append hsplit
      obtain ⟨h', ho⟩ | ⟨t₁, t₂, rfl, h₁, h₂⟩ := ih' hr₁ rfl rfl
      · exact .inl ⟨.block hs h h', ho⟩
      · exact .inr ⟨_, t₂, by simp, .block hs h h₁, h₂⟩
  | blockExit hsplit h ho _ =>
    cases r with
    | nil => subst hx; exact empty (.blockExit hsplit h ho)
    | cons s r =>
      obtain ⟨rfl, rfl⟩ := List.cons.inj hx
      obtain ⟨r₁, hs, rfl, hr₁⟩ := hr.split_append hsplit
      exact .inl ⟨.blockExit hs h ho, ho⟩
  | take hl hsplit h hk' h' _ ih' =>
    cases r with
    | nil => subst hx; exact empty (.take hl hsplit h hk' h')
    | cons s r =>
      obtain ⟨rfl, r₀, r₁, rfl, hs, rfl, hr₁⟩ :=
        hr.head_append (by rcases hl with rfl | rfl <;> rfl) hx hsplit
      obtain ⟨r₂, rfl, hafter, hr₂⟩ := hk'.append_cases hr₁ hk
      obtain ⟨h', ho⟩ | ⟨t₁, t₂, rfl, h₁, h₂⟩ := ih' hr₂ rfl rfl
      · exact .inl ⟨.take hl hs h hafter h', ho⟩
      · exact .inr ⟨_, t₂, by simp, .take hl hs h hafter h₁, h₂⟩
  | takeExit hl hsplit h ho _ =>
    cases r with
    | nil => subst hx; exact empty (.takeExit hl hsplit h ho)
    | cons s r =>
      obtain ⟨rfl, r₀, r₁, rfl, hs, rfl, hr₁⟩ :=
        hr.head_append (by rcases hl with rfl | rfl <;> rfl) hx hsplit
      exact .inl ⟨.takeExit hl hs h ho, ho⟩
  | refuse hl hsplit h ih =>
    cases r with
    | nil => subst hx; exact empty (.refuse hl hsplit h)
    | cons s r =>
      obtain ⟨rfl, r₀, r₁, rfl, hs, rfl, hr₁⟩ :=
        hr.head_append (by rcases hl with rfl | rfl <;> rfl) hx hsplit
      obtain ⟨h, ho⟩ | ⟨t₁, t₂, rfl, h₁, h₂⟩ := ih hr₁ rfl rfl
      · exact .inl ⟨.refuse hl hs h, ho⟩
      · exact .inr ⟨_, t₂, rfl, .refuse hl hs h₁, h₂⟩
  | otherwise hsplit h h' _ ih' =>
    cases r with
    | nil => subst hx; exact empty (.otherwise hsplit h h')
    | cons s r =>
      obtain ⟨rfl, r₀, r₁, rfl, hs, rfl, hr₁⟩ := hr.head_append rfl hx hsplit
      obtain ⟨h', ho⟩ | ⟨t₁, t₂, rfl, h₁, h₂⟩ := ih' hr₁ rfl rfl
      · exact .inl ⟨.otherwise hs h h', ho⟩
      · exact .inr ⟨_, t₂, by simp, .otherwise hs h h₁, h₂⟩
  | otherwiseExit hsplit h ho _ =>
    cases r with
    | nil => subst hx; exact empty (.otherwiseExit hsplit h ho)
    | cons s r =>
      obtain ⟨rfl, r₀, r₁, rfl, hs, rfl, hr₁⟩ := hr.head_append rfl hx hsplit
      exact .inl ⟨.otherwiseExit hs h ho, ho⟩
  | done hsplit h ih =>
    cases r with
    | nil => subst hx; exact empty (.done hsplit h)
    | cons s r =>
      obtain ⟨rfl, r₀, r₁, rfl, hs, rfl, hr₁⟩ := hr.head_append rfl hx hsplit
      obtain ⟨h, ho⟩ | ⟨t₁, t₂, rfl, h₁, h₂⟩ := ih hr₁ rfl rfl
      · exact .inl ⟨.done hs h, ho⟩
      · exact .inr ⟨_, t₂, rfl, .done hs h₁, h₂⟩
  | round hsplit h ho h' _ ih' =>
    cases r with
    | nil => subst hx; exact empty (.round hsplit h ho h')
    | cons s r =>
      have again := ih' hr hx rfl
      obtain ⟨rfl, r₀, r₁, rfl, hs, rfl, hr₁⟩ := hr.head_append rfl hx hsplit
      obtain ⟨h', ho'⟩ | ⟨t₁, t₂, rfl, h₁, h₂⟩ := again
      · exact .inl ⟨.round hs h ho h', ho'⟩
      · exact .inr ⟨_, t₂, by simp, .round hs h ho h₁, h₂⟩
  | broken hsplit h h' _ ih' =>
    cases r with
    | nil => subst hx; exact empty (.broken hsplit h h')
    | cons s r =>
      obtain ⟨rfl, r₀, r₁, rfl, hs, rfl, hr₁⟩ := hr.head_append rfl hx hsplit
      obtain ⟨h', ho⟩ | ⟨t₁, t₂, rfl, h₁, h₂⟩ := ih' hr₁ rfl rfl
      · exact .inl ⟨.broken hs h h', ho⟩
      · exact .inr ⟨_, t₂, by simp, .broken hs h h₁, h₂⟩
  | roundExit hsplit h ho _ =>
    cases r with
    | nil => subst hx; exact empty (.roundExit hsplit h ho)
    | cons s r =>
      obtain ⟨rfl, r₀, r₁, rfl, hs, rfl, hr₁⟩ := hr.head_append rfl hx hsplit
      exact .inl ⟨.roundExit hs h ho, ho.1⟩
  | unmatched hsplit hc h ih =>
    cases r with
    | nil => subst hx; exact empty (.unmatched hsplit hc h)
    | cons s r =>
      obtain ⟨rfl, r₀, r₁, rfl, hs, rfl, hr₁⟩ := hr.head_append rfl hx hsplit
      obtain ⟨h, ho⟩ | ⟨t₁, t₂, rfl, h₁, h₂⟩ := ih hr₁ rfl rfl
      · exact .inl ⟨.unmatched hs hc h, ho⟩
      · exact .inr ⟨_, t₂, rfl, .unmatched hs hc h₁, h₂⟩
  | matched hsplit hl hk' h ho h' _ ih' =>
    cases r with
    | nil => subst hx; exact empty (.matched hsplit hl hk' h ho h')
    | cons s r =>
      obtain ⟨rfl, r₀, r₁, rfl, hs, rfl, hr₁⟩ := hr.head_append rfl hx hsplit
      obtain ⟨h', ho'⟩ | ⟨t₁, t₂, rfl, h₁, h₂⟩ := ih' hr₁ rfl rfl
      · exact .inl ⟨.matched hs hl hk' h ho h', ho'⟩
      · exact .inr ⟨_, t₂, by simp, .matched hs hl hk' h ho h₁, h₂⟩
  | matchedExit hsplit hl hk' h ho _ =>
    cases r with
    | nil => subst hx; exact empty (.matchedExit hsplit hl hk' h ho)
    | cons s r =>
      obtain ⟨rfl, r₀, r₁, rfl, hs, rfl, hr₁⟩ := hr.head_append rfl hx hsplit
      exact .inl ⟨.matchedExit hs hl hk' h ho, ho.1⟩
  | stay => cases hm
  | jump => cases hm

/-! ### Jumps -/

theorem AfterElse.subset {r : List Step} (h : AfterElse r k) : k ⊆ r := by
  induction h with
  | done => exact List.Subset.refl _
  | skip _ hr _ ih =>
    exact fun _ hx => List.mem_cons_of_mem _ (List.mem_cons_of_mem _ ((mem_of_splitBlock hr).2 (ih hx)))

theorem tail_subset_of_mem_points {r : List Step} (h : s :: k ∈ points n r) : k ⊆ r := by
  induction r generalizing n with
  | nil => cases n <;> cases h
  | cons s' r ih =>
    cases n with
    | zero =>
      rw [points] at h
      obtain h | h := List.mem_cons.1 h
      · cases h; exact List.subset_cons_self _ _
      · exact List.subset_cons_of_subset _ (ih h)
    | succ n => exact List.subset_cons_of_subset _ (ih h)

/-- A path that ends with a jump passes one. -/
theorem Path.goto_mem {mode : Option (List Step)} {r : List Step} (h : Path mode r t o) (ho : o = .jumps n) :
    .line (.goto n) ∈ r ++ mode.getD [] := by
  induction h with
  | cut | falls => cases ho
  | pass _ _ ih => exact List.mem_cons_of_mem _ (ih ho)
  | @exit l _ _ hl =>
    subst ho
    cases l <;> first | (cases hl; simp) | cases hl
  | block hr _ _ _ ih | otherwise hr _ _ _ ih | done hr _ ih | broken hr _ _ _ ih
  | refuse _ hr _ ih | unmatched hr _ _ ih | matched hr _ _ _ _ _ _ ih =>
    have := (mem_of_splitBlock hr).2 (by simpa using ih ho)
    simp [this]
  | take _ hr _ hk _ _ ih =>
    have := (mem_of_splitBlock hr).2 (hk.subset (by simpa using ih ho))
    simp [this]
  | blockExit hr _ _ ih | takeExit _ hr _ _ ih | otherwiseExit hr _ _ ih | roundExit hr _ _ ih =>
    have := (mem_of_splitBlock hr).1 (by simpa using ih ho)
    simp [this]
  | round _ _ _ _ _ ih => exact ih ho
  | matchedExit hr _ hk _ _ ih =>
    have hmem := List.mem_append.1 (ih ho)
    have := (mem_of_splitBlock hr).1 (hmem.elim (tail_subset_of_mem_points hk ·) id)
    simp [this]
  | stay _ _ ih =>
    have := ih ho
    simp only [Option.getD_none, List.append_nil] at this
    simp [this]
  | jump _ hn _ _ ih =>
    have := List.mem_append.1 (ih ho)
    exact List.mem_append_right _ (this.elim (tail_subset_of_mem_points hn ·) id)

theorem nil_notMem_points (n : Nat) (r : List Step) : [] ∉ points n r := by
  induction r generalizing n with
  | nil => cases n <;> exact List.not_mem_nil
  | cons s r ih => cases n <;> simp [points, ih]

/-- A point of two pieces is a point of the first or of the second. -/
theorem Nested.mem_points_append (h₁ : Nested L₁) :
    s :: k ∈ points 0 (L₁ ++ L₂) ↔
      (∃ k₁, s :: k₁ ∈ points 0 L₁ ∧ k = k₁ ++ L₂) ∨ s :: k ∈ points 0 L₂ := by
  rw [h₁.points_append, List.mem_append, List.mem_map]
  refine or_congr_left ⟨?_, ?_⟩
  · rintro ⟨x, hx, heq⟩
    cases x with
    | nil => exact absurd hx (nil_notMem_points 0 L₁)
    | cons s₁ x => cases heq; exact ⟨x, hx, rfl⟩
  · rintro ⟨k₁, hk₁, rfl⟩
    exact ⟨s :: k₁, hk₁, rfl⟩

/-- No jump of the first steps goes to a label of the second. -/
def Separate (L₁ L₂ : List Step) : Prop :=
  ∀ n, .line (.goto n) ∈ L₁ → .line (.label n) ∉ L₂

/-- A path that has got to the second piece of a body stays there, if no jump goes back. -/
private theorem Path.run_append_right {r : List Step} (h : Path (some (L₁ ++ L₂)) r t o) (h₁ : Nested L₁)
    (hback : Separate L₂ L₁) (hr : r ⊆ L₂) :
    Path (some L₂) r t o := by
  generalize hm : some (L₁ ++ L₂) = mode at h
  induction h with
  | stay h hn =>
    cases hm
    exact .stay h fun n k ho hk => hn n k ho (h₁.mem_points_append.2 (.inr hk))
  | @jump b r n k t t' o h hn h' _ ih =>
    cases hm
    have hgoto : Step.line (.goto n) ∈ L₂ := hr (by simpa using h.goto_mem rfl)
    obtain ⟨k₁, hk₁, -⟩ | hn := h₁.mem_points_append.1 hn
    · exact absurd (mem_of_mem_points hk₁) (hback n hgoto)
    · exact .jump h hn (ih (tail_subset_of_mem_points hn) rfl)
  | _ => cases hm

/-- How a path goes through the two pieces of a body, if no jump goes back: it stays in the first
piece, or gets to the second at its start or at one of its labels. -/
inductive ThroughBoth (L₁ L₂ r₁ : List Step) (t : List Event) (o : Outcome) : Prop
  | stays (h : Path (some L₁) r₁ t o) (ho : o ≠ .falls)
      (hn : ∀ n k, o = .jumps n → .line (.label n) :: k ∉ points 0 L₂)
  | falls {t₁ t₂} (ht : t = t₁ ++ t₂) (h₁ : Path (some L₁) r₁ t₁ .falls)
      (h₂ : Path (some L₂) L₂ t₂ o)
  | jumps {t₁ t₂ n k} (ht : t = t₁ ++ t₂) (h₁ : Path (some L₁) r₁ t₁ (.jumps n))
      (hn : .line (.label n) :: k ∈ points 0 L₂) (h₂ : Path (some L₂) k t₂ o)

/-- Puts a piece of a path within the first piece of a body in front. -/
private theorem ThroughBoth.jump {r₁ : List Step} {t' : List Event} (h : Path none r₁ t (.jumps n))
    (hn : .line (.label n) :: k ∈ points 0 L₁) (h' : ThroughBoth L₁ L₂ k t' o) : ThroughBoth L₁ L₂ r₁ (t ++ t') o := by
  cases h' with
  | stays h' ho hn' => exact .stays (.jump h hn h') ho hn'
  | falls ht h₁ h₂ => exact .falls (by rw [ht, List.append_assoc]) (.jump h hn h₁) h₂
  | jumps ht h₁ hn₂ h₂ =>
    exact .jumps (by rw [ht, List.append_assoc]) (.jump h hn h₁) hn₂ h₂

/-- A path within a body of two pieces. -/
theorem Path.run_append_cases {r₁ : List Step} (h : Path (some (L₁ ++ L₂)) (r₁ ++ L₂) t o) (h₁ : Nested L₁)
    (hk : ¬ StartsElse L₂) (hback : Separate L₂ L₁) (hlabels : ∀ n, .line (.label n) ∈ L₁ → .line (.label n) ∉ L₂)
    (hr₁ : Nested r₁) :
    ThroughBoth L₁ L₂ r₁ t o := by
  generalize hm : some (L₁ ++ L₂) = mode at h
  generalize hr : r₁ ++ L₂ = r at h
  have noLabel {n : Nat} (h₂ : .line (.label n) ∈ L₂) {k : List Step} :
      .line (.label n) :: k ∉ points 0 L₁ :=
    fun hk' => hlabels n (mem_of_mem_points hk') h₂
  induction h generalizing r₁ with
  | stay h hn =>
    cases hm; subst hr
    obtain ⟨h, ho⟩ | ⟨t₁, t₂, rfl, h₁', h₂⟩ := h.append_cases hr₁ hk
    · refine .stays (.stay h fun n k ho' hk' => ?_) ho fun n k ho' hk' => ?_
      · exact hn n (k ++ L₂) ho' (h₁.mem_points_append.2 (.inl ⟨k, hk', rfl⟩))
      · exact hn n k ho' (h₁.mem_points_append.2 (.inr hk'))
    · refine .falls rfl (.stay h₁' fun n k ho' => Outcome.noConfusion ho') (.stay h₂ ?_)
      exact fun n k ho' hk' => hn n k ho' (h₁.mem_points_append.2 (.inr hk'))
  | @jump b r n k t t' o h hn h' _ ih =>
    cases hm; subst hr
    obtain ⟨h, -⟩ | ⟨t₁, t₂, rfl, h₁', h₂⟩ := h.append_cases hr₁ hk
    · obtain ⟨k₁, hk₁, rfl⟩ | hn := h₁.mem_points_append.1 hn
      · exact (ih (h₁.of_mem_points hk₁ |>.tail_of_isComplete rfl) rfl rfl).jump h hk₁
      · refine .jumps rfl (.stay h fun n' k' ho' => ?_) hn ?_
        · cases ho'
          exact noLabel (mem_of_mem_points hn)
        · exact h'.run_append_right h₁ hback (tail_subset_of_mem_points hn)
    · rw [List.append_assoc]
      refine .falls rfl (.stay h₁' fun n k ho' => Outcome.noConfusion ho') ?_
      have hgoto : Step.line (.goto n) ∈ L₂ := by simpa using h₂.goto_mem rfl
      obtain ⟨k₁, hk₁, -⟩ | hn := h₁.mem_points_append.1 hn
      · exact absurd (mem_of_mem_points hk₁) (hback n hgoto)
      · exact .jump h₂ hn (h'.run_append_right h₁ hback (tail_subset_of_mem_points hn))
  | _ => cases hm

/-! ### Labels and branches -/

/-- Steps have no label outside of their blocks. -/
def NoLabels (L : List Step) : Prop :=
  ∀ n k, .line (.label n) :: k ∉ points 0 L

theorem NoLabels.of_notMem {L : List Step} (h : ∀ n, .line (.label n) ∉ L) : NoLabels L :=
  fun n _ hk => h n (mem_of_mem_points hk)

/-- Where there are no labels, a path takes no jump. -/
theorem NoLabels.path {b r : List Step} (hb : NoLabels b) (h : Path (some b) r t o) : Path none r t o := by
  cases h with
  | stay h _ => exact h
  | jump _ hn _ => exact absurd hn (hb _ _)

/-- Steps that consist of further branches of a conditional. -/
inductive Chain : List Step → Prop
  | nil : Chain []
  | otherwise {A} (hA : Nested A) :
      Chain (.line .otherwise :: .line .openBlock :: (A ++ [.line .closeBlock]))
  | elseIf {e A R} (hA : Nested A) (hR : Chain R) :
      Chain (.line (.elseIf e) :: .line .openBlock :: (A ++ .line .closeBlock :: R))

theorem Chain.afterElse (hR : Chain R) (h : AfterElse R k) : k = [] := by
  induction hR with
  | nil =>
    cases h with
    | done => rfl
  | otherwise hA =>
    cases h with
    | done h => exact absurd rfl h
    | skip _ hsplit h =>
      rw [hA.splitBlock_close] at hsplit
      cases hsplit
      cases h with
      | done => rfl
  | elseIf hA _ ih =>
    cases h with
    | done h => exact absurd rfl h
    | skip _ hsplit h =>
      rw [hA.splitBlock_close] at hsplit
      cases hsplit
      exact ih h

theorem Chain.noLabels (hR : Chain R) : NoLabels R := by
  induction hR with
  | nil => exact fun _ _ hk => by cases hk
  | otherwise hA => 
    intro n k hk
    simp [points, depthAfter, C.Line.depthAfter, hA.points_succ_append] at hk
  | elseIf hA _ ih =>
    intro n k hk
    simp [points, depthAfter, C.Line.depthAfter, hA.points_succ_append] at hk
    exact ih n k hk

theorem Chain.nested (hR : Chain R) : Nested R := by
  induction hR with
  | nil => exact .nil
  | otherwise hA => exact .head rfl (.block hA .nil)
  | elseIf hA _ ih => exact .head rfl (.block hA ih)

end Flow

end CBackend
