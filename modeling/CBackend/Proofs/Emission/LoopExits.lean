import CBackend.Proofs.Bracketing.Frames
import CBackend.Proofs.Emission.Layout

/-!
# Where loop exits go

A `break` or `continue` of the source program stands in the block of an endless loop, with conditionals
and switches between it and the loop, but no other loop. It is written as C's own `break` or `continue`
where these leave or go on with that loop, and otherwise as a jump to a label that stands right after the
block or right before the iteration expression.
-/

namespace CBackend

open IR Flow

/-! ### Open blocks -/

/-- Steps in which blocks are open, with the lines that head them, the innermost first. The block of a
case has no such line. -/
inductive Flow.OpenIn : List C.Line → List Step → Prop
  | nested {P} (h : Nested P) : OpenIn [] P
  | head {hs P l P'} (h : OpenIn hs P) (hl : l.isHead = true) (h' : Nested P') :
      OpenIn (l :: hs) (P ++ .line l :: .line .openBlock :: P')
  | block {hs P P'} (h : OpenIn hs P) (h' : Nested P') : OpenIn hs (P ++ .line .openBlock :: P')

namespace Flow.OpenIn

variable {hs : List C.Line} {P N : List Step} {l : C.Line}

theorem prepend (h : OpenIn hs P) (hN : Nested N) : OpenIn hs (N ++ P) := by
  induction h with
  | nested h => exact .nested (hN.append h)
  | head _ hl h' ih => exact List.append_assoc N _ _ ▸ ih.head hl h'
  | block _ h' ih => exact List.append_assoc N _ _ ▸ ih.block h'

/-- Inside of a further block. -/
theorem underHead (h : OpenIn hs P) (hl : l.isHead = true) :
    OpenIn (hs ++ [l]) (.line l :: .line .openBlock :: P) := by
  induction h with
  | nested h => exact head (P := []) (.nested .nil) hl h
  | head _ hl' h' ih => exact ih.head hl' h'
  | block _ h' ih => exact ih.block h'

theorem underBlock (h : OpenIn hs P) : OpenIn hs (.line .openBlock :: P) := by
  induction h with
  | nested h => exact block (P := []) (.nested .nil) h
  | head _ hl' h' ih => exact ih.head hl' h'
  | block _ h' ih => exact ih.block h'

end Flow.OpenIn

/-! ### Exits -/

namespace Emission

/-- Where the line of an exit takes control, given the body of the loop, what follows the loop, and the
heads of the blocks around the exit inside the loop. Behind the loop there is the label to which a `break`
jumps out of a switch, and the label to which a `continue` jumps stands before the iteration expression. -/
inductive GoesTo (B R : List Step) (hs : List C.Line) : LoopExit → C.Line → Prop
  | breakOut (hno : ∀ e, .switchOn e ∉ hs) : GoesTo B R hs .out .breakOut
  | breakTo {n e R'} (hswitch : .switchOn e ∈ hs) (hR : R = .line (.label n) :: R') :
      GoesTo B R hs .out (.goto n)
  | continueLoop (hno : ∀ I, .note .iterates :: I ∉ points 0 B) : GoesTo B R hs .next .continueLoop
  | continueAt {n X I} (hB : B = X ++ .line (.label n) :: .note .iterates :: I) (hX : Nested X)
      (hI : Nested I) : GoesTo B R hs .next (.goto n)

/-- An exit between two lists of steps leaves or goes on with the innermost loop around it. No other loop
is open between the start of that loop and the exit. -/
def Lands (P : List Step) (exit : LoopExit) (Q : List Step) : Prop :=
  ∃ P₀ P₁ hs l Q₁ R, P = P₀ ++ .line (.whileLoop (.nat 1)) :: .line .openBlock :: P₁ ∧
    OpenIn hs P₁ ∧ (∀ e, .whileLoop e ∉ hs) ∧ Q = .line l :: (Q₁ ++ .line .closeBlock :: R) ∧
    Nested (P₁ ++ .note (.exitsLoop exit) :: .line l :: Q₁) ∧
    GoesTo (P₁ ++ .note (.exitsLoop exit) :: .line l :: Q₁) R hs exit l

/-- The line of an exit for the innermost loop around a piece, given the state of that loop before and
after the piece. -/
inductive Aims (s s' : LoopState) (hs : List C.Line) : LoopExit → C.Line → Prop
  | breakOut (h : s.inSwitch = false) (hno : ∀ e, .switchOn e ∉ hs) : Aims s s' hs .out .breakOut
  | breakTo {n} (h : s.inSwitch = true ∨ ∃ e, .switchOn e ∈ hs) (hn : s'.breakLabel = some n) :
      Aims s s' hs .out (.goto n)
  | continueLoop (h : s.continueNeedsLabel = false) : Aims s s' hs .next .continueLoop
  | continueAt {n} (h : s.continueNeedsLabel = true) (hn : s'.continueLabel = some n) :
      Aims s s' hs .next (.goto n)

/-- An exit between two lists of steps is one for the innermost loop around. -/
def Leads (s s' : LoopState) (P : List Step) (exit : LoopExit) (Q : List Step) : Prop :=
  ∃ hs l Q', OpenIn hs P ∧ (∀ e, .whileLoop e ∉ hs) ∧ Q = .line l :: Q' ∧ Aims s s' hs exit l

/-- Every exit lands in a loop of these steps or, if there may be such exits, is one for the innermost
loop around. -/
def ExitsLand (jumps : Bool) (s s' : LoopState) (L : List Step) : Prop :=
  ∀ P exit Q, L = P ++ .note (.exitsLoop exit) :: Q →
    Lands P exit Q ∨ jumps = true ∧ Leads s s' P exit Q

variable {P Q N L L₁ L₂ : List Step} {exit : LoopExit} {s s' s₁ s₂ : LoopState} {hs : List C.Line}
  {l : C.Line} {j : Bool} {b : Bool} {e : C.Expr} {A : List Step} {p : Pending}

theorem Lands.append (h : Lands P exit Q) : Lands P exit (Q ++ N) := by
  obtain ⟨P₀, P₁, hs, l, Q₁, R, hP, hopen, hno, rfl, hnested, hgoes⟩ := h
  refine ⟨P₀, P₁, hs, l, Q₁, R ++ N, hP, hopen, hno, by simp, hnested, ?_⟩
  cases hgoes with
  | breakOut hno => exact .breakOut hno
  | @breakTo n e R' hswitch hR => exact .breakTo hswitch (by rw [hR]; rfl)
  | continueLoop hno => exact .continueLoop hno
  | continueAt hB hX hI => exact .continueAt hB hX hI

theorem Lands.prepend (h : Lands P exit Q) : Lands (N ++ P) exit Q := by
  obtain ⟨P₀, P₁, hs, l, Q₁, R, rfl, h⟩ := h
  exact ⟨N ++ P₀, P₁, hs, l, Q₁, R, by simp, h⟩

theorem Aims.extend (h : Aims s s₁ hs exit l) (hs₂ : s₁.Extends s₂) : Aims s s₂ hs exit l := by
  cases h with
  | breakOut h hno => exact .breakOut h hno
  | breakTo h hn => exact .breakTo h (hs₂.breakLabel _ hn)
  | continueLoop h => exact .continueLoop h
  | continueAt h hn => exact .continueAt h (hs₂.continueLabel _ hn)

theorem Aims.precede (h : Aims s₁ s₂ hs exit l) (hs₁ : s.Extends s₁) : Aims s s₂ hs exit l := by
  cases h with
  | breakOut h hno => exact .breakOut (hs₁.inSwitch.symm.trans h) hno
  | breakTo h hn => exact .breakTo (h.imp_left hs₁.inSwitch.symm.trans) hn
  | continueLoop h => exact .continueLoop (hs₁.continueNeedsLabel.symm.trans h)
  | continueAt h hn => exact .continueAt (hs₁.continueNeedsLabel.symm.trans h) hn

/-- An exit inside of the block of a conditional. -/
theorem Aims.underHead (h : Aims s s' hs exit l) {l' : C.Line} (hl' : ∀ e, l' ≠ .switchOn e) :
    Aims s s' (hs ++ [l']) exit l := by
  cases h with
  | breakOut h hno =>
    refine .breakOut h fun e hmem => ?_
    obtain hmem | hmem := List.mem_append.1 hmem
    · exact hno e hmem
    · exact hl' e (List.mem_singleton.1 hmem).symm
  | breakTo h hn =>
    exact .breakTo (h.imp_right fun ⟨e, he⟩ => ⟨e, List.mem_append_left _ he⟩) hn
  | continueLoop h => exact .continueLoop h
  | continueAt h hn => exact .continueAt h hn

/-- An exit inside of the block of a switch. -/
theorem Aims.underSwitch (h : Aims { s with inSwitch := true } s' hs exit l) :
    Aims s { s' with inSwitch := b } (hs ++ [.switchOn e]) exit l := by
  cases h with
  | breakOut h => cases h
  | breakTo _ hn => exact .breakTo (.inr ⟨e, by simp⟩) hn
  | continueLoop h => exact .continueLoop h
  | continueAt h hn => exact .continueAt h hn

namespace ExitsLand

theorem of_notMem (h : ∀ exit, .note (.exitsLoop exit) ∉ L) : ExitsLand j s s' L := by
  rintro P exit Q rfl
  exact absurd (by simp) (h exit)

/-- Where no exits are for the loop around, its state does not matter. -/
theorem of_false (h : ExitsLand false s s' L) : ExitsLand j s₁ s₂ L := by
  intro P exit Q hL
  obtain h | ⟨⟨⟩, -⟩ := h P exit Q hL
  exact .inl h

theorem append (hL : Nested L₁) (h₁ : ExitsLand j s s₁ L₁) (h₂ : ExitsLand j s₁ s₂ L₂)
    (hs₁ : s.Extends s₁) (hs₂ : s₁.Extends s₂) : ExitsLand j s s₂ (L₁ ++ L₂) := by
  intro P exit Q heq
  obtain ⟨Q', rfl, rfl⟩ | ⟨P', rfl, rfl⟩ := append_eq_append_cons heq
  · obtain h | ⟨hj, hs, l, Q'', hopen, hno, rfl, haims⟩ := h₁ P exit Q' rfl
    · exact .inl h.append
    · exact .inr ⟨hj, hs, l, Q'' ++ L₂, hopen, hno, rfl, haims.extend hs₂⟩
  · obtain h | ⟨hj, hs, l, Q', hopen, hno, rfl, haims⟩ := h₂ P' exit Q rfl
    · exact .inl h.prepend
    · exact .inr ⟨hj, hs, l, Q', hopen.prepend hL, hno, rfl, haims.precede hs₁⟩

theorem append_of_false (h₁ : ExitsLand false s s' L₁) (h₂ : ExitsLand false s s' L₂) :
    ExitsLand false s s' (L₁ ++ L₂) := by
  intro P exit Q heq
  obtain ⟨Q', rfl, rfl⟩ | ⟨P', rfl, rfl⟩ := append_eq_append_cons heq
  · exact (h₁ P exit Q' rfl).imp .append nofun
  · exact (h₂ P' exit Q rfl).imp .prepend nofun

/-- Exits inside of a block. -/
theorem wrap {F : List Step} {t t' : LoopState} (hF : ∀ exit, .note (.exitsLoop exit) ∉ F) (h : ExitsLand j s s' A)
    (hleads : j = true → ∀ P exit Q, Leads s s' P exit Q →
      Leads t t' (F ++ P) exit (Q ++ [.line .closeBlock])) :
    ExitsLand j t t' (F ++ (A ++ [.line .closeBlock])) := by
  intro P exit Q hL
  obtain ⟨Q', rfl, -⟩ | ⟨P, rfl, hA⟩ := append_eq_append_cons hL
  · exact absurd (by simp) (hF exit)
  · obtain ⟨Q', rfl, rfl⟩ | ⟨P', -, heq⟩ := append_eq_append_cons hA
    · exact (h P exit Q' rfl).imp (fun h => h.prepend.append) fun h => ⟨h.1, hleads h.1 P exit Q' h.2⟩
    · have hmem : .note (.exitsLoop exit) ∈ [Step.line .closeBlock] := by simp [heq]
      simp at hmem

theorem underHead (hl : l.isHead = true) (hswitch : ∀ e, l ≠ .switchOn e) (hwhile : ∀ e, l ≠ .whileLoop e)
    (h : ExitsLand j s s' A) :
    ExitsLand j s s' (.line l :: .line .openBlock :: (A ++ [.line .closeBlock])) := by
  refine wrap (F := [.line l, .line .openBlock]) (by simp) h ?_
  rintro - P exit _ ⟨hs, l', Q', hopen, hno, rfl, haims⟩
  refine ⟨hs ++ [l], l', _, hopen.underHead hl, fun e hmem => ?_, rfl, haims.underHead hswitch⟩
  obtain hmem | hmem := List.mem_append.1 hmem
  · exact hno e hmem
  · exact hwhile e (List.mem_singleton.1 hmem).symm

theorem underBlock (h : ExitsLand j s s' A) :
    ExitsLand j s s' (.line .openBlock :: (A ++ [.line .closeBlock])) := by
  refine wrap (F := [.line .openBlock]) (by simp) h ?_
  rintro - P exit _ ⟨hs, l', Q', hopen, hno, rfl, haims⟩
  exact ⟨hs, l', _, hopen.underBlock, hno, rfl, haims⟩

theorem underSwitch {K : List Step} (h : ExitsLand j { s with inSwitch := true } s' K) :
    ExitsLand j s { s' with inSwitch := b }
      (.line (.switchOn e) :: .line .openBlock :: (K ++ [.line .closeBlock])) := by
  refine wrap (F := [.line (.switchOn e), .line .openBlock]) (by simp) h ?_
  rintro - P exit _ ⟨hs, l', Q', hopen, hno, rfl, haims⟩
  exact ⟨hs ++ [.switchOn e], l', _, hopen.underHead rfl, by simpa using hno, rfl, haims.underSwitch⟩

/-- A branch of a conditional with the further ones. -/
theorem branch {R : List Step} (hA : Nested A) (hl : l.isHead = true) (hswitch : ∀ e, l ≠ .switchOn e)
    (hwhile : ∀ e, l ≠ .whileLoop e) (h : ExitsLand j s s₁ A) (h' : ExitsLand j s₁ s₂ R) (hs₁ : s.Extends s₁)
    (hs₂ : s₁.Extends s₂) :
    ExitsLand j s s₂ (.line l :: .line .openBlock :: (A ++ .line .closeBlock :: R)) := by
  have happend := append (.head hl (.block hA .nil)) (underHead hl hswitch hwhile h) h' hs₁ hs₂
  simpa using happend

/-- A case with the further ones. -/
theorem case {K : List Step} (hA : Nested A) (h : ExitsLand j s s₁ A) (h' : ExitsLand j s₁ s₂ K) (hs₁ : s.Extends s₁)
    (hs₂ : s₁.Extends s₂) :
    ExitsLand j s s₂ (.line .openBlock :: (A ++ .line .closeBlock :: K)) := by
  have happend := append (.block hA .nil) (underBlock h) h' hs₁ hs₂
  simpa using happend

theorem guardSteps (h : ExitsLand j s s' A) :
    ExitsLand j s s' (Emission.guardSteps p A) := by
  rw [Emission.guardSteps]
  split
  · exact underHead rfl (by simp) (by simp) h
  · exact h

/-- The way out of a case is no exit. -/
theorem caseEnd (hA : Nested A) (h : ExitsLand j s s' A) (hs' : s.Extends s') :
    ExitsLand j s s' (A ++ Emission.caseEnd b) :=
  append hA h (of_notMem (by cases b <;> simp [Emission.caseEnd])) hs' (.refl _)

/-- The code of a cleanup without exits for the loop around. -/
theorem action (h : ExitsLand false s s' A) : ExitsLand j s₁ s₂
    (.note (.starts p) :: (Emission.guardSteps p A ++ clearSteps p ++ [.note (.finishes p)])) := by
  have hclear : ExitsLand false s s' (clearSteps p) := .of_notMem (by rw [clearSteps]; split <;> simp)
  have hcode := append_of_false (append_of_false (h.guardSteps (p := p)) hclear)
    (.of_notMem (L := [.note (.finishes p)]) (by simp))
  exact of_false (append_of_false (.of_notMem (L := [.note (.starts p)]) (by simp)) hcode)

theorem underWhile (h : ExitsLand false s s' A) :
    ExitsLand j s₁ s₂ (.line (.whileLoop e) :: .line .openBlock :: (A ++ [.line .closeBlock])) :=
  of_false
    (wrap (F := [.line (.whileLoop e), .line .openBlock]) (by simp) h nofun : ExitsLand false s s' _)

end ExitsLand

section

variable {base : Nat} {iterates : Bool} {label : Option Nat} {X I : List Step}

/-- Where an exit in the body of a loop goes. -/
theorem Aims.goesTo {B : List Step} (h : Aims { cleanupBase := base, continueNeedsLabel := iterates } s₁ hs exit l)
    (hX : Nested X) (hI : Nested I) (hnone : iterates = false → I = [] ∧ label = none)
    (htop : ∀ r, .note .iterates :: r ∉ points 0 X) (hlabel : s₁.continueLabel = label)
    (hs₂ : s₁.Extends s₂) (hB : B = X ++ (labelSteps label ++ iterationSteps iterates I)) :
    GoesTo B (labelSteps s₂.breakLabel ++ [.note .leavesLoop]) hs exit l := by
  cases h with
  | breakOut _ hno => exact .breakOut hno
  | @breakTo n h hn =>
    obtain ⟨e, he⟩ := h.resolve_left Bool.false_ne_true
    have hR : labelSteps s₂.breakLabel ++ [.note .leavesLoop] = .line (.label n) :: [.note .leavesLoop] := by
      rw [hs₂.breakLabel n hn]
      rfl
    exact .breakTo he hR
  | continueLoop h =>
    obtain ⟨rfl, rfl⟩ := hnone h
    refine .continueLoop ?_
    rw [hB, show iterates = false from h]
    simpa [labelSteps, iterationSteps] using htop
  | @continueAt n h hn =>
    refine .continueAt (X := X) (I := I) ?_ hX hI
    rw [hB, ← hlabel, hn, show iterates = true from h]
    rfl

/-- The exits of a loop land in it. -/
theorem ExitsLand.loop (hX : Nested X) (hI : Nested I) (hnone : iterates = false → I = [] ∧ label = none)
    (htop : ∀ r, .note .iterates :: r ∉ points 0 X)
    (hbody : ExitsLand true { cleanupBase := base, continueNeedsLabel := iterates } s₁ X)
    (hiteration : ExitsLand false s s' I) (hlabel : s₁.continueLabel = label) (hs₂ : s₁.Extends s₂)
    {t t' : LoopState} :
    ExitsLand j t t' (.note .entersLoop :: .line (.whileLoop (.nat 1)) :: .line .openBlock ::
      (X ++ labelSteps label ++ iterationSteps iterates I ++
        .line .closeBlock :: (labelSteps s₂.breakLabel ++ [.note .leavesLoop]))) := by
  have hiterates : ExitsLand false s s' (iterationSteps iterates I) := by
    cases iterates
    · exact hiteration
    · have hnote : ExitsLand false s s' [.note .iterates] := of_notMem (by simp)
      exact hnote.append_of_false hiteration
  have hrest : ExitsLand false s s' (labelSteps label ++ iterationSteps iterates I ++
      .line .closeBlock :: (labelSteps s₂.breakLabel ++ [.note .leavesLoop])) :=
    append_of_false (append_of_false (of_notMem (by simp [labelSteps])) hiterates)
      (of_notMem (by simp [labelSteps]))
  intro P exit Q hL
  rw [List.append_assoc X, List.append_assoc X] at hL
  obtain ⟨Q', hfront, -⟩ | ⟨P, rfl, hX₁⟩ := append_eq_append_cons
    (L := [Step.note .entersLoop, .line (.whileLoop (.nat 1)), .line .openBlock]) hL
  · have hmem : .note (.exitsLoop exit) ∈
        [Step.note .entersLoop, .line (.whileLoop (.nat 1)), .line .openBlock] := by simp [hfront]
    simp at hmem
  · obtain ⟨Q', hX', rfl⟩ | ⟨P', rfl, hrest'⟩ := append_eq_append_cons hX₁
    · obtain h | ⟨-, hs, l, Q'', hopen, hno, rfl, haims⟩ := hbody P exit Q' hX'
      · exact .inl h.prepend.append
      · have hB : P ++ .note (.exitsLoop exit) :: .line l ::
            (Q'' ++ (labelSteps label ++ iterationSteps iterates I)) =
              X ++ (labelSteps label ++ iterationSteps iterates I) := by simp [hX']
        refine .inl ⟨[.note .entersLoop], P, hs, l, _, _, by simp, hopen, hno, by simp, ?_,
          haims.goesTo hX hI hnone htop hlabel hs₂ hB⟩
        rw [hB]
        exact hX.append ((nested_labelSteps _).append (nested_iterationSteps _ hI))
    · obtain h | ⟨⟨⟩, -⟩ := hrest P' exit Q hrest'
      exact .inl (h.prepend.prepend)

end

/-! ### Iteration expressions -/

/-- No iteration expression begins outside of inner blocks. -/
def NoIteration (L : List Step) : Prop :=
  ∀ r, .note .iterates :: r ∉ points 0 L

namespace NoIteration

theorem of_notMem (h : .note .iterates ∉ L) : NoIteration L :=
  fun _ hr => h (mem_of_mem_points hr)

theorem append (hL : Nested L₁) (h₁ : NoIteration L₁) (h₂ : NoIteration L₂) : NoIteration (L₁ ++ L₂) := by
  intro r hr
  obtain ⟨k, hk, -⟩ | hr := hL.mem_points_append.1 hr
  · exact h₁ k hk
  · exact h₂ r hr

theorem block (hL : Nested L) (h : NoIteration L₁) :
    NoIteration (.line .openBlock :: (L ++ .line .closeBlock :: L₁)) := by
  intro r hr
  simp only [points, depthAfter, C.Line.depthAfter, Nat.zero_add, hL.points_succ_append, Nat.add_one_sub_one,
    List.mem_cons, List.cons.injEq, reduceCtorEq, false_and, false_or] at hr
  exact h r hr

theorem head (hl : l.isHead = true) (h : NoIteration L) : NoIteration (.line l :: L) := by
  intro r hr
  rw [points, depthAfter_of_isHead hl] at hr
  obtain hr | hr := List.mem_cons.1 hr
  · cases hr
  · exact h r hr

theorem cons {st : Step} (hst : st.isComplete = true) (hno : st ≠ .note .iterates) (h : NoIteration L) :
    NoIteration (st :: L) := by
  have hone : NoIteration [st] := of_notMem (by simpa using hno.symm)
  exact hone.append (.step hst .nil) h

theorem guardSteps (hL : Nested L) (h : NoIteration L) :
    NoIteration (Emission.guardSteps p L) := by
  rw [Emission.guardSteps]
  split
  · exact .head rfl (.block hL (.of_notMem (by simp)))
  · exact h

theorem clearSteps : NoIteration (Emission.clearSteps p) := by
  rw [Emission.clearSteps]
  split <;> exact .of_notMem (by simp)

end NoIteration

variable {strict : Bool} {m : Module} {γ : Exits} {sh : Shape} {c c' : Control}

/-- The iteration expressions of a piece are in the blocks of their loops. -/
theorem Emits.noIteration (h : Emits strict m γ sh c L c') : NoIteration L := by
  induction h with
  | nil | number | cleanupsNil | evaluates | evaluatesWaiting | waits | declares | declaresFlag
  | declaresWaiting | skips | leaves | chainNil | casesNil | line | stops => exact .of_notMem (by simp)
  | append h _ ih ih' | closes h _ _ ih ih' | cleanupsCons h _ ih ih' => exact ih.append h.laid.1 ih'
  | revive _ ih | abandons _ _ ih => exact ih
  | ends h _ ih | returns _ h ih | exits _ h _ ih => exact ih.append h.laid.1 (.of_notMem (by simp))
  | action hA _ _ _ ih =>
    refine .cons rfl (by simp) ?_
    refine .append ((nested_guardSteps _ hA.laid.1).append (nested_clearSteps _)) ?_ (.of_notMem (by simp))
    exact .append (nested_guardSteps _ hA.laid.1) (ih.guardSteps hA.laid.1) .clearSteps
  | ifThen _ hA _ _ ih ih' | elseIf _ hA _ _ ih ih' => exact .head rfl (.block hA.laid.1 ih')
  | otherwise hA _ ih | elementLoop _ hA _ ih => exact .head rfl (.block hA.laid.1 (.of_notMem (by simp)))
  | switch _ hK ih => exact .head rfl (.block hK.laid.1 (.of_notMem (by simp)))
  | caseBlock _ hA _ _ ih ih' =>
    refine .append (nested_caseLabels _) (.of_notMem (by simp)) (.block ?_ ih')
    exact hA.laid.1.append (nested_caseEnd _)
  | defaultBlock hA _ ih =>
    refine .cons rfl (by simp) (.block ?_ (.of_notMem (by simp)))
    exact hA.laid.1.append (nested_caseEnd _)
  | loop hX _ _ hI _ _ ih ih' =>
    refine .cons rfl (by simp) (.head rfl (.block ?_ (.of_notMem (by simp [labelSteps]))))
    exact (hX.laid.1.append (nested_labelSteps _)).append (nested_iterationSteps _ hI.laid.1)

/-! ### Exits of pieces -/

theorem LabelGrown.eq_some {c c' : Names} {label label' : Option Nat} (h : LabelGrown c c' label label')
    {n : Nat} (hn : label = some n) : label' = some n := by
  obtain h | ⟨h, -⟩ := h
  · exact h.trans hn
  · cases hn.symm.trans h

theorem Grown.extends (h : Grown c.names c'.names) : c.loop.Extends c'.loop where
  cleanupBase := h.cleanupBase
  inSwitch := h.inSwitch
  continueNeedsLabel := h.needsLabel
  breakLabel _ := h.breakLabel.eq_some
  continueLabel _ := h.continueLabel.eq_some

/-- Pieces leave the innermost loop around as it is, except that it may be given labels. -/
theorem Emits.extends (h : Emits strict m γ sh c L c') : c.loop.Extends c'.loop :=
  h.grown.extends

/-- The line of an exit is one for the innermost loop. -/
theorem Leaves.exitsLand (h : Leaves exit c l c') :
    ExitsLand true c.loop c'.loop [.note (.exitsLoop exit), .line l, .note .ends] := by
  have haims : Aims c.loop c'.loop [] exit l := by
    cases h with
    | breakOut h => exact .breakOut h (by simp)
    | breakTo hs h => exact .breakTo (.inl hs) h
    | breakToNew hs => exact .breakTo (.inl hs) rfl
    | continueLoop h => exact .continueLoop h
    | continueAt hi h => exact .continueAt hi h
    | continueAtNew hi => exact .continueAt hi rfl
  intro P exit' Q heq
  cases P with
  | nil =>
    cases heq
    exact .inr ⟨rfl, [], l, [.note .ends], .nested .nil, by simp, rfl, haims⟩
  | cons s P =>
    have hmem : .note (.exitsLoop exit') ∈ [Step.line l, .note .ends] := by
      rw [(List.cons.inj heq).2]
      simp
    simp at hmem

/-- A piece without exits for the innermost loop around leaves it as it is. -/
theorem Emits.loop_eq (h : Emits strict m γ sh c L c') (hγ : γ.jumps = false) : c'.loop = c.loop := by
  have hinner {γ : Exits} (hγ : γ.jumps = false) : (γ.inElements strict).jumps = false := by
    simp [Exits.inElements, hγ]
  induction h with
  | nil | number | cleanupsNil | evaluates | evaluatesWaiting | waits | declares | declaresFlag
  | declaresWaiting | skips | chainNil | casesNil | line | stops | loop => rfl
  | append _ _ ih ih' | closes _ _ _ ih ih' | cleanupsCons _ _ ih ih' | ifThen _ _ _ _ ih ih'
  | elseIf _ _ _ _ ih ih' | caseBlock _ _ _ _ ih ih' => exact (ih' hγ).trans (ih hγ)
  | ends _ _ ih | revive _ ih | abandons _ _ ih | returns _ _ ih | otherwise _ _ ih
  | defaultBlock _ _ ih => exact ih hγ
  | exits hj | leaves hj => cases hγ.symm.trans hj
  | action _ _ _ _ ih => exact ih (hinner hγ)
  | elementLoop _ _ _ ih => exact ih (hinner hγ)
  | @switch _ c c₁ _ _ _ _ ih =>
    change { c₁.loop with inSwitch := c.loop.inSwitch } = c.loop
    rw [ih hγ]
    rfl

/-- The exits of a piece land, or are for the innermost loop around. -/
theorem Emits.exitsLand (h : Emits strict m γ sh c L c') (hγ : γ.confined = true) :
    ExitsLand γ.jumps c.loop c'.loop L := by
  have hinner {γ : Exits} (hγ : γ.confined = true) : (γ.inElements strict).jumps = false := by
    simp [Exits.inElements, hγ]
  have hiterates {γ : Exits} (hγ : γ.confined = true) : γ.inIteration.jumps = false := by
    simp [Exits.inIteration, hγ]
  induction h with
  | nil | number | cleanupsNil | evaluates | evaluatesWaiting | waits | declares | declaresFlag
  | declaresWaiting | skips | leaves | chainNil | casesNil | line | stops => exact .of_notMem (by simp)
  | append h h' ih ih' | closes h _ h' ih ih' | cleanupsCons h h' ih ih' =>
    exact .append h.laid.1 (ih hγ) (ih' hγ) h.extends h'.extends
  | revive _ ih | abandons _ _ ih => exact ih hγ
  | ends h _ ih | returns _ h ih => exact .append h.laid.1 (ih hγ) (.of_notMem (by simp)) h.extends (.refl _)
  | exits hj h hl ih =>
    exact .append h.laid.1 (ih hγ) (hj ▸ hl.exitsLand) h.extends hl.grown.extends
  | action _ _ _ _ ih =>
    have hA := hinner hγ ▸ ih hγ
    exact hA.action
  | ifThen _ hA _ hR ih ih' | elseIf _ hA _ hR ih ih' =>
    exact .branch hA.laid.1 rfl (by simp) (by simp) (ih hγ) (ih' hγ) hA.extends hR.extends
  | otherwise _ _ ih => exact .underHead rfl (by simp) (by simp) (ih hγ)
  | elementLoop _ _ _ ih =>
    have hA := hinner hγ ▸ ih hγ
    exact hA.underWhile
  | switch _ _ ih => exact .underSwitch (ih hγ)
  | caseBlock _ hA _ hK ih ih' =>
    refine .append (nested_caseLabels _) (.of_notMem (by simp)) ?_ (.refl _) (hA.extends.trans hK.extends)
    exact .case (hA.laid.1.append (nested_caseEnd _)) ((ih hγ).caseEnd hA.laid.1 hA.extends) (ih' hγ) hA.extends
      hK.extends
  | defaultBlock hA _ ih =>
    have hlabel {j : Bool} {s : LoopState} : ExitsLand j s s [.line .defaultLabel] :=
      .of_notMem (by simp)
    refine hlabel.append (.step rfl .nil) ?_ (.refl _) hA.extends
    exact .underBlock ((ih hγ).caseEnd hA.laid.1 hA.extends)
  | @loop _ c c₁ c₂ iterates label X I hX _ hlabel hI _ hnone ih ih' =>
    have hiteration := hiterates hγ ▸ ih' hγ
    refine .loop hX.laid.1 hI.laid.1 (fun h => ⟨hnone h, ?_⟩) hX.noIteration (ih hγ) hiteration hlabel ?_
    · rw [← hlabel]
      exact hX.grown.unneeded h
    · have hextends := hI.extends
      cases label <;> exact hextends

/-! ### Labels -/

variable {n : Nat}

/-- A label that the innermost loop around is given by a piece is the target of a jump in the piece. -/
theorem Emits.goto_of_hasLabel (h : Emits strict m γ sh c L c') (hn : c'.names.HasLabel n) :
    c.names.HasLabel n ∨ .line (.goto n) ∈ L := by
  induction h with
  | nil | number | cleanupsNil | evaluates | evaluatesWaiting | waits | declares | declaresFlag
  | declaresWaiting | skips | leaves | chainNil | casesNil | line | stops | loop => exact .inl hn
  | append _ _ ih ih' | closes _ _ _ ih ih' | cleanupsCons _ _ ih ih' | ifThen _ _ _ _ ih ih'
  | elseIf _ _ _ _ ih ih' | caseBlock _ _ _ _ ih ih' =>
    obtain hn | hgoto := ih' hn
    · exact (ih hn).imp_right (by simp +contextual)
    · exact .inr (by simp [hgoto])
  | revive _ ih | abandons _ _ ih => exact ih hn
  | ends _ _ ih | returns _ _ ih | otherwise _ _ ih | defaultBlock _ _ ih | switch _ _ ih
  | elementLoop _ _ _ ih | action _ _ _ _ ih => exact (ih hn).imp_right (by simp +contextual)
  | exits _ _ hl ih =>
    cases hl with
    | breakOut | breakTo | continueLoop | continueAt => exact (ih hn).imp_right (by simp +contextual)
    | breakToNew _ _ =>
      obtain hn | hn := hn
      · cases hn
        exact .inr (by simp)
      · exact (ih (.inr hn)).imp_right (by simp +contextual)
    | continueAtNew _ _ =>
      obtain hn | hn := hn
      · exact (ih (.inl hn)).imp_right (by simp +contextual)
      · cases hn
        exact .inr (by simp)

/-- A label of a piece is the target of a jump in the piece. -/
theorem Emits.goto_of_label (h : Emits strict m γ sh c L c') (hn : .line (.label n) ∈ L) :
    .line (.goto n) ∈ L := by
  induction h with
  | nil | number | cleanupsNil | chainNil | casesNil => cases hn
  | @line _ _ l hl =>
    cases List.mem_singleton.1 hn
    cases hl
  | @stops _ _ l hl =>
    simp only [List.mem_cons, Step.line.injEq, reduceCtorEq, List.not_mem_nil, or_false] at hn
    subst hn
    cases hl
  | evaluates | evaluatesWaiting | waits | declares | declaresFlag | declaresWaiting | skips
  | leaves => simp at hn
  | append _ _ ih ih' | closes _ _ _ ih ih' | cleanupsCons _ _ ih ih' =>
    exact List.mem_append.2 ((List.mem_append.1 hn).imp ih ih')
  | revive _ ih | abandons _ _ ih => exact ih hn
  | ends _ _ ih | returns _ _ ih | otherwise _ _ ih | defaultBlock _ _ ih | switch _ _ ih
  | elementLoop _ _ _ ih | action _ _ _ _ ih => simpa using ih (by simpa using hn)
  | exits _ _ hl ih =>
    simp only [List.mem_append, List.mem_cons, Step.line.injEq, reduceCtorEq, List.not_mem_nil,
      or_false, false_or] at hn ⊢
    obtain hn | rfl := hn
    · exact .inl (ih hn)
    · exact hl.not_label.elim
  | ifThen _ _ _ _ ih ih' | elseIf _ _ _ _ ih ih' =>
    simp only [List.mem_cons, List.mem_append, Step.line.injEq, reduceCtorEq, false_or] at hn ⊢
    exact hn.imp ih ih'
  | caseBlock _ _ _ _ ih ih' =>
    simp only [List.mem_append, List.mem_map, List.mem_cons, Step.line.injEq, reduceCtorEq, and_false,
      exists_false, false_or, label_notMem_caseEnd, goto_notMem_caseEnd, or_false] at hn ⊢
    exact hn.imp ih ih'
  | @loop _ c c₁ c₂ iterates label X I hX _ hlabel hI _ _ ih ih' =>
    simp only [List.mem_append, List.mem_cons, Step.line.injEq, reduceCtorEq, false_or, or_false,
      label_mem_labelSteps, goto_notMem_labelSteps, line_mem_iterationSteps, List.not_mem_nil] at hn ⊢
    -- the loop starts without labels
    have hnew (hl : c₁.names.HasLabel n) : .line (.goto n) ∈ X :=
      (hX.goto_of_hasLabel hl).resolve_left (by rintro (hl | hl) <;> cases hl)
    obtain ((hn | hn) | hn) | hn := hn
    · exact .inl (ih hn)
    · exact .inl (hnew (.inr (hlabel.trans hn)))
    · exact .inr (ih' hn)
    · refine (hI.goto_of_hasLabel (.inl hn)).imp_left fun hl => hnew ?_
      cases label <;> exact hl

/-- A jump of a piece has its label in the piece, or goes to a label of the innermost loop around. -/
theorem Emits.label_of_goto (h : Emits strict m γ sh c L c') (hγ : γ.confined = true)
    (hn : .line (.goto n) ∈ L) : .line (.label n) ∈ L ∨ c'.names.HasLabel n := by
  induction h with
  | nil | number | cleanupsNil | chainNil | casesNil => cases hn
  | @line _ _ l hl =>
    cases List.mem_singleton.1 hn
    cases hl
  | @stops _ _ l hl =>
    simp only [List.mem_cons, Step.line.injEq, reduceCtorEq, List.not_mem_nil, or_false] at hn
    subst hn
    cases hl
  | evaluates | evaluatesWaiting | waits | declares | declaresFlag | declaresWaiting | skips
  | leaves => simp at hn
  | append _ h' ih ih' | closes _ _ h' ih ih' | cleanupsCons _ h' ih ih' =>
    obtain hn | hn := List.mem_append.1 hn
    · exact (ih hγ hn).imp (List.mem_append_left _) h'.grown.hasLabel
    · exact (ih' hγ hn).imp_left (List.mem_append_right _)
  | revive _ ih | abandons _ _ ih => exact ih hγ hn
  | ends _ _ ih | returns _ _ ih | otherwise _ _ ih | defaultBlock _ _ ih | switch _ _ ih
  | elementLoop _ _ _ ih | action _ _ _ _ ih =>
    exact (ih hγ (by simpa using hn)).imp_left (by simp +contextual)
  | exits _ _ hl ih =>
    simp only [List.mem_append, List.mem_cons, Step.line.injEq, reduceCtorEq, List.not_mem_nil,
      or_false, false_or] at hn ⊢
    obtain hn | rfl := hn
    · exact (ih hγ hn).imp .inl hl.grown.hasLabel
    · exact .inr hl.goto_hasLabel
  | ifThen _ _ _ h' ih ih' | elseIf _ _ _ h' ih ih' =>
    simp only [List.mem_cons, List.mem_append, Step.line.injEq, reduceCtorEq, false_or] at hn ⊢
    obtain hn | hn := hn
    · exact (ih hγ hn).imp .inl h'.grown.hasLabel
    · exact (ih' hγ hn).imp_left .inr
  | caseBlock _ _ _ h' ih ih' =>
    simp only [List.mem_append, List.mem_map, List.mem_cons, Step.line.injEq, reduceCtorEq, and_false,
      exists_false, false_or, label_notMem_caseEnd, goto_notMem_caseEnd, or_false] at hn ⊢
    obtain hn | hn := hn
    · exact (ih hγ hn).imp .inl h'.grown.hasLabel
    · exact (ih' hγ hn).imp_left .inr
  | @loop γ c c₁ c₂ iterates label X I hX _ hlabel hI _ _ ih ih' =>
    simp only [List.mem_append, List.mem_cons, Step.line.injEq, reduceCtorEq, false_or, or_false,
      label_mem_labelSteps, goto_notMem_labelSteps, line_mem_iterationSteps, List.not_mem_nil] at hn ⊢
    -- an iteration expression has no exits of its own, so the loop has no labels after it that are new
    have hsame : c₂.loop = c₁.loop := by
      have heq := hI.loop_eq (by simp [Exits.inIteration, hγ])
      cases label <;> exact heq
    have hhas (hl : c₁.names.HasLabel n) : label = some n ∨ c₂.loop.breakLabel = some n := by
      rw [hsame]
      exact hl.symm.imp_left hlabel.symm.trans
    left
    obtain hn | hn := hn
    · obtain hl | hl := ih hγ hn
      · exact .inl (.inl (.inl hl))
      · exact (hhas hl).imp_left fun hl => .inl (.inr hl)
    · obtain hl | hl := ih' hγ hn
      · exact .inl (.inr hl)
      · have hl' : c₁.names.HasLabel n := by
          rw [Names.HasLabel, Control.names, hsame] at hl
          exact hl
        exact (hhas hl').imp_left fun hl => .inl (.inr hl)

/-! ### Labels stand once -/

end Emission

namespace Step

/-- The number of a label. -/
@[simp]
def label? : Step → Option Nat
  | line (.label n) => some n
  | _ => none

/-- The number of the label to which a jump goes. -/
@[simp]
def goto? : Step → Option Nat
  | line (.goto n) => some n
  | _ => none

variable {L : List Step} {n : Nat}

theorem mem_filterMap_label? : n ∈ L.filterMap label? ↔ .line (.label n) ∈ L := by
  rw [List.mem_filterMap]
  constructor
  · rintro ⟨s, hs, hn⟩
    rw [label?.eq_def] at hn
    split at hn <;> cases hn
    exact hs
  · exact fun h => ⟨_, h, rfl⟩

theorem mem_filterMap_goto? : n ∈ L.filterMap goto? ↔ .line (.goto n) ∈ L := by
  rw [List.mem_filterMap]
  constructor
  · rintro ⟨s, hs, hn⟩
    rw [goto?.eq_def] at hn
    split at hn <;> cases hn
    exact hs
  · exact fun h => ⟨_, h, rfl⟩

theorem filterMap_label?_eq_nil (h : ∀ n, .line (.label n) ∉ L) : L.filterMap label? = [] :=
  List.eq_nil_iff_forall_not_mem.2 fun n hn => h n (mem_filterMap_label?.1 hn)

end Step

namespace Emission

open Step (label? mem_filterMap_label? filterMap_label?_eq_nil)

variable {L₁ L₂ : List Step}

@[simp]
theorem labels_caseEnd (b : Bool) : (caseEnd b).filterMap label? = [] :=
  filterMap_label?_eq_nil fun n => label_notMem_caseEnd n b

@[simp]
theorem labels_clearSteps (p : Pending) : (clearSteps p).filterMap label? = [] :=
  filterMap_label?_eq_nil fun n => label_notMem_clearSteps n p

@[simp]
theorem labels_guardSteps (p : Pending) (A : List Step) :
    (guardSteps p A).filterMap label? = A.filterMap label? := by
  rw [guardSteps]
  split <;> simp [List.filterMap_cons]

@[simp]
theorem labels_caseLabels (labels : List C.Expr) :
    labels.filterMap (label? ∘ fun e => Step.line (.caseLabel e)) = [] :=
  List.filterMap_eq_nil_iff.2 fun _ _ => rfl

@[simp]
theorem labels_labelSteps (label : Option Nat) :
    (labelSteps label).filterMap label? = label.toList := by
  cases label <;> rfl

@[simp]
theorem labels_iterationSteps (b : Bool) (I : List Step) :
    (iterationSteps b I).filterMap label? = I.filterMap label? := by
  cases b <;> simp [iterationSteps, List.filterMap_cons]

/-- Pieces after one another have no label in common. -/
theorem Emits.nodup_append {γ₁ γ₂ : Exits} {sh₁ sh₂ : Shape} {c₁ c₁' c₂ : Control}
    (h₁ : Emits strict m γ₁ sh₁ c L₁ c₁) (h₂ : Emits strict m γ₂ sh₂ c₁' L₂ c₂)
    (heq : c₁'.names = c₁.names) (hc : c.names.Sane) (hL₁ : (L₁.filterMap label?).Nodup)
    (hL₂ : (L₂.filterMap label?).Nodup) : (L₁.filterMap label? ++ L₂.filterMap label?).Nodup := by
  refine List.nodup_append.2 ⟨hL₁, hL₂, ?_⟩
  rintro n hn _ hn' rfl
  exact h₁.labels_disjoint h₂ heq hc n (mem_filterMap_label?.1 hn) (mem_filterMap_label?.1 hn')

/-- The labels of a loop are apart from each other and from those in its body and in its iteration
expression. -/
theorem nodup_loop {N : Names} {c₁ c₂ : Control} {X I : List Step} (hX : (X.filterMap label?).Nodup)
    (hI : (I.filterMap label?).Nodup) (hg : Grown c₁.names c₂.names) (hc₂ : c₂.names.Sane)
    (hinX : ∀ n, .line (.label n) ∈ X → LabelsWithin N c₁.names n)
    (hinI : ∀ n, .line (.label n) ∈ I → LabelsWithin c₁.names c₂.names n) :
    (X.filterMap label? ++ (c₁.loop.continueLabel.toList ++
      (I.filterMap label? ++ c₂.loop.breakLabel.toList))).Nodup := by
  have hlater {n : Nat} (h : c₁.loop.continueLabel = some n) : c₂.loop.continueLabel = some n :=
    hg.continueLabel.eq_some h
  simp only [List.nodup_append, List.mem_append, Option.mem_toList, mem_filterMap_label?]
  refine ⟨hX, ⟨by cases c₁.loop.continueLabel <;> simp, ⟨hI, by cases c₂.loop.breakLabel <;> simp, ?_⟩, ?_⟩, ?_⟩
  · rintro n hn _ hbreak rfl
    exact (hinI n hn).2 (.inl hbreak)
  · rintro n hcontinue _ (hn | hbreak) rfl
    · exact (hinI n hn).2 (.inr (hlater hcontinue))
    · exact hc₂.apart n hbreak (hlater hcontinue)
  · rintro n hn _ (hcontinue | hn' | hbreak) rfl
    · exact (hinX n hn).2 (.inr hcontinue)
    · exact absurd (hinX n hn).1.2 (not_lt.2 (hinI n hn').1.1)
    · exact ((hinX n hn).extend hg).2 (.inl hbreak)

/-- No label stands in a piece twice. -/
theorem Emits.nodup_labels (h : Emits strict m γ sh c L c') (hc : c.names.Sane) :
    (L.filterMap label?).Nodup := by
  induction h with
  | nil | number | cleanupsNil | chainNil | casesNil | evaluates | evaluatesWaiting | waits | declares
  | declaresFlag | declaresWaiting | skips | leaves => simp [List.filterMap_cons]
  | @line _ _ l hl => cases l <;> first | exact .nil | cases hl
  | @stops _ _ l hl => cases l <;> first | exact .nil | cases hl
  | append h h' ih ih' | closes h _ h' ih ih' | cleanupsCons h h' ih ih' =>
    rw [List.filterMap_append]
    exact h.nodup_append h' rfl hc (ih hc) (ih' (h.sane hc))
  | revive _ ih | abandons _ _ ih => exact ih hc
  | ends _ _ ih | returns _ _ ih | otherwise _ _ ih | elementLoop _ _ _ ih | defaultBlock _ _ ih
  | action _ _ _ _ ih => simpa [List.filterMap_cons] using ih hc
  | switch _ _ ih => simpa [List.filterMap_cons] using ih hc.inSwitch
  | exits _ _ hl ih =>
    cases hl <;> simpa [List.filterMap_cons] using ih hc
  | ifThen _ h _ h' ih ih' | elseIf _ h _ h' ih ih' | caseBlock _ h _ h' ih ih' =>
    simpa [List.filterMap_cons] using h.nodup_append h' rfl hc (ih hc) (ih' (h.sane hc))
  | @loop γ c c₁ c₂ iterates label X I hX _ hlabel hI _ _ ih ih' =>
    have hc₁ : c₁.names.Sane := hX.sane (hc.inLoop _)
    have hg : Grown c₁.names c₂.names := by
      have := hI.grown
      cases label <;> exact this
    have hrevived : (if label.isSome then c₁.live else c₁).names = c₁.names := by
      cases label <;> rfl
    have hsane := hrevived ▸ hc₁
    have hin := nodup_loop (ih (hc.inLoop _)) (ih' hsane) hg (hI.sane hsane)
      (fun n => hX.label_mem (hc.inLoop _)) (fun n hn => hrevived ▸ hI.label_mem hsane hn)
    simpa [List.filterMap_cons, hlabel] using hin

end Emission

end CBackend
