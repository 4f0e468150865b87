import CBackend.Proofs.Flow.Nesting

/-!
# A logic for paths

A monitor follows a path event by event and says of each event whether it may happen. What a monitor
finds out about the paths through some steps is stated as a triple: from a state with one property,
every event may happen, and however a path ends, it ends in a state with the property that belongs to
this end.

The rules of the logic are one for each way in which steps are put together.
-/

namespace CBackend.Flow

/-- What is observed along a path. -/
structure Monitor (σ : Type) where
  /-- The state after an event. -/
  next : σ → Event → σ
  /-- Whether an event may happen in a state. -/
  Ok : σ → Event → Prop

/-- What holds at the ends of paths. -/
structure Post (σ : Type) where
  falls : σ → Prop
  breaks : σ → Prop
  continues : σ → Prop
  jumps : Nat → σ → Prop
  returns : σ → Prop

/-- What holds at one end. Of a path that is cut or stops nothing is asked. -/
def Post.Holds {σ : Type} (Q : Post σ) : Outcome → σ → Prop
  | .cut, _ | .stops, _ => True
  | .falls, w => Q.falls w
  | .breaks, w => Q.breaks w
  | .continues, w => Q.continues w
  | .jumps n, w => Q.jumps n w
  | .returns, w => Q.returns w

/-- The same, except at the label with the given number. -/
def Post.withJump {σ : Type} (Q : Post σ) (n : Nat) (R : σ → Prop) : Post σ :=
  { Q with jumps := fun i w => if i = n then R w else Q.jumps i w }

namespace Monitor

variable {σ : Type} (M : Monitor σ) {w : σ} {t t' : List Event} {e : C.Expr} {Q Q' : Post σ} {o : Outcome}
  {P P' P₁ P₂ R : σ → Prop} {A I K L L₁ L₂ : List Step} {s : Step} {l : C.Line} {n : Nat}

/-- The state after a trace. -/
def after (w : σ) (t : List Event) : σ :=
  t.foldl M.next w

/-- Every event of a trace may happen. -/
def Legal : σ → List Event → Prop
  | _, [] => True
  | w, e :: t => M.Ok w e ∧ Legal (M.next w e) t

/-- A trace is legal, and ends as it should. -/
def Meets (Q : Post σ) (w : σ) (t : List Event) (o : Outcome) : Prop :=
  M.Legal w t ∧ Q.Holds o (M.after w t)

/-- From every state with a property, the paths through some steps are legal and end as they
should. -/
def Triple (P : σ → Prop) (L : List Step) (Q : Post σ) : Prop :=
  ∀ w t o, P w → Path (some L) L t o → M.Meets Q w t o

/-- The same for the further branches of a conditional, of which none has been taken. -/
def Branches (P : σ → Prop) (R : List Step) (Q : Post σ) : Prop :=
  ∀ w t o, P w → Path none R t o → M.Meets Q w t o

variable {M}

/-! ### Traces -/

theorem after_append (w : σ) (t t' : List Event) :
    M.after w (t ++ t') = M.after (M.after w t) t' :=
  List.foldl_append

theorem legal_append :
    M.Legal w (t ++ t') ↔ M.Legal w t ∧ M.Legal (M.after w t) t' := by
  induction t generalizing w with
  | nil => simp [Legal, after]
  | cons e t ih =>
    rw [List.cons_append, Legal, Legal, ih, and_assoc]
    rfl

/-- The events of a legal trace may happen, each in the state before it. -/
theorem Legal.ok {e : Event} (h : M.Legal w (t ++ e :: t')) :
    M.Ok (M.after w t) e :=
  (legal_append.1 h).2.1

theorem meets_nil (h : Q.Holds o w) : M.Meets Q w [] o :=
  ⟨trivial, h⟩

theorem meets_cut : M.Meets Q w [] .cut :=
  meets_nil trivial

theorem meets_cons {e : Event} (he : M.Ok w e) (h : M.Meets Q (M.next w e) t o) : M.Meets Q w (e :: t) o :=
  ⟨⟨he, h.1⟩, h.2⟩

theorem meets_append (ht : M.Legal w t) (h : M.Meets Q (M.after w t) t' o) : M.Meets Q w (t ++ t') o :=
  ⟨legal_append.2 ⟨ht, h.1⟩, after_append w t t' ▸ h.2⟩

theorem Meets.of_append (h : M.Meets Q w (t ++ t') o) : M.Meets Q (M.after w t) t' o :=
  ⟨(legal_append.1 h.1).2, after_append w t t' ▸ h.2⟩

theorem Meets.mono (h : M.Meets Q w t o) (hQ : ∀ w, Q.Holds o w → Q'.Holds o w) : M.Meets Q' w t o :=
  ⟨h.1, hQ _ h.2⟩

/-! ### Steps without a block -/

theorem Branches.triple (h : M.Branches P L Q) (hL : NoLabels L) : M.Triple P L Q :=
  fun w t o hw hp => h w t o hw (hL.path hp)

theorem Branches.nil (h : ∀ w, P w → Q.falls w) :
    M.Branches P [] Q := by
  intro w t o hw hp
  obtain ⟨rfl, rfl | rfl⟩ := hp.nil_cases
  · exact meets_cut
  · exact meets_nil (h w hw)

theorem Triple.nil (h : ∀ w, P w → Q.falls w) : M.Triple P [] Q :=
  (Branches.nil h).triple fun _ _ hk => by cases hk

theorem Triple.mono (h : M.Triple P L Q) (hP : ∀ w, P' w → P w) (hQ : ∀ o w, Q.Holds o w → Q'.Holds o w) :
    M.Triple P' L Q' :=
  fun w t o hw hp => (h w t o (hP w hw) hp).mono (hQ o)

theorem Branches.mono (h : M.Branches P L Q) (hP : ∀ w, P' w → P w) (hQ : ∀ o w, Q.Holds o w → Q'.Holds o w) :
    M.Branches P' L Q' :=
  fun w t o hw hp => (h w t o (hP w hw) hp).mono (hQ o)

/-- What holds at a jump may depend on there being one. -/
theorem Triple.mono_mem (h : M.Triple P L Q)
    (hQ : ∀ o w, (∀ n, o = .jumps n → .line (.goto n) ∈ L) → Q.Holds o w → Q'.Holds o w) :
    M.Triple P L Q' := by
  intro w t o hw hp
  refine (h w t o hw hp).mono fun w' => hQ o w' fun n ho => ?_
  simpa using hp.goto_mem ho

/-- Steps that no path gets to. -/
theorem Triple.unreached (h : ∀ w, ¬ P w) :
    M.Triple P L Q :=
  fun w _ _ hw => absurd hw (h w)

/-- A step that control simply passes. -/
theorem Triple.step (hs : s.isPlain = true) (h : ∀ w, P w → M.Ok w (.passes s) ∧ Q.falls (M.next w (.passes s))) :
    M.Triple P [s] Q := by
  intro w t o hw hp
  cases hp with
  | stay hp =>
    obtain ⟨rfl, rfl⟩ | ⟨t', rfl, hp'⟩ := hp.plain_cases hs
    · exact meets_cut
    · refine meets_cons (h w hw).1 ?_
      obtain ⟨rfl, rfl | rfl⟩ := hp'.nil_cases
      · exact meets_cut
      · exact meets_nil (h w hw).2
  | jump hp =>
    have hgoto := hp.goto_mem rfl
    simp only [Option.getD_none, List.append_nil, List.mem_singleton] at hgoto
    subst hgoto
    cases hs

/-- Steps that control passes one after the other. -/
theorem Branches.steps (hL : ∀ s ∈ L, s.isPlain = true)
    (h : ∀ w, P w → M.Legal w (L.map .passes) ∧ Q.falls (M.after w (L.map .passes))) :
    M.Branches P L Q := by
  induction L generalizing P with
  | nil => exact .nil fun w hw => (h w hw).2
  | cons s L ih =>
    have hnext : M.Branches (fun w' => ∃ w, P w ∧ w' = M.next w (.passes s)) L Q := by
      refine ih (fun s' hs' => hL s' (List.mem_cons_of_mem _ hs')) ?_
      rintro _ ⟨w, hw, rfl⟩
      exact ⟨(h w hw).1.2, (h w hw).2⟩
    intro w t o hw hp
    obtain ⟨rfl, rfl⟩ | ⟨t, rfl, hp'⟩ := hp.plain_cases (hL s List.mem_cons_self)
    · exact meets_cut
    · exact meets_cons (h w hw).1.1 (hnext _ t o ⟨w, hw, rfl⟩ hp')

/-- Steps that control passes one after the other. -/
theorem Triple.steps (hL : ∀ s ∈ L, s.isPlain = true) (hlabels : ∀ n, .line (.label n) ∉ L)
    (h : ∀ w, P w → M.Legal w (L.map .passes) ∧ Q.falls (M.after w (L.map .passes))) :
    M.Triple P L Q :=
  (Branches.steps hL h).triple (.of_notMem hlabels)

/-- A line that control cannot get past. -/
theorem Triple.exit (hl : exitOf l = some o)
    (h : ∀ w, P w → M.Ok w (.passes (.line l)) ∧ Q.Holds o (M.next w (.passes (.line l)))) :
    M.Triple P [.line l, .note .ends] Q := by
  have hlabels : NoLabels [.line l, .note .ends] := by
    refine .of_notMem fun n hn => ?_
    simp only [List.mem_cons, Step.line.injEq, List.not_mem_nil, or_false, reduceCtorEq] at hn
    subst hn
    cases hl
  intro w t o' hw hp
  obtain ⟨rfl, rfl⟩ | ⟨rfl, rfl⟩ := (hlabels.path hp).exit_cases hl
  · exact meets_cut
  · exact meets_cons (h w hw).1 (meets_nil (h w hw).2)

/-! ### Pieces after one another -/

/-- Two pieces between which no jump goes. -/
theorem Triple.seq (hL₁ : Nested L₁) (hL₂ : ¬ StartsElse L₂) (hforth : Separate L₁ L₂) (hback : Separate L₂ L₁)
    (hlabels : ∀ n, .line (.label n) ∈ L₁ → .line (.label n) ∉ L₂) (h₁ : M.Triple P L₁ { Q with falls := R })
    (h₂ : M.Triple R L₂ Q) :
    M.Triple P (L₁ ++ L₂) Q := by
  intro w t o hw hp
  cases hp.run_append_cases hL₁ hL₂ hback hlabels hL₁ with
  | stays hp ho _ =>
    refine (h₁ w t o hw hp).mono fun w' hw' => ?_
    cases o <;> first | exact hw' | exact absurd rfl ho
  | falls ht hp₁ hp₂ =>
    subst ht
    obtain ⟨hlegal, hR⟩ := h₁ w _ _ hw hp₁
    exact meets_append hlegal (h₂ _ _ o hR hp₂)
  | jumps ht hp₁ hn _ =>
    have hgoto := hp₁.goto_mem rfl
    simp only [Option.getD_some, List.mem_append, or_self] at hgoto
    exact absurd (mem_of_mem_points hn) (hforth _ hgoto)

/-- Steps without jumps and labels. -/
def Quiet (L : List Step) : Prop :=
  ∀ n, .line (.goto n) ∉ L ∧ .line (.label n) ∉ L

/-- A piece after one without jumps and labels. -/
theorem Triple.seq_quiet (hL₁ : Nested L₁) (hL₂ : ¬ StartsElse L₂) (hquiet : Quiet L₁)
    (h₁ : M.Triple P L₁ { Q with falls := R }) (h₂ : M.Triple R L₂ Q) : M.Triple P (L₁ ++ L₂) Q :=
  .seq hL₁ hL₂ (fun n hn => absurd hn (hquiet n).1) (fun n _ => (hquiet n).2)
    (fun n hn => absurd hn (hquiet n).2) h₁ h₂

/-- A note in front of a piece. -/
theorem Triple.note {n : Note} (hL : ¬ StartsElse L)
    (hn : ∀ w, P w → M.Ok w (.passes (.note n)) ∧ R (M.next w (.passes (.note n)))) (h : M.Triple R L Q) :
    M.Triple P (.note n :: L) Q :=
  have hnote : M.Triple P [.note n] { Q with falls := R } := .step rfl hn
  .seq_quiet (.step rfl .nil) hL (fun n => by simp) hnote h

/-- A piece without jumps and labels after one that may have some. -/
theorem Triple.seq_of_quiet (hL₁ : Nested L₁) (hL₂ : ¬ StartsElse L₂) (hquiet : Quiet L₂)
    (h₁ : M.Triple P L₁ { Q with falls := R }) (h₂ : M.Triple R L₂ Q) : M.Triple P (L₁ ++ L₂) Q :=
  .seq hL₁ hL₂ (fun n _ => (hquiet n).2) (fun n hn => absurd hn (hquiet n).1)
    (fun n _ => (hquiet n).2) h₁ h₂

/-- Steps after a label, to which they themselves may jump. -/
private theorem meets_after_label (hn : .line (.label n) ∉ I) (h : M.Triple R I (Q.withJump n R)) {r : List Step}
    (hp : Path (some (.line (.label n) :: I)) r t o) (w : σ)
    (hw : ∀ t' o', Path (some I) r t' o' → M.Meets (Q.withJump n R) w t' o') :
    M.Meets Q w t o := by
  have hpoints (s : Step) (k : List Step) : s :: k ∈ points 0 (.line (.label n) :: I) ↔
      (s = .line (.label n) ∧ k = I) ∨ s :: k ∈ points 0 I := by
    rw [points, List.mem_cons, List.cons.injEq]
    rfl
  generalize hm : some (Step.line (.label n) :: I) = mode at hp
  induction hp generalizing w with
  | @stay b r t o hp hlabel =>
    cases hm
    have hp' : Path (some I) r t o :=
      .stay hp fun i k ho hk => hlabel i k ho ((hpoints _ k).2 (.inr hk))
    refine (hw t o hp').mono fun w' hw' => ?_
    cases o with
    | jumps i =>
      have hne : i ≠ n := by
        rintro rfl
        exact hlabel i I rfl ((hpoints _ I).2 (.inl ⟨rfl, rfl⟩))
      simpa [Post.Holds, Post.withJump, hne] using hw'
    | _ => exact hw'
  | @jump b r i k t t' o hp hlabel _ _ ih =>
    cases hm
    obtain ⟨heq, rfl⟩ | hlabel := (hpoints _ k).1 hlabel
    · cases heq
      have hp' : Path (some k) r t (.jumps n) :=
        .stay hp fun i k' ho hk => hn (by cases ho; exact mem_of_mem_points hk)
      obtain ⟨hlegal, hR⟩ := hw t _ hp'
      simp only [Post.Holds, Post.withJump, if_true] at hR
      exact meets_append hlegal (ih _ (fun t' o' => h _ t' o' hR) rfl)
    · have hcut : Path (some I) r (t ++ []) .cut :=
        .jump hp hlabel (.stay (.cut k) fun _ _ ho => Outcome.noConfusion ho)
      have hlegal := (legal_append.1 (hw _ _ hcut).1).1
      refine meets_append hlegal (ih _ (fun t' o' hp' => ?_) rfl)
      exact (hw (t ++ t') o' (.jump hp hlabel hp')).of_append
  | _ => cases hm

/-- Two pieces with a label between them, to which both may jump. -/
theorem Triple.labelled {S : σ → Prop} (hL : Nested L) (hforth : Separate L I) (hback : Separate I L)
    (hlabels : ∀ n, .line (.label n) ∈ L → .line (.label n) ∉ I) (hnL : .line (.label n) ∉ L)
    (hnI : .line (.label n) ∉ I) (h₁ : M.Triple P L ({ Q with falls := R }.withJump n S))
    (hlabel : ∀ w, R w → M.Ok w (.passes (.line (.label n))) ∧
      S (M.next w (.passes (.line (.label n))))) (h₂ : M.Triple S I (Q.withJump n S)) :
    M.Triple P (L ++ .line (.label n) :: I) Q := by
  have hback' : Separate (.line (.label n) :: I) L := fun i hi =>
    hback i (by simpa using hi)
  have hlabels' : ∀ i, .line (.label i) ∈ L → .line (.label i) ∉ .line (.label n) :: I := by
    intro i hi hmem
    obtain heq | hmem := List.mem_cons.1 hmem
    · cases heq; exact hnL hi
    · exact hlabels i hi hmem
  have enter {w : σ} {t : List Event} {o : Outcome} (hw : S w)
      (hp : Path (some (.line (.label n) :: I)) I t o) : M.Meets Q w t o :=
    meets_after_label hnI h₂ hp w fun t' o' => h₂ w t' o' hw
  intro w t o hw hp
  cases hp.run_append_cases hL (fun h => by cases h) hback' hlabels' hL with
  | stays hp ho hn =>
    refine (h₁ w t o hw hp).mono fun w' hw' => ?_
    cases o with
    | falls => exact absurd rfl ho
    | jumps i =>
      have hne : i ≠ n := by
        rintro rfl
        exact hn i I rfl List.mem_cons_self
      simpa [Post.Holds, Post.withJump, hne] using hw'
    | _ => exact hw'
  | falls ht hp₁ hp₂ =>
    subst ht
    obtain ⟨hlegal, hR⟩ := h₁ w _ _ hw hp₁
    refine meets_append hlegal ?_
    cases hp₂ with
    | stay hp₂ hn =>
      obtain ⟨rfl, rfl⟩ | ⟨t, rfl, hI⟩ := hp₂.plain_cases rfl
      · exact meets_cut
      · exact meets_cons (hlabel _ hR).1 (enter (hlabel _ hR).2 (.stay hI hn))
    | jump hp₂ hn hp₃ =>
      obtain ⟨-, ho⟩ | ⟨t, rfl, hI⟩ := hp₂.plain_cases rfl
      · cases ho
      · exact meets_cons (hlabel _ hR).1 (enter (hlabel _ hR).2 (.jump hI hn hp₃))
  | @jumps t₁ t₂ i k ht hp₁ hn hp₂ =>
    subst ht
    obtain ⟨hlegal, hR⟩ := h₁ w _ _ hw hp₁
    have hgoto := hp₁.goto_mem rfl
    simp only [Option.getD_some, List.mem_append, or_self] at hgoto
    rw [points, List.mem_cons] at hn
    obtain heq | hn := hn
    · cases heq
      simp only [Post.Holds, Post.withJump, if_true] at hR
      exact meets_append hlegal (enter hR hp₂)
    · exact absurd (mem_of_mem_points hn) (hforth i hgoto)

/-! ### Conditionals -/

theorem Branches.otherwise (hA : Nested A) (h : M.Triple P A Q) :
    M.Branches P (.line .otherwise :: .line .openBlock :: (A ++ [.line .closeBlock])) Q := by
  intro w t o hw hp
  obtain ⟨rfl, rfl⟩ | ⟨hA', -⟩ | ⟨t₁, t₂, rfl, hA', hk⟩ :=
    hp.otherwise_cases (hA.splitBlock_close [])
  · exact meets_cut
  · exact h w t o hw hA'
  · obtain ⟨rfl, ho⟩ := hk.nil_cases
    have hmeets := h w t₁ _ hw hA'
    rw [List.append_nil]
    rcases ho with rfl | rfl
    · exact ⟨hmeets.1, trivial⟩
    · exact hmeets

section

variable {R : List Step} (hA : Nested A) (hR : Chain R)
  (htrue : ∀ w, P w → M.Ok w (.decides e true) ∧ P₁ (M.next w (.decides e true)))
  (hfalse : ∀ w, P w → M.Ok w (.decides e false) ∧ P₂ (M.next w (.decides e false))) (h₁ : M.Triple P₁ A Q)
  (h₂ : M.Branches P₂ R Q)

include hA hR htrue hfalse h₁ h₂

/-- A condition with its branch and the further ones. -/
private theorem Branches.condition (hl : l = .ifThen e ∨ l = .elseIf e) :
    M.Branches P (.line l :: .line .openBlock :: (A ++ .line .closeBlock :: R)) Q := by
  intro w t o hw hp
  obtain ⟨rfl, rfl⟩ | ⟨t, rfl, hA', -⟩ | ⟨t₁, t₂, k, rfl, hA', hk, hk'⟩ | ⟨t, rfl, hR'⟩ :=
    hp.condition_cases hl (hA.splitBlock_close R)
  · exact meets_cut
  · exact meets_cons (htrue w hw).1 (h₁ _ t o (htrue w hw).2 hA')
  · obtain rfl := hR.afterElse hk
    obtain ⟨rfl, ho⟩ := hk'.nil_cases
    have hmeets := h₁ _ t₁ _ (htrue w hw).2 hA'
    rw [List.append_nil]
    refine meets_cons (htrue w hw).1 ?_
    rcases ho with rfl | rfl
    · exact ⟨hmeets.1, trivial⟩
    · exact hmeets
  · exact meets_cons (hfalse w hw).1 (h₂ _ t o (hfalse w hw).2 hR')

theorem Branches.elseIf :
    M.Branches P (.line (.elseIf e) :: .line .openBlock :: (A ++ .line .closeBlock :: R)) Q :=
  Branches.condition hA hR htrue hfalse h₁ h₂ (.inr rfl)

/-- A conditional. -/
theorem Triple.ifThen :
    M.Triple P (.line (.ifThen e) :: .line .openBlock :: (A ++ .line .closeBlock :: R)) Q := by
  refine (Branches.condition hA hR htrue hfalse h₁ h₂ (.inl rfl)).triple fun n k hk => ?_
  simp [points, depthAfter, C.Line.depthAfter, hA.points_succ_append] at hk
  exact hR.noLabels n k hk

end

/-! ### Loops -/

/-- A loop. -/
theorem Triple.loop {I : σ → Prop} (hA : Nested A)
    (htrue : ∀ w, I w → M.Ok w (.decides e true) ∧ P (M.next w (.decides e true)))
    (hfalse : ∀ w, I w → M.Ok w (.decides e false) ∧ Q.falls (M.next w (.decides e false)))
    (h : M.Triple P A { Q with falls := I, continues := I, breaks := Q.falls }) :
    M.Triple I (.line (.whileLoop e) :: .line .openBlock :: (A ++ [.line .closeBlock])) Q := by
  have hlabels : NoLabels
      (.line (.whileLoop e) :: .line .openBlock :: (A ++ [.line .closeBlock])) := by
    intro n k hk
    simp [points, depthAfter, C.Line.depthAfter, hA.points_succ_append] at hk
  intro w t o hw hrun
  have hp := hlabels.path hrun
  clear hrun
  generalize hr : Step.line (.whileLoop e) :: .line .openBlock :: (A ++ [.line .closeBlock]) = r at hp
  generalize hm : (none : Option (List Step)) = mode at hp
  have hsplit := hA.splitBlock_close []
  have out {w : σ} {t : List Event} {o : Outcome} (hw : Q.falls w) (hp : Path none [] t o) :
      M.Meets Q w t o := by
    obtain ⟨rfl, rfl | rfl⟩ := hp.nil_cases
    · exact meets_cut
    · exact meets_nil hw
  induction hp generalizing w with
  | cut => exact meets_cut
  | done hs hp =>
    cases hr; cases hsplit.symm.trans hs
    exact meets_cons (hfalse w hw).1 (out (hfalse w hw).2 hp)
  | @round e r c r' t t' o o' hs hp ho _ _ ih =>
    cases hr; cases hsplit.symm.trans hs
    obtain ⟨hlegal, hI⟩ := h _ _ _ (htrue w hw).2 hp
    refine meets_cons (htrue w hw).1 (meets_append hlegal (ih _ ?_ rfl rfl))
    rcases ho with rfl | rfl <;> exact hI
  | broken hs hp hp' =>
    cases hr; cases hsplit.symm.trans hs
    obtain ⟨hlegal, hQ⟩ := h _ _ _ (htrue w hw).2 hp
    exact meets_cons (htrue w hw).1 (meets_append hlegal (out hQ hp'))
  | @roundExit e r c r' t o hs hp ho =>
    cases hr; cases hsplit.symm.trans hs
    refine meets_cons (htrue w hw).1 ((h _ _ _ (htrue w hw).2 hp).mono fun w' hw' => ?_)
    cases o with
    | falls => exact absurd rfl ho.1
    | continues => exact absurd rfl ho.2.1
    | breaks => exact absurd rfl ho.2.2
    | _ => exact hw'
  | stay => cases hm
  | jump => cases hm
  | pass hs => cases hr; cases hs
  | exit hl => cases hr; cases hl
  | take hl | takeExit hl | refuse hl => rcases hl with rfl | rfl <;> cases hr
  | _ => cases hr

/-! ### Switches -/

/-- A switch, whose cases control only leaves by `break` or for good. -/
theorem Triple.switch (hK : Nested K) (hlabels : NoLabels K)
    (henter : ∀ w, P w → M.Ok w (.passes (.line (.switchOn e))) ∧
      P' (M.next w (.passes (.line (.switchOn e))))) (hmiss : ¬ HasDefault K → ∀ w, P' w → Q.falls w)
    (hcase : ∀ s k, isCaseLabel s = true → s :: k ∈ points 0 K →
      M.Branches P' k { Q with breaks := Q.falls }) :
    M.Triple P (.line (.switchOn e) :: .line .openBlock :: (K ++ [.line .closeBlock])) Q := by
  have hpoints : NoLabels
      (.line (.switchOn e) :: .line .openBlock :: (K ++ [.line .closeBlock])) := by
    intro n k hk
    simp [points, depthAfter, C.Line.depthAfter, hK.points_succ_append] at hk
  have out {w : σ} {t : List Event} {o : Outcome} (hw : Q.falls w) (hp : Path none [] t o) :
      M.Meets Q w t o := by
    obtain ⟨rfl, rfl | rfl⟩ := hp.nil_cases
    · exact meets_cut
    · exact meets_nil hw
  intro w t o hw hp
  obtain ⟨rfl, rfl⟩ | ⟨t, rfl, hin⟩ := (hpoints.path hp).switch_cases (hK.splitBlock_close [])
  · exact meets_cut
  refine meets_cons (henter w hw).1 ?_
  have hw' := (henter w hw).2
  obtain ⟨hno, hk⟩ | ⟨s, k, hs, hk, ⟨hpk, ho⟩ | ⟨t₁, t₂, o', rfl, hpk, ho, hend⟩⟩ := hin
  · exact out (hmiss hno _ hw') hk
  · refine (hcase s k hs hk _ t o hw' (hlabels.path hpk)).mono fun w₁ hw₁ => ?_
    cases o with
    | falls => exact absurd rfl ho.1
    | breaks => exact absurd rfl ho.2
    | _ => exact hw₁
  · obtain ⟨hlegal, hQ⟩ := hcase s k hs hk _ t₁ o' hw' (hlabels.path hpk)
    refine meets_append hlegal (out ?_ hend)
    rcases ho with rfl | rfl <;> exact hQ

/-- The block of a case that control does not fall out of. -/
theorem Branches.caseBlock (hA : Nested A) (h : M.Triple P A { Q with falls := fun _ => False }) :
    M.Branches P (.line .openBlock :: (A ++ .line .closeBlock :: K)) Q := by
  intro w t o hw hp
  obtain ⟨rfl, rfl⟩ | ⟨hA', ho⟩ | ⟨t₁, t₂, rfl, hA', -⟩ := hp.block_cases (hA.splitBlock_close K)
  · exact meets_cut
  · refine (h w t o hw hA').mono fun w' hw' => ?_
    cases o with
    | falls => exact absurd rfl ho
    | _ => exact hw'
  · exact (h w t₁ _ hw hA').2.elim

/-- A label in front of a case. -/
theorem Branches.caseLabel (hs : s.isPlain = true) (hpass : ∀ w, P w → M.Ok w (.passes s) ∧ P' (M.next w (.passes s)))
    (h : M.Branches P' K Q) : M.Branches P (s :: K) Q := by
  intro w t o hw hp
  obtain ⟨rfl, rfl⟩ | ⟨t, rfl, hK⟩ := hp.plain_cases hs
  · exact meets_cut
  · exact meets_cons (hpass w hw).1 (h _ t o (hpass w hw).2 hK)

end Monitor

end CBackend.Flow
