import CBackend.Proofs.Emission.Cleanups

/-!
# Soundness of what lowering writes

Along every path through a body that lowering writes, control gets only where no note says that it
cannot, cleanups are run in order, and flags tell whether variables were moved out of.
-/

namespace CBackend.Emission

open IR Flow Monitor

variable {strict : Bool} {m : Module} {T : VarId → Prop} {γ : Exits} {sh : Shape}
  {c c' c₁ c₂ : Control} {L L' A R K : List Step} {e : C.Expr} {g : Ghost} {w : World} {B : World → Prop}
  {Q : Post World} {N : Names} {o : Outcome}

/-! ### Statements -/

theorem Sound.line {l : C.Line} (hT : Tracked strict m T) (hl : isStatement l = true)
    (hf : c.Fits l.locals) : Sound strict T γ .code c [.line l] c.live := by
  intro g B hctx _
  have hplain : Step.isPlain (.line l) = true := by
    cases l <;> first | rfl | cases hl
  exact .step hplain fun w hw =>
    ⟨hw.ok trivial fun _ => trivial, rfl, hw.2.passes hT (hctx.apart hT hf)⟩

theorem Sound.append (hT : Tracked strict m T) (h₁ : Emits strict m γ .code c L c₁)
    (h₂ : Emits strict m γ .code c₁ L' c₂) (hL : NoneTwice T L)
    (ih₁ : Sound strict T γ .code c L c₁) (ih₂ : Sound strict T γ .code c₁ L' c₂) :
    Sound strict T γ .code c (L ++ L') c₂ := by
  intro g B hctx hcatch
  have hcatch' : Catches strict T γ g.loops c₁ B :=
    fun hj hswitch => hcatch hj (h₁.grown.inSwitch.symm.trans hswitch)
  exact h₁.seq h₂ rfl hctx.sane h₁.laid.1 h₂.laid.2 (ih₁ g B hctx hcatch)
    (ih₂ g B (hctx.next hT h₁ hL) hcatch')

theorem Sound.ends (h : Emits strict m γ .code c L c') (ht : c'.terminated = true)
    (ih : Sound strict T γ .code c L c') : Sound strict T γ .code c (L ++ [.note .ends]) c' := by
  intro g B hctx hcatch
  refine .seq_of_quiet h.laid.1 nofun (fun n => by simp) (ih g B hctx hcatch) (.unreached ?_)
  exact fun w hw => Bool.false_ne_true (hw.1.symm.trans ht)

theorem Sound.revive (ih : Sound strict T γ .code c L c') : Sound strict T γ .code c L c'.live :=
  fun g B hctx hcatch => (ih g B hctx hcatch).mono (fun _ => id)
    fun _ _ => post_mono (fun _ hw => ⟨rfl, hw.2⟩) fun _ => id

theorem Sound.abandons (ht : c₁.terminated = true) (ih : Sound strict T γ .code c L c₁) :
    Sound strict T γ .code c L { c₁ with cleanups := c.cleanups, scope := c.scope } :=
  fun g B hctx hcatch => (ih g B hctx hcatch).mono (fun _ => id)
    fun _ _ => post_mono (fun _ hw => absurd (hw.1.symm.trans ht) Bool.false_ne_true) fun _ => id

theorem Sound.stops {l : C.Line} (hl : exitOf l = some .stops) :
    Sound strict T γ .code c [.line l, .note .ends] c.dead :=
  fun _ _ _ _ => .exit hl fun _ hw => ⟨hw.ok trivial fun _ => trivial, trivial⟩

/-! ### Conditionals -/

/-- A condition is decided. -/
theorem Context.decides (h : Context strict T γ g c) (hT : Tracked strict m T)
    (he : c.Fits e.locals) (hw : At strict T g c w) (b : Bool) :
    (discipline strict T).Ok w (.decides e b) ∧ At strict T g c.live (w.next (.decides e b)) :=
  ⟨hw.ok trivial fun _ => trivial, rfl, hw.2.decides hT (h.apart hT he) b⟩

/-- Where one of two branches ends. -/
private theorem At.joinLeft (h : At strict T g c₁ w) (hbal : c₂.cleanups = c₁.cleanups) :
    At strict T g { c₂ with terminated := c₁.terminated && c₂.terminated } w :=
  h.congr hbal (by rw [h.1, Bool.false_and])

private theorem At.joinRight (h : At strict T g c₂ w) :
    At strict T g { c₂ with terminated := c₁.terminated && c₂.terminated } w :=
  h.congr rfl (by rw [h.1, Bool.and_false])

section

variable (hT : Tracked strict m T) (he : c.Fits e.locals) (hA : Emits strict m γ .code c.live A c₁)
  (hbal : c₁.cleanups = c.cleanups) (hR : Emits strict m γ .chain c₁.live R c₂) (hL : NoneTwice T A)
  (ihA : Sound strict T γ .code c.live A c₁) (ihR : Sound strict T γ .chain c₁.live R c₂)

include hT hA hR hL ihA ihR

/-- The two arms of a condition. -/
private theorem arms (hctx : Context strict T γ g c) (hcatch : Catches strict T γ g.loops c B) :
    (discipline strict T).Triple (At strict T g c.live) A
        (post strict T γ g.loops B c₂.names
          (At strict T g { c₂ with terminated := c₁.terminated && c₂.terminated })) ∧
      (discipline strict T).Branches (At strict T g c₁.live) R
        (post strict T γ g.loops B c₂.names
          (At strict T g { c₂ with terminated := c₁.terminated && c₂.terminated })) := by
  have hlive : Context strict T γ g c.live := hctx.congr rfl rfl rfl
  have hnext : Context strict T γ g c₁.live := (hlive.next hT hA hL).congr rfl rfl rfl
  constructor
  · refine (hA.later hR.grown (ihA g B hlive hcatch)).mono (fun _ => id) fun _ _ => ?_
    exact post_mono (fun _ hw => hw.joinLeft hR.balanced.1) fun _ => id
  · refine (ihR g B hnext fun hj hswitch => ?_).mono (fun _ => id) fun _ _ => ?_
    · exact hcatch hj (hA.grown.inSwitch.symm.trans hswitch)
    · exact post_mono (fun _ hw => hw.joinRight) fun _ => id

include he hbal

theorem Sound.ifThen : Sound strict T γ .code c
      (.line (.ifThen e) :: .line .openBlock :: (A ++ .line .closeBlock :: R))
      { c₂ with terminated := c₁.terminated && c₂.terminated } := by
  intro g B hctx hcatch
  obtain ⟨hthen, helse⟩ := arms hT hA hR hL ihA ihR hctx hcatch
  refine .ifThen hA.laid.1 hR.laid (fun w hw => hctx.decides hT he hw true) (fun w hw => ?_) hthen
    helse
  obtain ⟨hok, hat⟩ := hctx.decides hT he hw false
  exact ⟨hok, hat.congr hbal rfl⟩

theorem Sound.elseIf : Sound strict T γ .chain c
      (.line (.elseIf e) :: .line .openBlock :: (A ++ .line .closeBlock :: R))
      { c₂ with terminated := c₁.terminated && c₂.terminated } := by
  intro g B hctx hcatch
  obtain ⟨hthen, helse⟩ := arms hT hA hR hL ihA ihR hctx hcatch
  refine .elseIf hA.laid.1 hR.laid (fun w hw => hctx.decides hT he hw true) (fun w hw => ?_) hthen
    helse
  obtain ⟨hok, hat⟩ := hctx.decides hT he hw false
  exact ⟨hok, hat.congr hbal rfl⟩

end

theorem Sound.otherwise (hA : Emits strict m γ .code c.live A c₁)
    (ihA : Sound strict T γ .code c.live A c₁) :
    Sound strict T γ .chain c
      (.line .otherwise :: .line .openBlock :: (A ++ [.line .closeBlock])) c₁ := by
  intro g B hctx hcatch
  refine .otherwise hA.laid.1 ((ihA g B (hctx.congr rfl rfl rfl) hcatch).mono ?_ fun _ _ => id)
  exact fun w hw => ⟨rfl, hw.2⟩

/-! ### Switches -/

theorem Sound.switch (hT : Tracked strict m T) (he : c.Fits e.locals)
    (hK : Emits strict m γ .cases c.inSwitch K c₁)
    (ih : Sound strict T γ .cases c.inSwitch K c₁) :
    Sound strict T γ .code c
      (.line (.switchOn e) :: .line .openBlock :: (K ++ [.line .closeBlock]))
      { c₁ with loop.inSwitch := c.loop.inSwitch } := by
  intro g B hctx hcatch
  have hin : Context strict T γ g c.inSwitch :=
    ⟨hctx.sane.inSwitch, hctx.tracks, hctx.base, hctx.scope, hctx.returns, hctx.marks, hctx.jumps⟩
  have hstart (w : World) (hw : At strict T g c w) :
      (discipline strict T).Ok w (.passes (.line (.switchOn e))) ∧
        At strict T g c.inSwitch (w.next (.passes (.line (.switchOn e)))) :=
    ⟨hw.ok trivial fun _ => trivial, rfl, hw.2.passes hT (hctx.apart hT he)⟩
  refine .switch hK.laid.1 hK.laid.2 hstart (fun hno w hw => ?_) fun s k hs hk => ?_
  · exact hw.congr hK.balanced.1 (by by_contra ht; exact hno (ih.1 (Bool.of_not_eq_false ht)))
  · refine (ih.2 g (At strict T g c₁) hin rfl (fun _ => id) s k hs hk).mono (fun _ => id) ?_
    intro o w ho
    cases o with
    | falls => exact ho.elim
    | _ => exact ho

/-- The labels in front of a case. -/
private theorem branches_caseLabels {labels : List C.Expr} {K : List Step} (hT : Tracked strict m T)
    (hctx : Context strict T γ g c) (hl : ∀ e ∈ labels, c.Fits e.locals)
    (h : (discipline strict T).Branches (At strict T g c.live) K Q) :
    (discipline strict T).Branches (At strict T g c.live)
      (labels.map (fun e => .line (.caseLabel e)) ++ K) Q := by
  induction labels with
  | nil => exact h
  | cons e labels ih =>
    have hlabel := hl e List.mem_cons_self
    refine .caseLabel rfl (fun w hw => ?_) (ih fun e' he' => hl e' (List.mem_cons_of_mem _ he'))
    exact ⟨hw.ok trivial fun _ => trivial, rfl, hw.2.passes hT (hctx.apart hT hlabel)⟩

/-- The block of a case. -/
private theorem branches_caseBlock (hT : Tracked strict m T) (hA : Emits strict m γ .code c.live A c₁)
    (ihA : Sound strict T γ .code c.live A c₁) (hctx : Context strict T γ g c) (hswitch : c.loop.inSwitch = true)
    (hN : Grown c₁.names N) (hB : ∀ w, At strict T g c₁ w → B w) :
    (discipline strict T).Branches (At strict T g c.live)
      (.line .openBlock :: (A ++ caseEnd c₁.terminated ++ .line .closeBlock :: K))
      (post strict T γ g.loops B N fun _ => False) := by
  have hcatch : Catches strict T γ g.loops c.live B := by
    intro _ hno
    cases hswitch.symm.trans hno
  have hbody := hA.later hN (ihA g B (hctx.congr rfl rfl rfl) hcatch)
  refine .caseBlock (hA.laid.1.append (nested_caseEnd _)) ?_
  cases ht : c₁.terminated with
  | true =>
    rw [caseEnd, if_pos rfl, List.append_nil]
    refine hbody.mono (fun _ => id) fun _ _ => post_mono (fun _ hw => ?_) fun _ => id
    exact Bool.false_ne_true (hw.1.symm.trans ht)
  | false =>
    refine .seq_of_quiet hA.laid.1 Bool.false_ne_true (fun n => by simp [caseEnd]) hbody ?_
    exact .exit rfl fun w hw => ⟨hw.ok trivial fun _ => trivial,
      hB _ ⟨ht, hw.2.passes hT Apart.nil⟩⟩

private theorem points_block {X : List Step} (hX : Nested X) (K : List Step) :
    points 0 (.line .openBlock :: (X ++ .line .closeBlock :: K)) =
      (.line .openBlock :: (X ++ .line .closeBlock :: K)) :: points 0 K := by
  simp [points, depthAfter, C.Line.depthAfter, hX.points_succ_append]

/-- The labels of a case and those of the cases behind it. -/
private theorem mem_points_case {X : List Step} (hX : Nested X) (labels : List C.Expr)
    {s : Step} {k : List Step} (hs : isCaseLabel s = true)
    (hk : s :: k ∈ points 0 (labels.map (fun e => .line (.caseLabel e)) ++
      .line .openBlock :: (X ++ .line .closeBlock :: K))) :
    (∃ labels' ⊆ labels, k = labels'.map (fun e => .line (.caseLabel e)) ++
      .line .openBlock :: (X ++ .line .closeBlock :: K)) ∨ s :: k ∈ points 0 K := by
  induction labels with
  | nil =>
    rw [List.map_nil, List.nil_append, points_block hX] at hk
    obtain heq | hk := List.mem_cons.1 hk
    · rw [(List.cons.inj heq).1] at hs
      cases hs
    · exact .inr hk
  | cons e labels ih =>
    obtain heq | hk := List.mem_cons.1 hk
    · exact .inl ⟨labels, List.subset_cons_self _ _, (List.cons.inj heq).2⟩
    · obtain ⟨labels', hsub, heq⟩ | hk := ih hk
      · exact .inl ⟨labels', List.Subset.trans hsub (List.subset_cons_self _ _), heq⟩
      · exact .inr hk

theorem Sound.caseBlock {labels : List C.Expr} (hT : Tracked strict m T)
    (hl : ∀ e ∈ labels, c.Fits e.locals) (hA : Emits strict m γ .code c.live A c₁)
    (hbal : c₁.cleanups = c.cleanups) (hK : Emits strict m γ .cases c₁.live K c₂)
    (hL : NoneTwice T A) (ihA : Sound strict T γ .code c.live A c₁)
    (ihK : Sound strict T γ .cases c₁.live K c₂) :
    Sound strict T γ .cases c
      (labels.map (fun e => .line (.caseLabel e)) ++
        .line .openBlock :: (A ++ caseEnd c₁.terminated ++ .line .closeBlock :: K))
      { c₂ with terminated := c₁.terminated && c₂.terminated } := by
  have hX := hA.laid.1.append (nested_caseEnd c₁.terminated)
  refine ⟨fun ht => ?_, fun g B hctx hswitch hB s k hs hk => ?_⟩
  · obtain ⟨k, hk⟩ := ihK.1 (Bool.and_eq_true_iff.1 ht).2
    refine ⟨k, ?_⟩
    rw [(nested_caseLabels labels).points_append, points_block hX]
    exact List.mem_append_right _ (List.mem_cons_of_mem _ hk)
  · obtain ⟨labels', hsub, rfl⟩ | hk := mem_points_case hX labels hs hk
    · refine branches_caseLabels hT hctx (fun e he => hl e (hsub he)) ?_
      exact branches_caseBlock hT hA ihA hctx hswitch hK.grown fun w hw =>
        hB w (hw.joinLeft hK.balanced.1)
    · have hlive : Context strict T γ g c.live := hctx.congr rfl rfl rfl
      have hnext : Context strict T γ g c₁.live := (hlive.next hT hA hL).congr rfl rfl rfl
      refine (ihK.2 g B hnext (hA.grown.inSwitch.trans hswitch) (fun w hw => hB w hw.joinRight)
        s k hs hk).mono (fun w hw => hw.congr hbal rfl) fun _ _ => id

theorem Sound.defaultBlock (hT : Tracked strict m T) (hA : Emits strict m γ .code c.live A c₁)
    (ihA : Sound strict T γ .code c.live A c₁) :
    Sound strict T γ .cases c
      (.line .defaultLabel ::
        .line .openBlock :: (A ++ caseEnd c₁.terminated ++ [.line .closeBlock])) c₁ := by
  refine ⟨fun _ => ⟨_, List.mem_cons_self⟩, fun g B hctx hswitch hB s k hs hk => ?_⟩
  obtain heq | hk := List.mem_cons.1 hk
  · rw [(List.cons.inj heq).2]
    exact branches_caseBlock hT hA ihA hctx hswitch (.refl _) hB
  · obtain ⟨labels', hsub, rfl⟩ | hk :=
      mem_points_case (hA.laid.1.append (nested_caseEnd c₁.terminated)) [] hs hk
    · rw [List.subset_nil.1 hsub]
      exact branches_caseBlock hT hA ihA hctx hswitch (.refl _) hB
    · cases hk

/-! ### Loops -/

/-- The code for an element of an array has no other exits than the code around it, and none to the
loop around. -/
private theorem post_inElements {F : List Frame} {W : Marks}
    (h : (post strict T (γ.inElements strict) W (Holds strict T F W) N
      (Holds strict T F W)).Holds o w) :
    Post.Holds { post strict T γ W B N (Holds strict T F W) with
      breaks := Holds strict T F W, continues := Holds strict T F W } o w := by
  cases o with
  | continues =>
    obtain ⟨-, hs, -⟩ := Exits.inElements_jumps.1 h.1
    subst hs
    exact h.2.congr nofun nofun
  | jumps n => exact fun hn => ⟨(Exits.inElements_jumps.1 (h hn).1).1, (h hn).2⟩
  | _ => exact h

theorem Sound.elementLoop (hT : Tracked strict m T) (he : c.Fits e.locals)
    (hA : Emits strict m (γ.inElements strict) .code c.live A c₁)
    (hbal : c₁.cleanups = c.cleanups)
    (ih : Sound strict T (γ.inElements strict) .code c.live A c₁) :
    Sound strict T γ .code c
      (.line (.whileLoop e) :: .line .openBlock :: (A ++ [.line .closeBlock])) c₁.live := by
  intro g B hctx hcatch
  have hin : Context strict T (γ.inElements strict) g c.live := by
    refine ⟨hctx.sane, hctx.tracks, hctx.base, hctx.scope, fun hs hr => ?_, hctx.marks,
      fun hs hj => ?_⟩
    · exact hctx.returns hs hr
    · exact nomatch hs.symm.trans (Exits.inElements_jumps.1 hj).2.1
  have hcatch' : Catches strict T (γ.inElements strict) g.loops c.live
      (Holds strict T (g.frames c.cleanups) g.loops) := by
    intro hj _ w hw
    obtain ⟨-, hs, -⟩ := Exits.inElements_jumps.1 hj
    subst hs
    exact hw.congr nofun nofun
  have hdecides (b : Bool) (w : World) (hw : Holds strict T (g.frames c.cleanups) g.loops w) :=
    hw.decides hT (hctx.apart hT he) b
  refine (Triple.loop (I := Holds strict T (g.frames c.cleanups) g.loops)
    (P := At strict T g c.live) (Q := post strict T γ g.loops B c₁.names
      (Holds strict T (g.frames c.cleanups) g.loops)) hA.laid.1 (fun w hw => ?_) (fun w hw => ?_)
    ?_).mono (fun w hw => hw.2) fun _ _ => post_mono (fun w hw => ⟨rfl, hbal.symm ▸ hw⟩) fun _ => id
  · exact ⟨hw.ok trivial fun _ => trivial, rfl, hdecides true w hw⟩
  · exact ⟨hw.ok trivial fun _ => trivial, hdecides false w hw⟩
  · refine (ih g _ hin hcatch').mono (fun _ => id) fun o w ho => ?_
    exact post_inElements (post_mono (fun w hw => hbal ▸ hw.2) (fun _ => id) ho)

section

variable {F : List Frame} {W : Marks}

private theorem Holds.entersLoop (h : Holds strict T F W w) :
    Holds strict T F (some F :: W) (w.next (.passes (.note .entersLoop))) where
  stack := h.stack
  loops hs := congrArg₂ List.cons (congrArg some (h.stack hs)) (h.loops hs)
  flags := h.flags
  calm p x hp := by cases hp

private theorem Holds.leavesLoop (h : Holds strict T F (some F :: W) w) :
    Holds strict T F W (w.next (.passes (.note .leavesLoop))) where
  stack := h.stack
  loops hs := congrArg List.tail (h.loops hs)
  flags := h.flags
  calm p x hp := by cases hp

/-- The end of a loop. -/
private theorem triple_leavesLoop (hQ : ∀ w, Holds strict T F W w → Q.falls w) :
    (discipline strict T).Triple (Holds strict T F (some F :: W)) [.note .leavesLoop] Q := by
  refine .step rfl fun w hw => ⟨hw.ok trivial fun hs => ?_, hQ _ hw.leavesLoop⟩
  rw [World.Orderly, hw.stack hs, hw.loops hs]
  rfl

end

section

variable {iterates : Bool} {label : Option Nat} {X I : List Step}

/-- The state in which the code behind the label of a loop begins. -/
private theorem names_label (label : Option Nat) (c : Control) :
    (if label.isSome then c.live else c).names = c.names := by
  cases label <;> rfl

/-- An iteration expression has no other exits than the rest of the loop. -/
private theorem post_inIteration {W : Marks} {Q : World → Prop} (h : (post strict T γ.inIteration W B N Q).Holds o w) :
    (post strict T γ.inLoop W B N Q).Holds o w := by
  cases o with
  | continues => exact ⟨rfl, h.2⟩
  | jumps n => exact fun hn => ⟨rfl, (h hn).2⟩
  | _ => exact h

private theorem Context.inIteration (h : Context strict T γ.inLoop g c) :
    Context strict T γ.inIteration g c :=
  ⟨h.sane, h.tracks, h.base, h.scope, h.returns, h.marks, fun hs _ => h.jumps hs rfl⟩

/-- The iteration expression of a loop that may not have one. -/
private theorem triple_iterationSteps (iterates : Bool) (hT : Tracked strict m T) (hI : Nested I ∧ ¬ StartsElse I)
    (h : (discipline strict T).Triple (At strict T g c) I Q) :
    (discipline strict T).Triple (At strict T g c) (iterationSteps iterates I) Q := by
  cases iterates with
  | false => exact h
  | true =>
    refine .note hI.2 (fun w hw => ⟨hw.ok trivial fun _ => trivial, hw.1, ?_⟩) h
    exact hw.2.frame hT.strict rfl rfl (fun _ _ _ _ _ _ => rfl) id rfl fun _ _ _ _ _ _ _ => rfl

private theorem not_startsElse_iterationSteps (hI : ¬ StartsElse I) :
    ¬ StartsElse (iterationSteps iterates I) := by
  cases iterates
  · exact hI
  · exact nofun

private theorem separate_iterationSteps :
    (Separate X (iterationSteps iterates I) ↔ Separate X I) ∧
      (Separate (iterationSteps iterates I) X ↔ Separate I X) := by
  simp [Separate]

variable (hT : Tracked strict m T) (hX : Emits strict m γ.inLoop .code (c.inLoop iterates) X c₁)
  (hbal : c₁.cleanups = c.cleanups) (hlabel : c₁.loop.continueLabel = label)
  (hI : Emits strict m γ.inIteration .code (if label.isSome then c₁.live else c₁) I c₂)
  (hbal' : c₂.cleanups = c.cleanups) (hL : NoneTwice T X)
  (ihX : Sound strict T γ.inLoop .code (c.inLoop iterates) X c₁)
  (ihI : Sound strict T γ.inIteration .code (if label.isSome then c₁.live else c₁) I c₂)

include hX hI

/-- The jumps of a loop have new numbers. -/
private theorem le_of_goto_mem {n : Nat}
    (hn : .line (.goto n) ∈ X ++ labelSteps label ++ iterationSteps iterates I) : c.counter ≤ n := by
  have hg := hI.grown
  rw [names_label] at hg
  have new : ∀ {N : Names}, Grown (c.inLoop iterates).names N → N.HasLabel n → c.counter ≤ n := by
    intro N hN hl
    obtain (hl | hl) | ⟨hle, -⟩ := hN.hasLabel_or hl
    · cases hl
    · cases hl
    · exact hle
  simp only [List.mem_append, goto_notMem_labelSteps, line_mem_iterationSteps, or_false] at hn
  obtain hn | hn := hn
  · obtain hl | ⟨hle, -⟩ := hX.goto_mem hn
    · exact new hX.grown hl
    · exact hle
  · obtain hl | ⟨hle, -⟩ := hI.goto_mem hn
    · exact new (hX.grown.trans hg) hl
    · rw [names_label] at hle
      exact hX.grown.counter.trans hle

include hlabel

/-- The label behind a loop is none of those inside. -/
private theorem breakLabel_notMem {n : Nat} (hsane : c.names.Sane) (hn : c₂.loop.breakLabel = some n) :
    .line (.label n) ∉ X ++ labelSteps label ++ iterationSteps iterates I := by
  have hg := hI.grown
  have hsane₁ := hX.sane (hsane.inLoop iterates)
  have hsane₁' : (if label.isSome then c₁.live else c₁).names.Sane := (names_label ..).symm ▸ hsane₁
  rw [names_label] at hg
  intro hmem
  simp only [List.mem_append, label_mem_labelSteps, line_mem_iterationSteps] at hmem
  obtain (hmem | hmem) | hmem := hmem
  · obtain ⟨⟨-, hlt⟩, hno⟩ := hX.label_mem (hsane.inLoop iterates) hmem
    obtain hl | ⟨hle, -⟩ := hg.hasLabel_or (.inl hn)
    · exact hno hl
    · exact absurd hlt (not_lt.2 hle)
  · have hcontinue : c₁.names.loop.continueLabel = some n := hlabel.trans hmem
    obtain heq | ⟨hnone, -⟩ := hg.continueLabel
    · exact (hI.sane hsane₁').apart n hn (heq.trans hcontinue)
    · exact Option.some_ne_none n (hcontinue.symm.trans hnone)
  · exact (hI.label_mem hsane₁' hmem).2 (.inl hn)

include hT hbal hbal' hL ihX ihI

/-- One round of a loop. -/
private theorem triple_round (hctx : Context strict T γ g c) :
    (discipline strict T).Triple
      (Holds strict T (g.frames c.cleanups) (some (g.frames c.cleanups) :: g.loops))
      (X ++ labelSteps label ++ iterationSteps iterates I)
      (post strict T γ.inLoop (some (g.frames c.cleanups) :: g.loops)
        (Holds strict T (g.frames c.cleanups) (some (g.frames c.cleanups) :: g.loops)) c₂.names
        (Holds strict T (g.frames c.cleanups) (some (g.frames c.cleanups) :: g.loops))) := by
  let g' : Ghost := ⟨g.base, g.below, some (g.frames c.cleanups) :: g.loops⟩
  let E := Holds strict T (g.frames c.cleanups) (some (g.frames c.cleanups) :: g.loops)
  have hin : Context strict T γ.inLoop g' (c.inLoop iterates) := by
    have hmarks (hs : strict = true) :
        Marks.Below (some (g.frames c.cleanups) :: g.loops) (g.frames c.cleanups).length := by
      intro F hF
      obtain heq | hF := List.mem_cons.1 hF
      · rw [Option.some.inj heq]
      · exact hctx.marks hs F hF
    refine ⟨hctx.sane.inLoop _, hctx.tracks, hctx.base, hctx.scope, hctx.returns, hmarks,
      fun hs _ => ⟨hctx.base hs, le_rfl, ?_, hmarks hs⟩⟩
    change some (g.frames c.cleanups) =
      some (g.frames (c.cleanups.drop (c.cleanups.length - c.cleanups.length)))
    rw [Nat.sub_self, List.drop_zero]
  have hnext := hin.next hT hX hL
  have hcatch : Catches strict T γ.inLoop g'.loops (c.inLoop iterates) E := fun _ _ _ => id
  have hcatch' : Catches strict T γ.inIteration g'.loops (if label.isSome then c₁.live else c₁) E :=
    fun _ _ _ => id
  have hstart (w : World) (hw : E w) : At strict T g' (c.inLoop iterates) w := ⟨rfl, hw⟩
  have hend (w : World) (hw : At strict T g' c₂ w) : E w :=
    hw.2.congr (fun _ => congrArg g.frames hbal'.symm) fun _ => rfl
  have tX := (ihX g' E hin hcatch).mono hstart fun _ _ => id
  have tI (h : Context strict T γ.inLoop g' (if label.isSome then c₁.live else c₁)) :=
    triple_iterationSteps iterates hT hI.laid
      ((ihI g' E h.inIteration hcatch').mono (fun _ => id) fun _ _ ho =>
        post_inIteration (post_mono hend (fun _ => id) ho))
  have hseparate : Separate X (iterationSteps iterates I) :=
    separate_iterationSteps.1.2 (hX.separate hI (names_label ..) hin.sane)
  have hback : Separate (iterationSteps iterates I) X :=
    separate_iterationSteps.2.2 (hX.separate_back hI (names_label ..) hin.sane)
  have hdisjoint (n : Nat) (hn : .line (.label n) ∈ X) :
      .line (.label n) ∉ iterationSteps iterates I := by
    rw [line_mem_iterationSteps]
    exact hX.labels_disjoint hI (names_label ..) hin.sane n hn
  have hgrown : Grown c₁.names c₂.names := names_label label c₁ ▸ hI.grown
  cases label with
  | none =>
    rw [labelSteps, Option.toList_none, List.map_nil, List.append_nil]
    exact .seq hX.laid.1 (not_startsElse_iterationSteps hI.laid.2) hseparate hback hdisjoint
      (hX.later hgrown tX) (tI hnext)
  | some n =>
    have hn : c₁.names.HasLabel n := .inr hlabel
    have hjump {P Q : World → Prop} {L : List Step}
        (h : (discipline strict T).Triple P L (post strict T γ.inLoop g'.loops E c₂.names Q)) :
        (discipline strict T).Triple P L
          ((post strict T γ.inLoop g'.loops E c₂.names Q).withJump n E) := by
      refine h.mono (fun _ => id) fun o w ho => ?_
      cases o with
      | jumps i =>
        change if i = n then E w else _
        split
        · next heq => subst heq; exact (ho (hgrown.hasLabel hn)).2
        · exact ho
      | _ => exact ho
    have tI' := (tI (hnext.congr rfl rfl rfl)).mono
      (fun w (hw : E w) => ⟨rfl, Holds.congr hw (fun _ => congrArg g.frames hbal) fun _ => rfl⟩)
      fun _ _ => id
    have hsteps : X ++ labelSteps (some n) ++ iterationSteps iterates I =
        X ++ .line (.label n) :: iterationSteps iterates I := by
      simp [labelSteps]
    rw [hsteps]
    refine .labelled hX.laid.1 hseparate hback hdisjoint ?_ ?_ (hjump (hX.later hgrown tX))
      (fun w hw => ?_) (hjump tI')
    · exact fun hmem => (hX.label_mem hin.sane hmem).2 hn
    · rw [line_mem_iterationSteps]
      intro hmem
      exact absurd (hnext.sane.labels n hn) (not_lt.2 (hI.label_mem hnext.sane hmem).1.1)
    · refine ⟨hw.ok trivial fun _ => trivial, ?_⟩
      exact (hw.2.passes (l := .label n) hT Apart.nil).congr
        (fun _ => congrArg g.frames hbal.symm) fun _ => rfl

theorem Sound.loop : Sound strict T γ .code c
      (.note .entersLoop ::
        .line (.whileLoop (.nat 1)) :: .line .openBlock ::
          (X ++ labelSteps label ++ iterationSteps iterates I ++
            .line .closeBlock :: (labelSteps c₂.loop.breakLabel ++ [.note .leavesLoop])))
      { c₂ with loop := c.loop, terminated := false } := by
  intro g B hctx _
  let E := Holds strict T (g.frames c.cleanups) (some (g.frames c.cleanups) :: g.loops)
  let C := X ++ labelSteps label ++ iterationSteps iterates I
  have hround := triple_round hT hX hbal hlabel hI hbal' hL ihX ihI hctx
  have hbody : Nested C :=
    (hX.laid.1.append (nested_labelSteps _)).append (nested_iterationSteps _ hI.laid.1)
  have hnested : Nested (.line (.whileLoop (.nat 1)) :: .line .openBlock ::
      (C ++ [.line .closeBlock])) := .head rfl (.block hbody .nil)
  -- the loop as a whole falls, jumps to one of its labels or returns
  let Q : Post World := ⟨E, fun _ => False, fun _ => False, fun n w => c₂.names.HasLabel n → E w,
    fun w => strict = true → γ.returns = true ∧ w.stack = []⟩
  have hloop : (discipline strict T).Triple E (.line (.whileLoop (.nat 1)) :: .line .openBlock ::
      (C ++ [.line .closeBlock])) Q := by
    have hdecides (b : Bool) (w : World) (hw : E w) : E (w.next (.decides (.nat 1) b)) :=
      Holds.decides hw hT Apart.nil b
    refine .loop (P := E) hbody (fun w hw => ⟨Holds.ok hw trivial fun _ => trivial, hdecides _ w hw⟩)
      (fun w hw => ⟨Holds.ok hw trivial fun _ => trivial, hdecides _ w hw⟩) ?_
    refine hround.mono (fun _ => id) fun o w ho => ?_
    cases o with
    | continues => exact ho.2
    | jumps n => exact fun hn => (ho hn).2
    | _ => exact ho
  have hfresh {n : Nat} (hgoto : .line (.goto n) ∈ .line (.whileLoop (.nat 1)) :: .line .openBlock ::
      (C ++ [.line .closeBlock])) : ¬ c.names.HasLabel n := by
    intro hn
    have hmem : .line (.goto n) ∈ C := by simpa using hgoto
    exact absurd (hctx.sane.labels n hn) (not_lt.2 (le_of_goto_mem hX hI hmem))
  have hlast (w : World) (hw : Holds strict T (g.frames c.cleanups) g.loops w) :
      At strict T g { c₂ with loop := c.loop, terminated := false } w :=
    ⟨rfl, hw.congr (fun _ => congrArg g.frames hbal') fun _ => rfl⟩
  have hsteps : .line (.whileLoop (.nat 1)) :: .line .openBlock ::
      (C ++ .line .closeBlock :: (labelSteps c₂.loop.breakLabel ++ [.note .leavesLoop])) =
      (.line (.whileLoop (.nat 1)) :: .line .openBlock :: (C ++ [.line .closeBlock])) ++
        (labelSteps c₂.loop.breakLabel ++ [.note .leavesLoop]) := by simp
  rw [hsteps]
  refine .note (R := E) nofun
    (fun w hw => ⟨hw.ok trivial fun _ => trivial, hw.2.entersLoop⟩) ?_
  cases hbreak : c₂.loop.breakLabel with
  | none =>
    refine .seq_of_quiet hnested nofun (fun n => by simp [labelSteps])
      (hloop.mono_mem fun o w hgoto ho => ?_) (triple_leavesLoop hlast)
    cases o with
    | breaks | continues => exact ho.elim
    | jumps n => exact fun hn => absurd hn (hfresh (hgoto n rfl))
    | _ => exact ho
  | some n =>
    have hnot : .line (.label n) ∉ .line (.whileLoop (.nat 1)) :: .line .openBlock ::
        (C ++ [.line .closeBlock]) := by
      have := breakLabel_notMem hX hlabel hI hctx.sane hbreak
      simpa [C] using this
    refine .labelled (R := E) (S := E) hnested (fun i _ => by simp) (fun i hi => by simp at hi)
      (fun i _ => by simp) hnot (by simp) (hloop.mono_mem fun o w hgoto ho => ?_) (fun w hw => ?_)
      (triple_leavesLoop fun w hw => hlast w hw)
    · cases o with
      | breaks | continues => exact ho.elim
      | jumps i =>
        change if i = n then E w else _
        split
        · next heq => subst heq; exact ho (.inl hbreak)
        · exact fun hn => absurd hn (hfresh (hgoto i rfl))
      | _ => exact ho
    · exact ⟨Holds.ok hw trivial fun _ => trivial, Holds.passes hw hT Apart.nil⟩

end

/-! ### All pieces -/

private theorem not_holds_of_noneTwice {x : VarId} {ls : List Step}
    (h : NoneTwice T (.note (.declares x (c.holds x)) :: ls)) (hx : T x) : c.holds x = false := by
  by_contra hne
  rw [Bool.not_eq_false] at hne
  exact h x hx (by simp [hne])

/-- The pieces that lowering writes do what their shapes ask for. -/
theorem Emits.sound (h : Emits strict m γ sh c L c') (hT : Tracked strict m T)
    (hL : NoneTwice T L) : Sound strict T γ sh c L c' := by
  induction h with
  | nil | number => exact fun _ _ _ _ => .nil fun _ hw => hw
  | append h₁ h₂ ih₁ ih₂ => exact .append hT h₁ h₂ hL.left (ih₁ hL.left) (ih₂ hL.right)
  | line hl hf => exact .line hT hl hf
  | evaluates hc h => exact .evaluates hT hc h
  | evaluatesWaiting _ howner hclears => exact .evaluatesWaiting hT howner hclears
  | waits hc howner hclears => exact .waits hT hc howner hclears
  | declares hx => exact .declares hT hx
  | declaresFlag hflag => exact .declaresFlag hT (not_holds_of_noneTwice hL)
  | declaresWaiting hflag hc howner hguard hclears =>
    exact .declaresWaiting hT (not_holds_of_noneTwice hL) hflag hc howner hguard hclears
  | skips h => exact fun _ _ _ _ => .unreached fun w hw => Bool.false_ne_true (hw.1.symm.trans h)
  | ends h ht ih => exact .ends h ht (ih hL.left)
  | revive _ ih => exact .revive (ih hL)
  | stops hl => exact .stops hl
  | returns hγ h ih => exact .returns hγ h (ih hL.left)
  | exits hγ h hl ih => exact .exits hT hγ h hl (ih hL.left)
  | leaves hγ hbase hswitch => exact .leaves hT hγ hbase hswitch
  | closes h₁ hps h₂ ih₁ ih₂ => exact .closes hT h₁ hps h₂ hL.left (ih₁ hL.left) (ih₂ hL.right)
  | abandons _ ht ih => exact .abandons ht (ih hL)
  | action h hbal hguard hb ih => exact .action hT h hbal hguard hb (ih hL.action)
  | cleanupsNil => exact fun _ _ _ _ _ _ _ _ => .nil fun _ hw => hw
  | cleanupsCons h₁ h₂ ih₁ ih₂ => exact .cleanupsCons hT h₁ h₂ hL.left (ih₁ hL.left) (ih₂ hL.right)
  | ifThen he hA hbal hR ihA ihR =>
    exact .ifThen hT he hA hbal hR hL.tail.tail.left (ihA hL.tail.tail.left)
      (ihR hL.tail.tail.right.tail)
  | chainNil => exact fun _ _ _ _ => .nil fun _ hw => ⟨rfl, hw.2⟩
  | otherwise hA _ ih => exact .otherwise hA (ih hL.tail.tail.left)
  | elseIf he hA hbal hR ihA ihR =>
    exact .elseIf hT he hA hbal hR hL.tail.tail.left (ihA hL.tail.tail.left)
      (ihR hL.tail.tail.right.tail)
  | switch he hK ih => exact .switch hT he hK (ih hL.tail.tail.left)
  | casesNil => exact ⟨nofun, fun _ _ _ _ _ _ _ _ hk => by cases hk⟩
  | caseBlock hl hA hbal hK ihA ihK =>
    exact .caseBlock hT hl hA hbal hK hL.right.tail.left.left (ihA hL.right.tail.left.left)
      (ihK hL.right.tail.right.tail)
  | defaultBlock hA _ ih => exact .defaultBlock hT hA (ih hL.tail.tail.left.left)
  | elementLoop he hA hbal ih => exact .elementLoop hT he hA hbal (ih hL.tail.tail.left)
  | loop hX hbal hlabel hI hbal' _ ihX ihI =>
    exact .loop hT hX hbal hlabel hI hbal' hL.tail.tail.tail.left.left.left
      (ihX hL.tail.tail.tail.left.left.left) (ihI hL.tail.tail.tail.left.right.iteration)

/-- At the beginning of a body nothing waits. -/
private theorem context_initial : Context strict T .all ⟨0, [], []⟩ {} where
  sane := .initial
  tracks _ _ _ h := by cases h
  base _ := le_rfl
  scope _ _ h := by cases h
  returns _ _ := ⟨rfl, rfl⟩
  marks _ := by rintro F ⟨⟩
  jumps _ _ := ⟨le_rfl, le_rfl, rfl, by rintro F ⟨⟩⟩

/-- The paths through a whole body. -/
theorem Emits.meets {t : List Event} (h : Emits strict m .all .code {} L c') (hT : Tracked strict m T)
    (hL : NoneTwice T L) (hp : Path (some L) L t o) :
    (discipline strict T).Meets
      (post strict T .all [] (AtExit strict T []) c'.names (At strict T ⟨0, [], []⟩ c')) {} t o := by
  have hstart : Holds strict T [] [] {} :=
    { stack := fun _ => rfl
      loops := fun _ => rfl
      flags := by rintro x - (_ | _) p older ⟨⟩
      calm := by rintro p x ⟨⟩ }
  exact h.sound hT hL ⟨0, [], []⟩ _ context_initial (fun _ _ _ => id) {} t o ⟨rfl, hstart⟩ hp

end CBackend.Emission
