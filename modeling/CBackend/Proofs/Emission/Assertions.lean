import CBackend.Proofs.Emission.Tracking

/-!
# What holds along the pieces of a body

The assertions of the path logic that belong to the pieces that lowering writes. A piece is looked at
with the cleanups that were waiting when the cleanup around it began set aside, and with the cleanups
that were waiting when each loop around it was entered.
-/

namespace CBackend.Emission

open IR Flow Monitor

variable {strict : Bool} {m : Module} {T : VarId → Prop} {γ : Exits} {sh : Shape}
  {c c' : Control} {L : List Step} {F F' : List Frame} {W W' : Marks} {w : World} {l : C.Line} {n : Nat}

/-! ### Single events -/

theorem raises?_mem (h : l.raises? = some n) : n ∈ l.locals := by
  unfold C.Line.raises? at h
  split at h
  · cases h; exact List.mem_cons_self
  · cases h

theorem clears?_mem (h : l.clears? = some n) : n ∈ l.locals := by
  unfold C.Line.clears? at h
  split at h
  · unfold C.Expr.clears? at h
    split at h
    · cases h; simp [C.Line.locals, C.Expr.locals]
    · cases h
  · cases h

theorem flagsAfter_of_notMem (flags : Nat → Option Bool) (hn : n ∉ l.locals) :
    World.flagsAfter flags l n = flags n := by
  rw [World.flagsAfter, if_neg fun h => hn (raises?_mem h), if_neg fun h => hn (clears?_mem h),
    if_neg hn]

theorem flagsAfter_of_raises (flags : Nat → Option Bool) (hn : l.raises? = some n) :
    World.flagsAfter flags l n = some true :=
  if_pos hn

theorem flagsAfter_of_clears (flags : Nat → Option Bool) (hn : l.clears? = some n) :
    World.flagsAfter flags l n = (flags n).map fun _ => false := by
  have hraises : l.raises? = none := by
    unfold C.Line.clears? at hn
    split at hn
    · rfl
    · cases hn
  rw [World.flagsAfter, hraises, if_neg nofun, if_pos hn]

theorem next_passes_line (w : World) (l : C.Line) : w.next (.passes (.line l)) =
    { w with flags := World.flagsAfter w.flags l, starting := none } := rfl

theorem next_passes_note (w : World) (n : Note) : w.next (.passes (.note n)) =
    { w.afterNote n with starting := World.startedBy (.passes (.note n)) } := rfl

theorem next_decides_flag (w : World) (n : Nat) (b : Bool) :
    w.next (.decides (.name (.localVar n)) b) =
      { w with feasible := w.feasible && w.flags n != some (!b), starting := none } := rfl

/-- What a decision leaves as it is. -/
theorem afterDecision_frame (w : World) (e : C.Expr) (b : Bool) :
    (w.afterDecision e b).stack = w.stack ∧ (w.afterDecision e b).loops = w.loops ∧
      (w.afterDecision e b).moved = w.moved ∧
      ((w.afterDecision e b).feasible = true → w.feasible = true) ∧
      ∀ n, n ∉ e.locals → (w.afterDecision e b).flags n = w.flags n := by
  unfold World.afterDecision
  split
  · exact ⟨rfl, rfl, rfl, fun hf => (Bool.and_eq_true_iff.1 hf).1, fun _ _ => rfl⟩
  · exact ⟨rfl, rfl, rfl, id, fun n hn => if_neg hn⟩

namespace Holds

/-- Without an order to keep, nothing depends on the frames. -/
theorem congr (h : Holds strict T F W w) (hF : strict = true → F' = F)
    (hW : strict = true → W' = W) : Holds strict T F' W' w :=
  ⟨fun hs => (h.stack hs).trans (hF hs).symm, fun hs => (h.loops hs).trans (hW hs).symm, h.flags,
    h.calm⟩

/-- Control passes a line that mentions no flag of a waiting cleanup. -/
theorem passes (h : Holds strict T F W w) (hT : Tracked strict m T) (hl : Apart T F l.locals) :
    Holds strict T F W (w.next (.passes (.line l))) := by
  refine h.frame hT.strict rfl rfl (fun _ _ _ _ _ _ => rfl) id rfl ?_
  intro x p n hx hp howner hn
  exact flagsAfter_of_notMem w.flags (hl x p n hx hp howner hn)

/-- A condition that mentions no flag of a waiting cleanup is decided. -/
theorem decides {e : C.Expr} (h : Holds strict T F W w) (hT : Tracked strict m T)
    (he : Apart T F e.locals) (b : Bool) : Holds strict T F W (w.next (.decides e b)) := by
  obtain ⟨hstack, hloops, hmoved, hfeasible, hflags⟩ := afterDecision_frame w e b
  refine h.frame hT.strict hstack hloops (fun x _ _ _ _ _ => congrFun hmoved x) hfeasible rfl ?_
  intro x p n hx hp howner hn
  exact hflags n (he x p n hx hp howner hn)

end Holds

/-! ### Around a piece -/

/-- What is around a piece. -/
structure Ghost where
  /-- How many of the waiting cleanups were waiting when the cleanup around began. -/
  base : Nat
  /-- The frames of that time. -/
  below : List Frame
  /-- For each loop around, the frames of the time when it was entered. -/
  loops : Marks

/-- The frames that belong to some waiting cleanups. -/
def Ghost.frames (g : Ghost) (cleanups : List Pending) : List Frame :=
  (cleanups.take (cleanups.length - g.base)).map .waiting ++ g.below

theorem Ghost.frames_append (g : Ghost) (ps : List Pending) {cleanups : List Pending}
    (h : g.base ≤ cleanups.length) :
    g.frames (ps ++ cleanups) = ps.map .waiting ++ g.frames cleanups := by
  have hlen : (ps ++ cleanups).length - g.base = ps.length + (cleanups.length - g.base) := by
    rw [List.length_append]; omega
  rw [frames, hlen, List.take_length_add_append, List.map_append, List.append_assoc, frames]

theorem Ghost.frames_length (g : Ghost) {cleanups : List Pending} (h : g.base = cleanups.length) :
    g.frames cleanups = g.below := by
  rw [frames, h, Nat.sub_self]
  rfl

/-- What holds where control is in a given state of the function. -/
def At (strict : Bool) (T : VarId → Prop) (g : Ghost) (c : Control) (w : World) : Prop :=
  c.terminated = false ∧ Holds strict T (g.frames c.cleanups) g.loops w

/-- What holds where the innermost loop is left. -/
def AtExit (strict : Bool) (T : VarId → Prop) (loops : Marks) (w : World) : Prop :=
  Holds strict T loops.exit loops w

/-- How a state of the function fits what is around. -/
structure Context (strict : Bool) (T : VarId → Prop) (γ : Exits) (g : Ghost) (c : Control) :
    Prop where
  sane : c.names.Sane
  tracks : c.Tracks T
  base : strict = true → g.base ≤ c.cleanups.length
  scope : strict = true → ∀ p, .waiting p ∈ g.frames c.cleanups → p ∈ c.scope
  returns : strict = true → γ.returns = true → g.base = 0 ∧ g.below = []
  marks : strict = true → g.loops.Below (g.frames c.cleanups).length
  jumps : strict = true → γ.jumps = true → g.base ≤ c.loop.cleanupBase ∧
    c.loop.cleanupBase ≤ c.cleanups.length ∧
    g.loops.headD (some []) =
      some (g.frames (c.cleanups.drop (c.cleanups.length - c.loop.cleanupBase))) ∧
    g.loops.Below g.loops.exit.length

/-- A `break` outside of switches leaves the innermost loop. -/
def Catches (strict : Bool) (T : VarId → Prop) (γ : Exits) (loops : Marks) (c : Control)
    (B : World → Prop) : Prop :=
  γ.jumps = true → c.loop.inSwitch = false → ∀ w, AtExit strict T loops w → B w

/-- What holds at the ends of a piece. -/
def post (strict : Bool) (T : VarId → Prop) (γ : Exits) (loops : Marks)
    (B : World → Prop) (names : Names) (falls : World → Prop) : Post World where
  falls := falls
  breaks := B
  continues w := γ.jumps = true ∧ AtExit strict T loops w
  jumps n w := names.HasLabel n → γ.jumps = true ∧ AtExit strict T loops w
  returns w := strict = true → γ.returns = true ∧ w.stack = []

variable {g : Ghost} {B B' : World → Prop} {P Q R : World → Prop} {N : Names}

theorem At.holds (h : At strict T g c w) : Holds strict T (g.frames c.cleanups) g.loops w :=
  h.2

theorem At.ok {e : Event} (h : At strict T g c w) (he : e.Reachable)
    (horder : strict = true → w.Orderly e) : (discipline strict T).Ok w e :=
  h.2.ok he horder

/-- What holds may be said of another state with the same cleanups. -/
theorem At.congr (h : At strict T g c w) (hc : c'.cleanups = c.cleanups)
    (ht : c'.terminated = false) : At strict T g c' w :=
  ⟨ht, hc ▸ h.2⟩

namespace Context

variable (h : Context strict T γ g c)
include h

/-- The same state as far as a piece depends on it. -/
theorem congr (hcleanups : c'.cleanups = c.cleanups) (hscope : c'.scope = c.scope)
    (hnames : c'.names = c.names) : Context strict T γ g c' := by
  obtain ⟨hcounter, hindicators, hloop⟩ := Names.mk.inj hnames
  refine ⟨hnames ▸ h.sane, ?_, hcleanups ▸ h.base, ?_, h.returns, hcleanups ▸ h.marks, ?_⟩
  · exact h.tracks.of_subset (by rw [hscope]; exact List.Subset.refl _) hindicators
  · rw [hcleanups, hscope]; exact h.scope
  · rw [hloop, hcleanups]; exact h.jumps

/-- The state after statements. -/
theorem next (hT : Tracked strict m T) (he : Emits strict m γ .code c L c') (hL : NoneTwice T L) :
    Context strict T γ g c' := by
  obtain ⟨top, hcleanups, hscope⟩ := he.balanced
  refine ⟨he.sane h.sane, he.tracks hT h.tracks hL, fun hs => ?_, fun hs p hp => ?_, h.returns,
    fun hs => ?_, fun hs hj => ?_⟩
  · have := h.base hs
    rw [hcleanups, List.length_append]
    omega
  · rw [hcleanups, g.frames_append top (h.base hs), List.mem_append] at hp
    rw [hscope, List.mem_append]
    refine hp.imp (fun hp => ?_) (h.scope hs p)
    simpa using hp
  · rw [hcleanups, g.frames_append top (h.base hs), List.length_append]
    exact (h.marks hs).mono (Nat.le_add_left _ _)
  · obtain ⟨hbase, hle, heq, hbelow⟩ := h.jumps hs hj
    have hsame : c'.loop.cleanupBase = c.loop.cleanupBase := he.grown.cleanupBase
    rw [hsame, hcleanups, List.length_append]
    refine ⟨hbase, by omega, ?_, hbelow⟩
    have hdrop : top.length + c.cleanups.length - c.loop.cleanupBase =
        top.length + (c.cleanups.length - c.loop.cleanupBase) := by omega
    rw [heq, hdrop, List.drop_length_add_append]

/-- The flag of a waiting cleanup is in the table. -/
theorem guard_eq {x : VarId} {p : Pending} (hT : Tracked strict m T) (hx : T x)
    (hp : .waiting p ∈ g.frames c.cleanups) (howner : p.owner = some x) : p.guard? = c.flagOf x :=
  h.tracks x hx p (h.scope (hT.strict x hx) p hp) howner

/-- The flags of waiting cleanups are not mentioned. -/
theorem apart (hT : Tracked strict m T) {ns : List Nat} (hns : c.Fits ns) :
    Apart T (g.frames c.cleanups) ns := by
  intro x p n hx hp howner hn hmem
  rw [h.guard_eq hT hx hp howner, Control.flagOf, Option.bind_eq_some_iff] at hn
  obtain ⟨v, hv, hvn⟩ := hn
  obtain ⟨l₁, l₂, heq, -⟩ := List.lookup_eq_some_iff.1 hv
  exact (hns n hmem).2 (x, v) (by simp [heq]) hvn

end Context

theorem Apart.nil : Apart T F [] :=
  fun _ _ _ _ _ _ _ => List.not_mem_nil

/-! ### Ends -/

/-- What may be weakened at the ends of a piece. -/
theorem post_mono (hQ : ∀ w, P w → Q w) (hB : ∀ w, B w → B' w) {o : Outcome} {w : World}
    (h : (post strict T γ W B N P).Holds o w) : (post strict T γ W B' N Q).Holds o w := by
  cases o with
  | falls => exact hQ w h
  | breaks => exact hB w h
  | _ => exact h

/-- A cleanup has no other exits than the code around it, to which the marks of loops do not
matter. -/
theorem post_inCleanup {o : Outcome} {w : World}
    (h : (post strict T (γ.inCleanup strict) W B N Q).Holds o w) :
    (post strict T γ W' B N Q).Holds o w := by
  have hexit {w : World} (h : (γ.inCleanup strict).jumps = true ∧ AtExit strict T W w) :
      γ.jumps = true ∧ AtExit strict T W' w := by
    obtain ⟨hj, hs, -⟩ := Exits.inCleanup_jumps.1 h.1
    subst hs
    exact ⟨hj, h.2.congr nofun nofun⟩
  cases o with
  | continues => exact hexit h
  | jumps n => exact fun hn => hexit (h hn)
  | returns => exact fun hs => ⟨(Exits.inCleanup_returns.1 (h hs).1).1, (h hs).2⟩
  | _ => exact h

/-- What holds at the ends, said with the labels that the innermost loop has later. -/
theorem Emits.later {γ₁ : Exits} (h : Emits strict m γ₁ sh c L c') (hg : Grown c'.names N)
    (ht : (discipline strict T).Triple P L (post strict T γ W B c'.names Q)) :
    (discipline strict T).Triple P L (post strict T γ W B N Q) := by
  refine ht.mono_mem fun o w hgoto hw => ?_
  cases o with
  | jumps n => exact fun hn => hw (h.hasLabel_of_goto hg (hgoto n rfl) hn)
  | _ => exact hw

/-- A piece after another. -/
theorem Emits.seq {c₁ c₁' c₂ : Control} {L₁ L₂ : List Step} {γ₁ γ₂ : Exits} {sh₁ sh₂ : Shape}
    (h₁ : Emits strict m γ₁ sh₁ c L₁ c₁) (h₂ : Emits strict m γ₂ sh₂ c₁' L₂ c₂)
    (heq : c₁'.names = c₁.names) (hc : c.names.Sane) (hL₁ : Nested L₁) (hL₂ : ¬ StartsElse L₂)
    (ht₁ : (discipline strict T).Triple P L₁ (post strict T γ W B c₁.names R))
    (ht₂ : (discipline strict T).Triple R L₂ (post strict T γ W B c₂.names Q)) :
    (discipline strict T).Triple P (L₁ ++ L₂) (post strict T γ W B c₂.names Q) :=
  .seq hL₁ hL₂ (h₁.separate h₂ heq hc) (h₁.separate_back h₂ heq hc) (h₁.labels_disjoint h₂ heq hc)
    (h₁.later (heq ▸ h₂.grown) ht₁) ht₂

end CBackend.Emission
