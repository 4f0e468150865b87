import CBackend.Proofs.Emission.Assertions

/-!
# Soundness of the pieces that run cleanups

What is to be shown of every piece that lowering writes, and the rules for the pieces in which cleanups
begin to wait, are run and are left behind.
-/

namespace CBackend.Emission

open IR Flow Monitor

variable {strict : Bool} {m : Module} {T : VarId → Prop} {γ : Exits} {sh : Shape}
  {c c' c₁ c₂ : Control} {L L' : List Step} {p : Pending} {W : Marks} {B : World → Prop} {N : Names} {ty : C.CType}
  {flag : Value} {closing : Bool} {ps : List Pending} {F : List Frame}

/-- The cleanups of a list, and those that wait in older frames, are in scope. Closing takes the ones
of the list away one by one. -/
def InScope (closing : Bool) (ps : List Pending) (F : List Frame) (c : Control) : Prop :=
  ∃ rest, (∀ p, .waiting p ∈ F → p ∈ rest) ∧
    if closing then c.scope = ps ++ rest else c.scope = rest ∧ ps ⊆ rest

/-- What holds where control is in a given state of the function and some frames are not over. -/
def During (strict : Bool) (T : VarId → Prop) (c : Control) (F : List Frame)
    (W : Marks) (w : World) : Prop :=
  c.terminated = false ∧ Holds strict T F W w

/-- The marks of loops after some cleanups on top of other frames were run. -/
def marksAfter (ps : List Pending) (F : List Frame) (W : Marks) : Marks :=
  if ps.isEmpty then W else W.touch (F.length + 1)

/-- What a piece does, by its shape. -/
def Sound (strict : Bool) (T : VarId → Prop) :
    Exits → Shape → Control → List Step → Control → Prop
  | γ, .code, c, L, c' => ∀ g B, Context strict T γ g c → Catches strict T γ g.loops c B →
      (discipline strict T).Triple (At strict T g c) L
        (post strict T γ g.loops B c'.names (At strict T g c'))
  | γ, .action p, c, L, c' => ∀ F W W' B, c.names.Sane → c.Tracks T →
      (strict = true → ∀ q, .waiting q ∈ F → q ∈ c.scope) →
      Catches strict T (γ.inCleanup strict) W' c B →
      (discipline strict T).Triple (During strict T c (.waiting p :: F) W) L
        (post strict T γ W' B c'.names (During strict T c' F (W.touch (F.length + 1))))
  | γ, .cleanups closing ps, c, L, c' => ∀ F W W' B, c.names.Sane → c.Tracks T →
      (strict = true → InScope closing ps F c) → Catches strict T (γ.inCleanup strict) W' c B →
      (discipline strict T).Triple (During strict T c (ps.map .waiting ++ F) W) L
        (post strict T γ W' B c'.names (During strict T c' F (marksAfter ps F W)))
  | γ, .chain, c, L, c' => ∀ g B, Context strict T γ g c → Catches strict T γ g.loops c B →
      (discipline strict T).Branches (At strict T g c) L
        (post strict T γ g.loops B c'.names (At strict T g c'))
  | γ, .cases, c, L, c' => (c'.terminated = true → HasDefault L) ∧
      ∀ g B, Context strict T γ g c → c.loop.inSwitch = true → (∀ w, At strict T g c' w → B w) →
        ∀ s k, isCaseLabel s = true → s :: k ∈ points 0 L →
          (discipline strict T).Branches (At strict T g c.live) k
            (post strict T γ g.loops B c'.names fun _ => False)

theorem Catches.inCleanup {W' : Marks} (h : Catches strict T γ W c B) (hloop : c'.loop.inSwitch = c.loop.inSwitch) :
    Catches strict T (γ.inCleanup strict) W' c' B := by
  intro hjumps hswitch w hw
  obtain ⟨hj, hs, -⟩ := Exits.inCleanup_jumps.1 hjumps
  subst hs
  exact h hj (hloop ▸ hswitch) w (hw.congr nofun nofun)

/-- Steps that control passes, at the end of which something holds. -/
theorem triple_steps {g : Ghost} (hplain : ∀ s ∈ L, s.isPlain = true) (hlabels : ∀ n, .line (.label n) ∉ L)
    (h : ∀ w, At strict T g c w → (discipline strict T).Legal w (L.map .passes) ∧
      At strict T g c' ((discipline strict T).after w (L.map .passes))) :
    (discipline strict T).Triple (At strict T g c) L
      (post strict T γ g.loops B N (At strict T g c')) :=
  .steps hplain hlabels h

/-- Where no cleanup has just begun, nothing is asked of flags. -/
theorem ok_of_starting {w : World} {e : Event} (h : w.starting = none) (he : e.Reachable)
    (horder : strict = true → w.Orderly e) : (discipline strict T).Ok w e :=
  ⟨he, horder, fun x _ p hp => by rw [h] at hp; cases hp⟩

/-! ### Cleanups that begin to wait -/

section

variable {g : Ghost} {x : VarId} {w : World}

/-- A cleanup clears the flag of a variable just if it was registered where the variable was moved out
of. -/
theorem Context.clears_iff (h : Context strict T γ g c) (hT : Tracked strict m T)
    (hp : p.indicator = c.indicatorOf p.cleanup) {q : Pending} {n : Nat} (hx : T x)
    (hq : .waiting q ∈ g.frames c.cleanups) (howner : q.owner = some x) (hn : q.guard? = some n) :
    p.clears? = some n ↔ p.cleanup.moved = some x := by
  rw [h.guard_eq hT hx hq howner, Control.flagOf, Option.bind_eq_some_iff] at hn
  obtain ⟨v, hv, hvn⟩ := hn
  rw [Pending.clears?, hp, Control.indicatorOf]
  constructor
  · intro hclears
    obtain ⟨v', hv', hvn'⟩ := Option.bind_eq_some_iff.1 hclears
    obtain ⟨y, hy, hlookup⟩ := Option.bind_eq_some_iff.1 hv'
    rw [hy, h.sane.distinct x y v v' hv hlookup (hvn.trans hvn'.symm)]
  · intro hmoved
    rw [hmoved, Option.bind_some, hv, Option.bind_some, hvn]

/-- A cleanup that waits is the newest one. -/
theorem Context.at_push (h : Context strict T γ g c) (hlive : c.terminated = false)
    (hw : Holds strict T (.waiting p :: g.frames c.cleanups) g.loops w) :
    At strict T g (c.push p) w :=
  ⟨hlive, hw.congr (fun hs => g.frames_append [p] (h.base hs)) fun _ => rfl⟩

theorem Sound.evaluates {cleanup : Cleanup} (hT : Tracked strict m T) (hc : OfExpr m cleanup)
    (h : ∀ x, cleanup.moved = some x → c.indicators.lookup x = none ∨ isArrayRest cleanup = true) :
    Sound strict T γ .code c [.note (.evaluates cleanup)] c := by
  intro g B hctx _
  refine .step rfl fun w hw => ⟨hw.ok trivial fun _ => trivial, hw.1, ?_⟩
  refine hw.2.frame hT.strict rfl rfl ?_ id rfl fun _ _ _ _ _ _ _ => rfl
  intro x p hx hp howner hguard
  refine if_neg fun hmoved => ?_
  obtain hnone | hrest := h x hmoved
  · rw [hctx.guard_eq hT hx hp howner, Control.flagOf, hnone] at hguard
    cases hguard
  · rw [hT.ofExpr x cleanup hx hc hmoved] at hrest
    cases hrest

theorem Sound.evaluatesWaiting (hT : Tracked strict m T) (howner : p.owner = none)
    (hclears : p.indicator = c.indicatorOf p.cleanup) :
    Sound strict T γ .code c [.note (.waits p), .note (.evaluates p.cleanup)] (c.push p) := by
  intro g B hctx _
  refine triple_steps (by simp [Step.isPlain]) (by simp) fun w hw => ⟨⟨hw.ok trivial fun _ => trivial,
    ok_of_starting rfl trivial fun _ => trivial, trivial⟩, hctx.at_push hw.1 ?_⟩
  have hmoved (x : VarId) : (if p.cleanup.moved = some x then true else w.moved x) =
      (w.moved x || decide (p.cleanup.moved = some x)) := by
    by_cases hx : p.cleanup.moved = some x <;> simp [hx]
  refine hw.2.push hT.strict rfl rfl (fun x _ => hmoved x) id rfl rfl ?_ ?_
  · intro x _ hx
    rw [howner] at hx
    cases hx
  · intro x q n hx hq howner' hn
    rw [hctx.clears_iff hT hclears hx hq howner' hn, decide_eq_true_iff]

/-- A cleanup that was declared begins to wait. -/
theorem Context.waits (h : Context strict T γ g c) (hT : Tracked strict m T)
    (hc : Declared m p.cleanup) (hclears : p.indicator = c.indicatorOf p.cleanup)
    (hself : ∀ x, T x → p.owner = some x →
      ∃ n, p.guard? = some n ∧ w.flags n = some true ∧ w.moved x = false)
    (hw : At strict T g c w) : At strict T g (c.push p) (w.next (.passes (.note (.waits p)))) := by
  have hstays (x : VarId) : w.moved x = (w.moved x || false) := (Bool.or_false _).symm
  refine h.at_push hw.1 (hw.2.push hT.strict rfl rfl (fun x _ => hstays x) id rfl rfl hself ?_)
  intro x q n hx hq howner hn
  rw [h.clears_iff hT hclears hx hq howner hn]
  exact ⟨fun hmoved => absurd hmoved (hT.declared x _ hx hc), fun hne => by cases hne⟩

theorem Sound.waits (hT : Tracked strict m T) (hc : Declared m p.cleanup)
    (howner : ∀ x, p.owner = some x → ¬ EverMoved m x)
    (hclears : p.indicator = c.indicatorOf p.cleanup) :
    Sound strict T γ .code c [.note (.waits p)] (c.push p) := by
  intro g B hctx _
  refine .step rfl fun w hw => ⟨hw.ok trivial fun _ => trivial, ?_⟩
  exact hctx.waits hT hc hclears (fun x hx hown => absurd (hT.everMoved x hx) (howner x hown)) hw

theorem Sound.declares (hT : Tracked strict m T) (hx : ¬ EverMoved m x) :
    Sound strict T γ .code c [.note (.declares x (c.holds x))] c := by
  intro g B _ _
  refine .step rfl fun w hw => ⟨hw.ok trivial fun _ => trivial, hw.1, ?_⟩
  refine hw.2.frame hT.strict rfl rfl ?_ id rfl fun _ _ _ _ _ _ _ => rfl
  rintro y p hy - - -
  refine if_neg fun heq => ?_
  subst heq
  exact hx (hT.everMoved y hy)

/-- A variable is declared with its flag. -/
theorem Context.declaresFlag (h : Context strict T γ g c) (hT : Tracked strict m T) (hagain : T x → c.holds x = false)
    (hw : At strict T g c w) :
    At strict T g (c.flagged x flag) ((w.next (.passes (.note (.declares x (c.holds x))))).next
      (.passes (.line (.declare ty c.counter (some (.nat 1)))))) := by
  refine ⟨rfl, hw.2.frame hT.strict rfl rfl ?_ id rfl ?_⟩
  · intro y p hy hp howner _
    refine if_neg fun heq => ?_
    subst heq
    exact c.owner_ne_of_not_holds (hagain hy) (h.scope (hT.strict y hy) p hp) howner
  · intro y p n hy hp howner hn
    refine flagsAfter_of_notMem w.flags (l := .declare ty c.counter (some (.nat 1))) ?_
    rw [h.guard_eq hT hy hp howner, Control.flagOf, Option.bind_eq_some_iff] at hn
    obtain ⟨v, hv, hvn⟩ := hn
    obtain ⟨i, hi, hlt⟩ := h.sane.lookup_lt hv
    obtain rfl : n = i := Option.some.inj (hvn.symm.trans hi)
    have hne : n ≠ c.counter := ne_of_lt hlt
    simpa [C.Line.locals, C.Expr.nat, C.Expr.locals] using hne

theorem Sound.declaresFlag (hT : Tracked strict m T) (hagain : T x → c.holds x = false) :
    Sound strict T γ .code c
      [.note (.declares x (c.holds x)), .line (.declare ty c.counter (some (.nat 1)))]
      (c.flagged x flag) := by
  intro g B hctx _
  refine triple_steps (by simp [Step.isPlain, C.Line.isPlain]) (by simp) fun w hw => ?_
  exact ⟨⟨hw.ok trivial fun _ => trivial, ok_of_starting rfl trivial fun _ => trivial, trivial⟩,
    hctx.declaresFlag hT hagain hw⟩

theorem Sound.declaresWaiting (hT : Tracked strict m T) (hagain : T x → c.holds x = false)
    (hflag : flag.localNumber? = some c.counter) (hc : Declared m p.cleanup) (howner : p.owner = some x)
    (hguard : p.condition = some flag) (hclears : p.indicator = (c.flagged x flag).indicatorOf p.cleanup) :
    Sound strict T γ .code c
      [.note (.declares x (c.holds x)), .line (.declare ty c.counter (some (.nat 1))),
        .note (.waits p)]
      ((c.flagged x flag).push p) := by
  intro g B hctx _
  refine triple_steps (by simp [Step.isPlain, C.Line.isPlain]) (by simp) fun w hw => ?_
  have hnext : Context strict T γ g (c.flagged x flag) :=
    ⟨hctx.sane.flagged hflag, hctx.tracks.flagged hagain, hctx.base, hctx.scope, hctx.returns,
      hctx.marks, hctx.jumps⟩
  refine ⟨⟨hw.ok trivial fun _ => trivial, ok_of_starting rfl trivial fun _ => trivial,
    ok_of_starting rfl trivial fun _ => trivial, trivial⟩, ?_⟩
  refine hnext.waits hT hc hclears (fun y _ hy => ?_) (hctx.declaresFlag hT hagain hw)
  obtain rfl : x = y := Option.some.inj (howner.symm.trans hy)
  refine ⟨c.counter, ?_, flagsAfter_of_raises w.flags rfl, if_pos rfl⟩
  rw [Pending.guard?, hguard, Option.bind_some, hflag]

end

/-! ### The code of a cleanup -/

section

variable {A : List Step} {b : Bool} {F : List Frame} {W W' : Marks} {B : World → Prop}
  {w : World}

/-- The code of a cleanup has just begun. -/
private def Begun (strict : Bool) (T : VarId → Prop) (c : Control) (p : Pending) (F : List Frame)
    (W : Marks) (w : World) : Prop :=
  ∃ w₀, During strict T c (.waiting p :: F) W w₀ ∧ w = w₀.next (.passes (.note (.starts p)))

/-- The decision on the flag of a cleanup. -/
private theorem Begun.decides (h : Begun strict T c p F W w) (hT : Tracked strict m T) {n : Nat}
    (hn : p.guard? = some n) (taken : Bool) :
    (discipline strict T).Ok w (.decides (.name (.localVar n)) taken) ∧
      During strict T c (.running p :: F) (W.touch (F.length + 1))
        (w.next (.decides (.name (.localVar n)) taken)) := by
  obtain ⟨w₀, ⟨hlive, hw₀⟩, rfl⟩ := h
  rw [next_decides_flag, next_passes_note]
  refine ⟨⟨trivial, fun _ => trivial, fun x hx q hq howner => ⟨n, taken, rfl, fun hf => ?_⟩⟩,
    hlive, ?_⟩
  · obtain rfl : p = q := Option.some.inj hq
    rw [next_decides_flag] at hf
    obtain ⟨hfeasible, hflag⟩ := Bool.and_eq_true_iff.1 hf
    obtain ⟨i, hi, hmoved⟩ := hw₀.starts hT.strict hx howner hfeasible
    obtain rfl : i = n := Option.some.inj (hi.symm.trans hn)
    change (w₀.flags i != some !taken) = true at hflag
    change taken = !w₀.moved x
    rw [hmoved] at hflag
    revert hflag
    cases taken <;> cases w₀.moved x <;> simp
  · exact hw₀.run hT.strict rfl rfl rfl (fun hf => (Bool.and_eq_true_iff.1 hf).1) rfl
      fun q x hq => by cases hq

/-- The action of a cleanup under its flag. -/
private theorem triple_guardSteps {R : World → Prop} (hT : Tracked strict m T) (hA : Nested A)
    (hguard : ∀ x, p.owner = some x → EverMoved m x → p.guard?.isSome = true) (hrun : ∀ w, p.guard?.isSome = true →
      During strict T c (.running p :: F) (W.touch (F.length + 1)) w → R w)
    (h : (discipline strict T).Triple (During strict T c (.running p :: F) (W.touch (F.length + 1))) A
      (post strict T γ W' B N R)) :
    (discipline strict T).Triple (Begun strict T c p F W) (guardSteps p A)
      (post strict T γ W' B N R) := by
  rw [guardSteps]
  cases hp : p.guard? with
  | some n =>
    refine .ifThen hA .nil (fun w hw => hw.decides hT hp true) (fun w hw => hw.decides hT hp false)
      h (.nil fun w hw => hrun w (by rw [hp]; rfl) hw)
  | none =>
    refine h.mono ?_ fun _ _ => id
    rintro _ ⟨w, ⟨hlive, hw⟩, rfl⟩
    refine ⟨hlive, hw.run hT.strict rfl rfl rfl id rfl fun q x hq howner hx => ?_⟩
    cases hq
    have hsome := hguard x howner (hT.everMoved x hx)
    rw [hp] at hsome
    cases hsome

/-- The end of the code of a cleanup. -/
private theorem triple_clearSteps (hT : Tracked strict m T) :
    (discipline strict T).Triple (During strict T c (.running p :: F) W)
      (clearSteps p ++ [.note (.finishes p)]) (post strict T γ W' B N (During strict T c F W)) := by
  rw [clearSteps]
  cases hp : p.clears? with
  | some n =>
    refine .steps (by simp [Step.isPlain, C.Line.isPlain, clearLine]) (by simp [clearLine]) fun w h => ?_
    obtain ⟨hlive, hw⟩ := h
    have hflag : World.flagsAfter w.flags (clearLine n) n = (w.flags n).map fun _ => false :=
      flagsAfter_of_clears w.flags rfl
    have hcleared : Holds strict T (.running p :: F) W (w.next (.passes (.line (clearLine n)))) := by
      rw [next_passes_line]
      refine hw.clear hT.strict hp rfl rfl rfl rfl rfl hflag fun i hi => ?_
      refine flagsAfter_of_notMem w.flags (l := clearLine n) ?_
      simpa [clearLine, C.Line.locals, C.Expr.locals, C.Expr.nat] using hi
    refine ⟨⟨hw.ok trivial fun _ => trivial, hcleared.ok trivial fun hs => ?_, trivial⟩, hlive, ?_⟩
    · rw [World.Orderly, hcleared.stack hs]; rfl
    · refine hcleared.finish hT.strict (fun i hi => ?_) rfl rfl rfl rfl rfl rfl
      obtain rfl : n = i := Option.some.inj (hp.symm.trans hi)
      change World.flagsAfter w.flags (clearLine n) n ≠ some true
      rw [hflag]
      cases w.flags n <;> simp
  | none =>
    refine .steps (by simp [Step.isPlain]) (by simp) fun w h => ?_
    obtain ⟨hlive, hw⟩ := h
    refine ⟨⟨hw.ok trivial fun hs => ?_, trivial⟩, hlive, ?_⟩
    · rw [World.Orderly, hw.stack hs]; rfl
    · exact hw.finish hT.strict (fun i hi => by rw [hp] at hi; cases hi) rfl rfl rfl rfl rfl rfl

end

theorem Sound.action {A : List Step} {b : Bool} (hT : Tracked strict m T)
    (hA : Emits strict m (γ.inCleanup strict) .code c A c₁) (hbal : c₁.cleanups = c.cleanups)
    (hguard : ∀ x, p.owner = some x → EverMoved m x → p.guard?.isSome = true)
    (hb : b = true → c₁.terminated = true ∧ p.guard? = none ∧ p.clears? = none)
    (ih : Sound strict T (γ.inCleanup strict) .code c A c₁) :
    Sound strict T γ (.action p) c
      (.note (.starts p) :: (guardSteps p A ++ clearSteps p ++ [.note (.finishes p)]))
      { c₁ with terminated := b } := by
  intro F W W' B hsane htracks hscope hcatch
  -- the code of the cleanup sees the cleanup itself and everything older as set aside
  let g : Ghost := ⟨c.cleanups.length, .running p :: F, W.touch (F.length + 1)⟩
  have hframes : g.frames c.cleanups = .running p :: F := g.frames_length rfl
  have hctx : Context strict T (γ.inCleanup strict) g c := by
    refine ⟨hsane, htracks, fun _ => le_rfl, fun hs q hq => ?_, fun hs hr => ?_, fun _ => ?_,
      fun hs hj => ?_⟩
    · rw [hframes] at hq
      exact hscope hs q (by simpa using hq)
    · exact Bool.noConfusion (hs.symm.trans (Exits.inCleanup_returns.1 hr).2)
    · rw [hframes]; exact (W.touch_below F.length).mono (Nat.le_succ _)
    · exact Bool.noConfusion (hs.symm.trans (Exits.inCleanup_jumps.1 hj).2.1)
  have hcatch' : Catches strict T (γ.inCleanup strict) g.loops c B := by
    intro hj hswitch w hw
    obtain ⟨-, hs, -⟩ := Exits.inCleanup_jumps.1 hj
    subst hs
    exact hcatch hj hswitch w (hw.congr (absurd · Bool.false_ne_true) (absurd · Bool.false_ne_true))
  have hbody : (discipline strict T).Triple
      (During strict T c (.running p :: F) (W.touch (F.length + 1))) A
      (post strict T γ W' B c₁.names
        (During strict T { c₁ with terminated := b } (.running p :: F) (W.touch (F.length + 1)))) := by
    refine (ih g B hctx hcatch').mono (fun w hw => ⟨hw.1, hframes ▸ hw.2⟩) fun o w ho => ?_
    refine post_inCleanup (post_mono (fun w' hw' => ⟨?_, ?_⟩) (fun _ => id) ho)
    · by_contra hne
      exact Bool.false_ne_true (hw'.1.symm.trans (hb (Bool.of_not_eq_false hne)).1)
    · rw [← hframes, ← hbal]; exact hw'.2
  have hrun : ∀ w, p.guard?.isSome = true →
      During strict T c (.running p :: F) (W.touch (F.length + 1)) w →
      During strict T { c₁ with terminated := b } (.running p :: F) (W.touch (F.length + 1)) w := by
    intro w hsome hw
    refine ⟨?_, hw.2⟩
    by_contra hne
    rw [(hb (Bool.of_not_eq_false hne)).2.1] at hsome
    cases hsome
  have hquiet : Quiet (clearSteps p ++ [.note (.finishes p)]) := fun n => by simp
  have helse : ¬ StartsElse (guardSteps p A ++ (clearSteps p ++ [.note (.finishes p)])) := by
    refine not_startsElse_append ?_ (not_startsElse_append ?_ Bool.false_ne_true)
    · rw [guardSteps]; split
      · exact Bool.false_ne_true
      · exact hA.laid.2
    · rw [clearSteps]; split
      · exact Bool.false_ne_true
      · exact id
  have helse' : ¬ StartsElse (clearSteps p ++ [.note (.finishes p)]) := by
    rw [clearSteps]; split <;> exact Bool.false_ne_true
  rw [List.append_assoc]
  refine .note (R := Begun strict T c p F W) helse (fun w hw => ⟨hw.2.ok trivial fun hs => ?_, w, hw, rfl⟩) ?_
  · rw [World.Orderly, hw.2.stack hs]; rfl
  · exact .seq_of_quiet (nested_guardSteps p hA.laid.1) helse' hquiet
      (triple_guardSteps hT hA.laid.1 hguard hrun hbody) (triple_clearSteps hT)

/-! ### Cleanups one after the other -/

theorem InScope.head (h : InScope closing (p :: ps) F c) (q : Pending) (hq : .waiting q ∈ ps.map .waiting ++ F) :
    q ∈ (c.reached closing).scope := by
  obtain ⟨rest, hF, hscope⟩ := h
  obtain hq | hq := List.mem_append.1 hq
  · have hq : q ∈ ps := by simpa using hq
    cases closing with
    | true => simp [Control.reached, show c.scope = p :: ps ++ rest from hscope, hq]
    | false => exact hscope.1 ▸ hscope.2 (List.mem_cons_of_mem _ hq)
  · cases closing with
    | true => simp [Control.reached, show c.scope = p :: ps ++ rest from hscope, hF q hq]
    | false => exact hscope.1 ▸ hF q hq

theorem InScope.tail (h : InScope closing (p :: ps) F c) (hscope : c'.scope = (c.reached closing).scope) :
    InScope closing ps F c' := by
  obtain ⟨rest, hF, heq⟩ := h
  refine ⟨rest, hF, ?_⟩
  cases closing with
  | true =>
    rw [hscope, Control.reached, show c.scope = p :: ps ++ rest from heq]
    rfl
  | false => exact ⟨hscope.trans heq.1, List.Subset.trans (List.subset_cons_self _ _) heq.2⟩

theorem marksAfter_cons (p : Pending) (ps : List Pending) (F : List Frame) (W : Marks) :
    marksAfter ps F (W.touch ((ps.map Frame.waiting ++ F).length + 1)) = marksAfter (p :: ps) F W := by
  cases ps with
  | nil => rfl
  | cons q ps => exact W.touch_touch (by simp; omega)

theorem marksAfter_eq (h : W.Below F.length) (ps : List Pending) : marksAfter ps F W = W := by
  rw [marksAfter]
  split
  · rfl
  · exact h.touch_eq

theorem Sound.cleanupsCons (hT : Tracked strict m T) (h₁ : Emits strict m γ (.action p) (c.reached closing) L c₁)
    (h₂ : Emits strict m γ (.cleanups closing ps) c₁ L' c₂) (hL : NoneTwice T L)
    (ih₁ : Sound strict T γ (.action p) (c.reached closing) L c₁)
    (ih₂ : Sound strict T γ (.cleanups closing ps) c₁ L' c₂) :
    Sound strict T γ (.cleanups closing (p :: ps)) c (L ++ L') c₂ := by
  intro F W W' B hsane htracks hscope hcatch
  have htracks' : (c.reached closing).Tracks T :=
    htracks.of_subset (c.reached_scope_subset closing) rfl
  have hhead := ih₁ (ps.map .waiting ++ F) W W' B hsane htracks'
    (fun hs => (hscope hs).head) (hcatch ·)
  have htail := ih₂ F (W.touch ((ps.map Frame.waiting ++ F).length + 1)) W' B (h₁.sane hsane)
    (h₁.tracks hT htracks' hL) (fun hs => (hscope hs).tail h₁.balanced.2)
    fun hj hswitch => hcatch hj (h₁.grown.inSwitch.symm.trans hswitch)
  rw [marksAfter_cons p] at htail
  exact h₁.seq h₂ rfl hsane h₁.laid.1 h₂.laid.2 hhead htail

/-! ### Where cleanups come to be run -/

section

variable {g : Ghost} {w : World}

/-- The cleanups that wait in the older frames of a piece are in scope, and so are its own. -/
theorem Context.inScope (h : Context strict T γ g c) (hs : strict = true)
    (hframes : g.frames c.cleanups = ps.map .waiting ++ F) :
    InScope false ps F c := by
  have hscope := h.scope hs
  rw [hframes] at hscope
  refine ⟨c.scope, fun p hp => hscope p (List.mem_append_right _ hp), rfl, fun p hp => ?_⟩
  exact hscope p (List.mem_append_left _ (List.mem_map_of_mem hp))

theorem Sound.returns {e : Option C.Expr} (hγ : γ.returns = true)
    (h : Emits strict m γ (.cleanups false c.cleanups) c L c')
    (ih : Sound strict T γ (.cleanups false c.cleanups) c L c') :
    Sound strict T γ .code c (L ++ [.line (.returnWith e), .note .ends]) c'.dead := by
  intro g B hctx hcatch
  have hframes (hs : strict = true) : g.frames c.cleanups = c.cleanups.map .waiting ++ [] := by
    obtain ⟨hbase, hbelow⟩ := hctx.returns hs hγ
    rw [Ghost.frames, hbase, hbelow, Nat.sub_zero, List.take_length]
  have hrun := ih [] g.loops g.loops B hctx.sane hctx.tracks (fun hs => hctx.inScope hs (hframes hs))
    (hcatch.inCleanup rfl)
  refine .seq_of_quiet h.laid.1 Bool.false_ne_true (fun n => by simp)
    (hrun.mono (fun w hw => ⟨hw.1, hw.2.congr (fun hs => (hframes hs).symm) fun _ => rfl⟩)
      fun _ _ => id) ?_
  exact .exit rfl fun w hw => ⟨hw.2.ok trivial fun _ => trivial, fun hs => ⟨hγ, hw.2.stack hs⟩⟩

/-- The frames of the cleanups that wait inside the innermost loop. -/
theorem Context.frames_loopCleanups (h : Context strict T γ g c) (hs : strict = true)
    (hγ : γ.jumps = true) :
    g.frames c.cleanups = c.loopCleanups.map .waiting ++ g.loops.exit := by
  obtain ⟨hbase, hle, heq, -⟩ := h.jumps hs hγ
  rw [Marks.exit, heq, Option.getD_some, ← g.frames_append, Control.loopCleanups,
    List.take_append_drop]
  rw [List.length_drop]
  omega

/-- Where the innermost loop is left, a line leaves it. -/
theorem Leaves.triple {exit : LoopExit} {l : C.Line} {Q : World → Prop} (h : Leaves exit c l c') (hγ : γ.jumps = true)
    (hT : Tracked strict m T) (hcatch : Catches strict T γ W c B) :
    (discipline strict T).Triple (AtExit strict T W) [.line l, .note .ends]
      (post strict T γ W B c'.names Q) := by
  have next (w : World) (hw : AtExit strict T W w) (hl : l.locals = []) :
      AtExit strict T W (w.next (.passes (.line l))) :=
    hw.passes hT (hl ▸ Apart.nil)
  cases h with
  | breakOut hswitch =>
    exact .exit rfl fun w hw => ⟨hw.ok trivial fun _ => trivial, hcatch hγ hswitch _ (next w hw rfl)⟩
  | continueLoop =>
    exact .exit rfl fun w hw => ⟨hw.ok trivial fun _ => trivial, hγ, next w hw rfl⟩
  | breakTo | breakToNew | continueAt | continueAtNew =>
    exact .exit rfl fun w hw => ⟨hw.ok trivial fun _ => trivial, fun _ => ⟨hγ, next w hw rfl⟩⟩

theorem Sound.exits {exit : LoopExit} {l : C.Line} (hT : Tracked strict m T) (hγ : γ.jumps = true)
    (h : Emits strict m γ (.cleanups false c.loopCleanups) c L c₁) (hl : Leaves exit c₁ l c₂)
    (ih : Sound strict T γ (.cleanups false c.loopCleanups) c L c₁) :
    Sound strict T γ .code c (L ++ [.note (.exitsLoop exit), .line l, .note .ends]) c₂.dead := by
  intro g B hctx hcatch
  have hframes (hs : strict = true) := hctx.frames_loopCleanups hs hγ
  have hrun := ih g.loops.exit g.loops g.loops B hctx.sane hctx.tracks
    (fun hs => hctx.inScope hs (hframes hs)) (hcatch.inCleanup rfl)
  have hlabels : ∀ n, Step.line (.label n) ∉ [.note (.exitsLoop exit), .line l, .note .ends] := by
    intro n hn
    obtain rfl : C.Line.label n = l := by simpa using hn
    exact hl.not_label
  have hback : Separate [.note (.exitsLoop exit), .line l, .note .ends] L := by
    intro n hgoto hlabel
    obtain rfl : C.Line.goto n = l := by simpa using hgoto
    obtain ⟨⟨-, hlt⟩, hno⟩ := h.label_mem hctx.sane hlabel
    obtain hn | ⟨hle, -⟩ := hl.grown.hasLabel_or hl.goto_hasLabel
    · exact hno hn
    · exact absurd hlt (not_lt.2 hle)
  refine .seq h.laid.1 nofun (fun n _ => hlabels n) hback (fun n _ => hlabels n)
    (h.later hl.grown (hrun.mono (fun w hw => ⟨hw.1, ?_⟩) fun _ _ => id)) ?_
  · exact hw.2.congr (fun hs => (hframes hs).symm) fun _ => rfl
  · refine .note (R := AtExit strict T g.loops) (by cases hl <;> exact nofun)
      (fun w hw => ⟨hw.2.ok trivial fun hs => ?_, ?_⟩)
      (hl.triple hγ hT fun hj hswitch => hcatch hj (h.grown.inSwitch.symm.trans hswitch))
    · obtain ⟨-, -, heq, hbelow⟩ := hctx.jumps hs hγ
      rw [World.Orderly, hw.2.stack hs, hw.2.loops hs, marksAfter_eq hbelow, Marks.exit, heq]
      rfl
    · have hexit := hw.2.congr (fun _ => rfl) fun hs =>
        (marksAfter_eq (hctx.jumps hs hγ).2.2.2 c.loopCleanups).symm
      exact hexit.frame hT.strict rfl rfl (fun _ _ _ _ _ _ => rfl) id rfl fun _ _ _ _ _ _ _ => rfl

theorem Sound.leaves (hT : Tracked strict m T) (hγ : γ.jumps = true)
    (hbase : c.cleanups.length = c.loop.cleanupBase) (hswitch : c.loop.inSwitch = false) :
    Sound strict T γ .code c [.line .breakOut, .note .ends] c.dead := by
  intro g B hctx hcatch
  refine ((Leaves.breakOut hswitch).triple hγ hT hcatch).mono (fun w hw => ?_) fun _ _ => id
  refine hw.2.congr (fun hs => ?_) fun _ => rfl
  rw [hctx.frames_loopCleanups hs hγ, Control.loopCleanups, hbase, Nat.sub_self]
  rfl

theorem Sound.closes (hT : Tracked strict m T) (h₁ : Emits strict m γ .code c L c₁)
    (hps : c₁.cleanups = ps ++ c.cleanups)
    (h₂ : Emits strict m γ (.cleanups true ps) { c₁ with cleanups := c.cleanups } L' c₂) (hL : NoneTwice T L)
    (ih₁ : Sound strict T γ .code c L c₁)
    (ih₂ : Sound strict T γ (.cleanups true ps) { c₁ with cleanups := c.cleanups } L' c₂) :
    Sound strict T γ .code c (L ++ L') c₂ := by
  intro g B hctx hcatch
  have hnext := hctx.next hT h₁ hL
  have hscope : c₁.scope = ps ++ c.scope := by
    obtain ⟨top, htop, hscope⟩ := h₁.balanced
    obtain rfl : ps = top := List.append_cancel_right (hps.symm.trans htop)
    exact hscope
  have hclose := ih₂ (g.frames c.cleanups) g.loops g.loops B hnext.sane hnext.tracks
    (fun hs => ⟨c.scope, hctx.scope hs, hscope⟩) (hcatch.inCleanup h₁.grown.inSwitch)
  refine h₁.seq h₂ rfl hctx.sane h₁.laid.1 h₂.laid.2 (ih₁ g B hctx hcatch)
    (hclose.mono (fun w hw => ⟨hw.1, hw.2.congr (fun hs => ?_) fun _ => rfl⟩)
      fun o w => post_mono (fun w hw => ?_) fun _ => id)
  · rw [hps, g.frames_append ps (hctx.base hs)]
  · refine ⟨hw.1, hw.2.congr (fun _ => congrArg g.frames h₂.balanced.1) fun hs => ?_⟩
    rw [marksAfter_eq (hctx.marks hs)]

end

end CBackend.Emission
