import CBackend.Lowering.Declarations
import CBackend.Proofs.Emission.Static
import CBackend.Proofs.Lowering.Mentions
import CBackend.Proofs.Lowering.Nodes
import CBackend.Proofs.Lowering.Runs

/-!
# How drafts grow

What lowering does to a draft: it adds steps to the body that is being written, as `Emits` describes
them, and changes nothing else that the body depends on. Values that could be used before can be used
after.
-/

namespace CBackend

open IR Flow Emission
open C (CType)

variable {α : Type} {d d' : Draft} {a : α}

/-! ### Results that may be used -/

/-- What the next step of a body depends on. -/
def FunctionDraft.control (f : FunctionDraft) : Control where
  cleanups := f.cleanups
  scope := f.scope
  loop := f.loop
  terminated := f.terminated
  indicators := f.indicators
  counter := f.counter

@[simp]
theorem FunctionDraft.control_terminated (f : FunctionDraft) : f.control.terminated = f.terminated :=
  rfl

/-- A result may be used: it mentions no flag, and only local variables that there are. -/
def Fits {α : Type} [Mentions α] (d : Draft) (a : α) : Prop :=
  d.func.control.Fits (Mentions.locals a)

/-- What may be used in one draft may be used in another. -/
def Retains (d d' : Draft) : Prop :=
  ∀ ns, d.func.control.Fits ns → d'.func.control.Fits ns

theorem Retains.fits [Mentions α] (h : Retains d d') (ha : Fits d a) : Fits d' a :=
  h _ ha

theorem Retains.refl (d : Draft) : Retains d d :=
  fun _ h => h

theorem Retains.trans {d₁ d₂ : Draft} (h : Retains d d₁) (h' : Retains d₁ d₂) : Retains d d₂ :=
  fun ns hns => h' ns (h ns hns)

namespace Fits

variable {α β : Type} [Mentions α] [Mentions β] {d : Draft} {a : α} {b : β} {as : List α}

theorem of_subset (h : Fits d a) (hsub : Mentions.locals b ⊆ Mentions.locals a) : Fits d b :=
  Within.of_subset h hsub

theorem of_nil (h : Mentions.locals a = []) : Fits d a :=
  Within.of_nil (S := d.func.control.Owns) h

theorem fst (h : Fits d (a, b)) : Fits d a :=
  Within.fst h

theorem snd (h : Fits d (a, b)) : Fits d b :=
  Within.snd h

theorem prod (ha : Fits d a) (hb : Fits d b) : Fits d (a, b) :=
  Within.prod ha hb

theorem none : Fits d (Option.none : Option α) :=
  of_nil rfl

theorem some (h : Fits d a) : Fits d (Option.some a) :=
  h

theorem of_mem (h : Fits d as) (ha : a ∈ as) : Fits d a :=
  Within.of_mem h ha

theorem list (h : ∀ a ∈ as, Fits d a) : Fits d as :=
  Within.list h

theorem nil : Fits d ([] : List α) :=
  of_nil rfl

theorem cons (ha : Fits d a) (has : Fits d as) : Fits d (a :: as) :=
  Within.cons ha has

end Fits

/-! ### Well-made drafts -/

theorem mem_of_lookup_eq_some {β : Type} [BEq α] [LawfulBEq α] {b : β} {l : List (α × β)} (h : l.lookup a = some b) :
    (a, b) ∈ l := by
  obtain ⟨l₁, l₂, rfl, -⟩ := List.lookup_eq_some_iff.1 h
  exact List.mem_append_right _ List.mem_cons_self

/-- The flag of a variable: the local variable with a number as such. -/
def IsFlag (v : Value) (n : Nat) : Prop :=
  ∃ id ty, v = ⟨some ⟨id, .name (.localVar n)⟩, { isVariable := true }, .atom, ty⟩

instance : Mentions Pending :=
  ⟨fun p => Mentions.locals p.value ++ Mentions.locals p.movedElement⟩

/-- A cleanup of a module, with the flags that it needs. -/
structure PendingMade (m : Module) (p : Pending) : Prop where
  condition : ∀ v, p.condition = some v → ∃ n, IsFlag v n
  indicator : ∀ v, p.indicator = some v → ∃ n, IsFlag v n
  guarded : ∀ x, p.owner = some x → EverMoved m x → p.condition.isSome = true
  ofModule : OfExpr m p.cleanup ∨ Declared m p.cleanup
  reached : ∀ call ∈ p.cleanup.call?, m.Reached (.expr call)

/-- What is named outside of functions mentions no local variables. -/
def Outside (d : Draft) : Prop :=
  (∀ entry ∈ d.globals, Mentions.locals entry.2 = []) ∧
    ∀ entry ∈ d.functions, Mentions.locals entry.2 = []

/-- Whether, after the steps so far, control is said not to get past the last line. -/
def endsNoted (steps : List Step) : Bool :=
  steps.foldl (fun
    | _, .line _ => false
    | _, .note .ends => true
    | b, .note _ => b) false

/-- The values that a draft holds may be used, and its cleanups are those of the module. -/
structure WellMade (m : Module) (d : Draft) : Prop where
  locals : ∀ entry ∈ d.func.locals, Fits d entry.2
  bindings : ∀ v ∈ d.func.bindings, Fits d v
  returnAddress : Fits d d.func.returnAddress
  outside : Outside d
  cleanups : ∀ p ∈ d.func.cleanups, PendingMade m p ∧ Fits d p
  indicators : ∀ entry ∈ d.func.indicators, ∃ n, IsFlag entry.2 n ∧ n < d.func.counter
  terminated : d.func.terminated = endsNoted d.func.steps.toList

theorem Fits.congr [Mentions α] (h : Fits d a) (hindicators : d'.func.indicators = d.func.indicators)
    (hcounter : d.func.counter ≤ d'.func.counter) : Fits d' a := by
  intro n hn
  obtain ⟨hlt, hflag⟩ := h n hn
  refine ⟨lt_of_lt_of_le hlt hcounter, ?_⟩
  change ∀ entry ∈ d'.func.indicators, _
  rw [hindicators]
  exact hflag

/-- A draft stays well-made if its tables stay as they are. -/
theorem WellMade.congr {m : Module} (h : WellMade m d) (hlocals : d'.func.locals = d.func.locals)
    (hbindings : d'.func.bindings = d.func.bindings) (hreturn : d'.func.returnAddress = d.func.returnAddress)
    (houtside : Outside d → Outside d') (hcleanups : d'.func.cleanups ⊆ d.func.cleanups)
    (hindicators : d'.func.indicators = d.func.indicators) (hcounter : d.func.counter ≤ d'.func.counter)
    (hterminated : d'.func.terminated = endsNoted d'.func.steps.toList) : WellMade m d' where
  locals entry he := (h.locals entry (hlocals ▸ he)).congr hindicators hcounter
  bindings v hv := (h.bindings v (hbindings ▸ hv)).congr hindicators hcounter
  returnAddress := hreturn ▸ h.returnAddress.congr hindicators hcounter
  outside := houtside h.outside
  cleanups p hp := ⟨(h.cleanups p (hcleanups hp)).1,
    (h.cleanups p (hcleanups hp)).2.congr hindicators hcounter⟩
  indicators entry he := by
    obtain ⟨n, hn, hlt⟩ := h.indicators entry (hindicators ▸ he)
    exact ⟨n, hn, lt_of_lt_of_le hlt hcounter⟩
  terminated := hterminated

/-! ### Growth -/

/-- The headers that the output needs by itself. -/
def supportHeaders : List String :=
  ["stdio.h", "stdlib.h", "string.h", "math.h"]

/-- A request to the draft of a module. The body that is being written is free to change, and a function is
requested only if the module reaches it. -/
inductive Request (m : Module) : Draft → Draft → Prop
  | body {d : Draft} (func : FunctionDraft) : Request m d { d with func }
  | value {d : Draft} (n : Nat) : Request m d { d with valueCounter := n }
  | type {d d' : Draft} {ty : Ty} {define : Bool} {c : CType}
      (h : Lowering.lowerType m ty define d = .ok (c, d')) : Request m d d'
  | header {d : Draft} {header : String} (h : header ∈ supportHeaders)
      (hnew : header ∉ d.unit.includes) :
      Request m d { d with unit.includes := d.unit.includes.push header }
  | statics {d : Draft} (strings : Array String) (statics : Array C.StaticVariable)
      (globals : List (VarId × Value)) (globalCounter : Nat) :
      Request m d { d with strings, unit.statics := statics, globals, globalCounter }
  | function {d d' : Draft} {func : FuncId} {name : C.Name} (hreached : m.Reached (.func func))
      (h : Lowering.declareFunction m func d = .ok (name, d')) : Request m d d'

/-- What happens to the parts of a draft that are not about the body. -/
structure Rest (m : Module) (d d' : Draft) : Prop where
  bodies : d'.bodies = d.bodies
  definitions : d'.unit.definitions = d.unit.definitions
  requests : Relation.ReflTransGen (Request m) d d'
  returns : d'.func.returns = d.func.returns

/-- A draft grows. Where it is balanced, no cleanup is left that did not wait before. -/
structure Grows (strict : Bool) (m : Module) (bal : Bool) (γ : Exits) (d d' : Draft) : Prop where
  emits : ∃ L, d'.func.steps.toList = d.func.steps.toList ++ L ∧
    Emits strict m γ .code d.func.control L d'.func.control
  balanced : bal = true → d'.func.cleanups = d.func.cleanups
  made : WellMade m d'
  rest : Rest m d d'

/-- A computation makes drafts grow, and its result may be used. -/
def Lowers (strict : Bool) (m : Module) (bal : Bool) (γ : Exits) {α : Type} [Mentions α] (d : Draft)
    (x : Emit α) : Prop :=
  WellMade m d → Ensures d x fun a d' => Grows strict m bal γ d d' ∧ Fits d' a

variable {strict : Bool} {m : Module} {bal : Bool} {γ : Exits} {d d₁ d₂ : Draft}

theorem Rest.refl (m : Module) (d : Draft) : Rest m d d :=
  ⟨rfl, rfl, .refl, rfl⟩

theorem Rest.trans (h : Rest m d d₁) (h' : Rest m d₁ d₂) : Rest m d d₂ :=
  ⟨h'.bodies.trans h.bodies, h'.definitions.trans h.definitions, h.requests.trans h'.requests,
    h'.returns.trans h.returns⟩

namespace Grows

theorem refl (h : WellMade m d) : Grows strict m bal γ d d :=
  ⟨⟨[], (List.append_nil _).symm, .nil⟩, fun _ => rfl, h, .refl m d⟩

theorem trans (h : Grows strict m bal γ d d₁) (h' : Grows strict m bal γ d₁ d₂) :
    Grows strict m bal γ d d₂ := by
  obtain ⟨L, hL, he⟩ := h.emits
  obtain ⟨L', hL', he'⟩ := h'.emits
  refine ⟨⟨L ++ L', by rw [hL', hL, List.append_assoc], he.append he'⟩, fun hb => ?_, h'.made,
    h.rest.trans h'.rest⟩
  rw [h'.balanced hb, h.balanced hb]

theorem retains (h : Grows strict m bal γ d d₁) : Retains d d₁ := by
  obtain ⟨L, -, he⟩ := h.emits
  exact fun _ hns => he.grown.fits hns

theorem fits [Mentions α] (h : Grows strict m bal γ d d₁) (ha : Fits d a) :
    Fits d₁ a :=
  h.retains.fits ha

theorem unbalanced (h : Grows strict m true γ d d₁) : Grows strict m bal γ d d₁ :=
  ⟨h.emits, fun _ => h.balanced rfl, h.made, h.rest⟩

end Grows

namespace Lowers

variable {α β : Type} [Mentions α] [Mentions β]

theorem pure {a : α} (h : Fits d a) : Lowers strict m bal γ d (Pure.pure a : Emit α) :=
  fun hd => .pure ⟨.refl hd, h⟩

theorem bind {x : Emit β} {f : β → Emit α} (hx : Lowers strict m bal γ d x)
    (hf : ∀ b d₁, Grows strict m bal γ d d₁ → Fits d₁ b → Lowers strict m bal γ d₁ (f b)) :
    Lowers strict m bal γ d (x >>= f) := by
  intro hd
  refine .bind (hx hd) fun b d₁ ⟨hg, hb⟩ => ?_
  exact (hf b d₁ hg hb hg.made).mono fun a d₂ ⟨hg', ha⟩ => ⟨hg.trans hg', ha⟩

omit [Mentions β] in
/-- A step that does not look at the draft. -/
theorem lift {x : Except Fault β} {f : β → Emit α}
    (hf : ∀ b, x = .ok b → Lowers strict m bal γ d (f b)) :
    Lowers strict m bal γ d (liftM x >>= f) :=
  fun hd => .lift_bind fun b hb => hf b hb hd

/-- A result that does not depend on the draft. -/
theorem ofExcept {x : Except Fault α} (h : ∀ a, x = .ok a → Fits d a) :
    Lowers strict m bal γ d (liftM x : Emit α) :=
  fun hd => .lift fun a ha => ⟨.refl hd, h a ha⟩

theorem throw {e : Fault} : Lowers strict m bal γ d (MonadExcept.throw e : Emit α) :=
  fun _ => .throw

theorem discard {x : Emit α} (h : Lowers strict m bal γ d x) :
    Lowers strict m bal γ d (Functor.discard x) :=
  fun hd => .discard ((h hd).mono fun _ _ hg => ⟨hg.1, .of_nil rfl⟩)

/-- A step that is left out under a condition. -/
theorem whenNot {c : Prop} [Decidable c] {x : Emit PUnit} {k : PUnit → Emit α}
    (hx : ¬ c → Lowers strict m bal γ d x)
    (hk : ∀ d₁, Grows strict m bal γ d d₁ → Lowers strict m bal γ d₁ (k ⟨⟩)) :
    Lowers strict m bal γ d (if c then k ⟨⟩ else x >>= k) := by
  intro hd
  split
  · exact hk d (.refl hd) hd
  · next hc => exact (hx hc).bind (fun _ d₁ hg _ => hk d₁ hg) hd

theorem unbalanced {x : Emit α} (h : Lowers strict m true γ d x) : Lowers strict m bal γ d x :=
  fun hd => (h hd).mono fun _ _ hg => ⟨hg.1.unbalanced, hg.2⟩

/-- A computation for each entry of a list. -/
theorem forM {ι : Type} {l : List ι} {f : ι → Emit PUnit}
    (hf : ∀ b ∈ l, ∀ d₁, Grows strict m bal γ d d₁ → Lowers strict m bal γ d₁ (f b)) :
    Lowers strict m bal γ d (l.forM f) := by
  induction l generalizing d with
  | nil => exact .pure (.of_nil rfl)
  | cons b l ih =>
    intro hd
    refine Lowers.bind (hf b List.mem_cons_self d (.refl hd)) (fun _ d₁ hg _ => ?_) hd
    exact ih fun b' hb' d₂ hg' => hf b' (List.mem_cons_of_mem _ hb') d₂ (hg.trans hg')

/-- A result for each entry of a list. -/
theorem mapM {ι : Type} {l : List ι} {f : ι → Emit α}
    (hf : ∀ b ∈ l, ∀ d₁, Grows strict m bal γ d d₁ → Lowers strict m bal γ d₁ (f b)) :
    Lowers strict m bal γ d (l.mapM f) := by
  induction l generalizing d with
  | nil => exact .pure .nil
  | cons b l ih =>
    intro hd
    rw [List.mapM_cons]
    refine Lowers.bind (hf b List.mem_cons_self d (.refl hd)) (fun a d₁ hg ha => ?_) hd
    refine .bind (ih fun b' hb' d₂ hg' => hf b' (List.mem_cons_of_mem _ hb') d₂ (hg.trans hg'))
      fun as d₂ hg' has => ?_
    exact .pure ((hg'.fits ha).cons has)

end Lowers

/-! ### Computations that leave the body alone -/

/-- The body is left alone, and so are the values of a draft. -/
structure Silent (m : Module) (d d' : Draft) : Prop where
  func : d'.func = d.func
  outside : Outside d → Outside d'
  rest : Rest m d d'

namespace Silent

theorem refl (m : Module) (d : Draft) : Silent m d d :=
  ⟨rfl, id, .refl m d⟩

theorem trans (h : Silent m d d₁) (h' : Silent m d₁ d₂) : Silent m d d₂ :=
  ⟨h'.func.trans h.func, h'.outside ∘ h.outside, h.rest.trans h'.rest⟩

theorem made (h : Silent m d d₁) (hd : WellMade m d) : WellMade m d₁ := by
  obtain ⟨hlocals, hbindings, hreturn, houtside, hcleanups, hindicators, hterminated⟩ := hd
  have hfits {α : Type} [Mentions α] {a : α} (ha : Fits d a) : Fits d₁ a := by
    rwa [Fits, h.func]
  refine ⟨?_, ?_, ?_, h.outside houtside, ?_, ?_, ?_⟩ <;> rw [h.func]
  · exact fun entry he => hfits (hlocals entry he)
  · exact fun v hv => hfits (hbindings v hv)
  · exact hfits hreturn
  · exact fun p hp => ⟨(hcleanups p hp).1, hfits (hcleanups p hp).2⟩
  · exact hindicators
  · exact hterminated

theorem fits [Mentions α] (h : Silent m d d₁) (ha : Fits d a) : Fits d₁ a := by
  rwa [Fits, h.func]

theorem grows (h : Silent m d d₁) (hd : WellMade m d) : Grows strict m bal γ d d₁ := by
  refine ⟨⟨[], ?_, ?_⟩, fun _ => by rw [h.func], h.made hd, h.rest⟩
  · rw [h.func, List.append_nil]
  · rw [h.func]; exact .nil

end Silent

instance : Std.Refl (Silent m) :=
  ⟨.refl m⟩

instance : IsTrans Draft (Silent m) :=
  ⟨fun _ _ _ h h' => h.trans h'⟩

/-- A computation leaves the body alone, and its result may be used. -/
def Silently (m : Module) {α : Type} [Mentions α] (d : Draft) (x : Emit α) : Prop :=
  WellMade m d → Ensures d x fun a d' => Silent m d d' ∧ Fits d' a

namespace Silently

variable {α β : Type} [Mentions α] [Mentions β]

theorem lowers {x : Emit α} (h : Silently m d x) : Lowers strict m bal γ d x :=
  fun hd => (h hd).mono fun _ _ ⟨hs, ha⟩ => ⟨hs.grows hd, ha⟩

theorem of_keeps {x : Emit α} (h : Keeps (Silent m) x) (hnil : ∀ a : α, Mentions.locals a = []) :
    Silently m d x :=
  fun _ => (h d).mono fun a _ hs => ⟨hs, .of_nil (hnil a)⟩

theorem pure {a : α} (h : Fits d a) : Silently m d (Pure.pure a : Emit α) :=
  fun _ => .pure ⟨.refl m d, h⟩

theorem bind {x : Emit β} {f : β → Emit α} (hx : Silently m d x)
    (hf : ∀ b d₁, Silent m d d₁ → Fits d₁ b → Silently m d₁ (f b)) : Silently m d (x >>= f) := by
  intro hd
  refine .bind (hx hd) fun b d₁ ⟨hs, hb⟩ => ?_
  exact (hf b d₁ hs hb (hs.made hd)).mono fun a d₂ ⟨hs', ha⟩ => ⟨hs.trans hs', ha⟩

omit [Mentions β] in
/-- A step that does not look at the draft. -/
theorem lift {x : Except Fault β} {f : β → Emit α} (hf : ∀ b, x = .ok b → Silently m d (f b)) :
    Silently m d (liftM x >>= f) :=
  fun hd => .lift_bind fun b hb => hf b hb hd

/-- A result that does not depend on the draft. -/
theorem ofExcept {x : Except Fault α} (h : ∀ a, x = .ok a → Fits d a) :
    Silently m d (liftM x : Emit α) :=
  fun _ => .lift fun a ha => ⟨.refl m d, h a ha⟩

theorem throw {e : Fault} : Silently m d (MonadExcept.throw e : Emit α) :=
  fun _ => .throw

theorem discard {x : Emit α} (h : Silently m d x) : Silently m d (Functor.discard x) :=
  fun hd => .discard ((h hd).mono fun _ _ hs => ⟨hs.1, .of_nil rfl⟩)

/-- Reads the draft. -/
theorem get {f : Draft → Emit α} (h : Silently m d (f d)) :
    Silently m d (MonadState.get >>= f) := by
  intro hd
  refine .get_bind ?_
  exact h hd

/-- Changes a part of the draft that is not about the body. -/
theorem modify {f : Draft → Draft} (h : Silent m d (f d)) :
    Silently m d (MonadStateOf.modifyGet fun s => (PUnit.unit, f s) : Emit PUnit) :=
  fun _ => .modify ⟨h, .of_nil rfl⟩

/-- A step that is left out under a condition. -/
theorem whenNot {c : Prop} [Decidable c] {x : Emit PUnit} {k : PUnit → Emit α}
    (hx : ¬ c → Silently m d x) (hk : ∀ d₁, Silent m d d₁ → Silently m d₁ (k ⟨⟩)) :
    Silently m d (if c then k ⟨⟩ else x >>= k) := by
  intro hd
  split
  · exact hk d (.refl m d) hd
  · next hc => exact (hx hc).bind (fun _ d₁ hs _ => hk d₁ hs) hd

/-- A result for each entry of a list. -/
theorem mapM {ι : Type} {l : List ι} {f : ι → Emit α}
    (hf : ∀ b ∈ l, ∀ d₁, Silent m d d₁ → Silently m d₁ (f b)) : Silently m d (l.mapM f) := by
  induction l generalizing d with
  | nil => exact .pure .nil
  | cons b l ih =>
    rw [List.mapM_cons]
    refine .bind (hf b List.mem_cons_self d (.refl m d)) fun a d₁ hs ha => ?_
    refine .bind (ih fun b' hb' d₂ hs' => hf b' (List.mem_cons_of_mem _ hb') d₂ (hs.trans hs'))
      fun as d₂ hs' has => ?_
    exact .pure ((hs'.fits ha).cons has)

/-- A step for each entry of a list. -/
theorem forM {ι : Type} {l : List ι} {f : ι → Emit PUnit} (hf : ∀ b ∈ l, ∀ d₁, Silently m d₁ (f b)) :
    Silently m d (l.forM f) := by
  induction l generalizing d with
  | nil => exact .pure (.of_nil rfl)
  | cons b l ih =>
    exact .bind (hf b List.mem_cons_self d) fun _ _ _ _ => ih fun b' hb' => hf b' (List.mem_cons_of_mem _ hb')

end Silently

end CBackend
