import CBackend.Generate
import CBackend.Proofs.Lowering.Expressions
import CBackend.Proofs.Registration

/-!
# Bodies of a module

Every body that is written for a module is a piece that lowering writes from the empty state on, with no
cleanup left at its end. Control gets to the end of a body only where the function yields nothing.
-/

namespace CBackend

open IR Flow Emission Lowering
open C (CType)

/-- The body of a function of the module that is passed back its result as the body says, or that of
`main`. -/
def OfFunction (m : Module) (body : Body) : Prop :=
  (∃ func c, Convention.ofFunction m func = .ok c ∧ body.returns = c.result) ∨
    body.name = .symbol "main" ∧ body.returns = .direct

/-- A body of the module is written from the empty state on. No cleanup is left at its end, and control
gets there only where the function yields nothing. -/
structure Written (strict : Bool) (m : Module) (γ : Exits) (body : Body) : Prop where
  ofFunction : OfFunction m body
  emits : ∃ c, Emits strict m γ .code {} body.steps c ∧ c.cleanups = [] ∧
    (body.returns ≠ .nothing → c.terminated = true)

/-- The bodies of a draft are written, and no function is under way. -/
structure Finished (strict : Bool) (m : Module) (γ : Exits) (d : Draft) : Prop where
  func : d.func = {}
  outside : Outside d
  awaited : Awaited m d
  written : ∀ body ∈ d.bodies, Written strict m γ body
  definitions : d.unit.definitions.map (·.body) = d.bodies.map Body.lines

variable {strict : Bool} {m : Module} {bal : Bool} {γ : Exits} {d d₁ : Draft} {v : Value} {w : Walk} {func : FuncId}

theorem WellMade.ofEmpty (hd : Outside d) (hsteps : d.func.steps = #[]) (hterminated : d.func.terminated = false)
    (hlocals : d.func.locals = []) (hbindings : d.func.bindings = [])
    (hreturn : d.func.returnAddress = none) (hcleanups : d.func.cleanups = [])
    (hindicators : d.func.indicators = []) : WellMade m d where
  locals := by rw [hlocals]; rintro _ ⟨⟩
  bindings := by rw [hbindings]; rintro _ ⟨⟩
  returnAddress := by rw [hreturn]; exact .none
  outside := hd
  cleanups := by rw [hcleanups]; rintro _ ⟨⟩
  indicators := by rw [hindicators]; rintro _ ⟨⟩
  terminated := by rw [hsteps, hterminated]; rfl

theorem Finished.made (h : Finished strict m γ d) : WellMade m d := by
  apply WellMade.ofEmpty h.outside <;> rw [h.func]

theorem Finished.silent (h : Finished strict m γ d) (hs : Silent m d d₁) : Finished strict m γ d₁ :=
  ⟨hs.func.trans h.func, hs.outside h.outside, h.awaited.of_requests hs.rest.requests, hs.rest.bodies ▸ h.written,
    by rw [hs.rest.definitions, hs.rest.bodies, h.definitions]⟩

/-- A function is taken from the queue. -/
theorem Finished.take {rest : List FuncId} (h : Finished strict m γ d) (hqueue : d.queue = func :: rest) :
    Finished strict m γ { d with queue := rest } :=
  ⟨h.func, h.outside, fun func' hfunc' => h.awaited func' (hqueue ▸ List.mem_cons_of_mem _ hfunc'), h.written,
    h.definitions⟩

/-! ### Parameters -/

namespace Lowers

theorem setReturnAddress (hv : Fits d v) : Lowers strict m bal γ d (Emit.setReturnAddress v) :=
  .modifyFunction rfl rfl rfl fun hd => { hd with returnAddress := hv }

theorem resultParameter {c : Convention} {types : List CType} :
    Lowers strict m bal γ d (resultParameter c types) := by
  have hpair {params : List (CType × Nat)} {types : List CType} {d : Draft} : Fits d (params, types) :=
    .of_nil (by simp [Mentions.locals])
  unfold Lowering.resultParameter
  split
  · refine .freshNumber_bind fun n d₁ _ hn => ?_
    dsimp only
    split
    · refine .bind (.referenceValue hn) fun _ _ _ hv => ?_
      exact .bind (.setReturnAddress hv) fun _ _ _ _ => .pure hpair
    · exact .pure hpair
  · exact .pure hpair

theorem parameterValue {passing : ParamPassing} {ty : CType} {n : Nat}
    (hn : Fits d (C.Expr.name (.localVar n))) :
    Lowers strict m bal γ d (parameterValue passing ty n) := by
  unfold Lowering.parameterValue
  split
  · split
    · exact .referenceValue hn
    · exact .variableValue hn
  · exact .variableValue hn

theorem parameters {params : List (VarId × ParamPassing)} {types : List CType}
    (h : ∀ p ∈ params, m.Reached (.var p.1)) :
    Lowers strict m false γ d (parameters m params types) := by
  have hnil {params : List (CType × Nat)} {d : Draft} : Fits d params := .of_nil (by simp [Mentions.locals])
  fun_induction Lowering.parameters m params types generalizing d with
  | case1 => exact .pure hnil
  | case2 _ _ _ ih => exact ih fun p hp => h p (List.mem_cons_of_mem _ hp)
  | case3 => exact .throw
  | case4 x passing rest ty types _ ih =>
    refine .freshNumber_bind fun n d₁ _ hn => .bind (.parameterValue hn) fun v _ _ hv => ?_
    refine .bind (.bindVariable (h _ List.mem_cons_self) hv) fun _ _ _ _ => ?_
    exact .bind (ih fun p hp => h p (List.mem_cons_of_mem _ hp)) fun _ _ _ _ => .pure hnil

end Lowers

/-! ### The parts of the work -/

namespace Lowering

/-- Requests what a module starts from: it defines the globals, and it declares the functions that are kept and the
entry. -/
def requestSources (m : Module) : Emit Unit := do
  m.globals.toList.forM (defineGlobal m)
  m.roots.toList.forM fun root => Functor.discard (declareFunction m root)
  m.entry.toList.forM fun entry => Functor.discard (declareFunction m entry)

/-- Adds `main`, if there is an entry. -/
def addMain (m : Module) : Emit Unit :=
  m.entry.toList.forM (mainWrapper m)

theorem wholeModule_eq (m : Module) :
    wholeModule m = (do
      requestSources m
      drainQueue m (Walk.ofModule m) m.functions.size
      addMain m) := by
  unfold wholeModule requestSources addMain
  cases m.entry with
  | none => simp
  | some entry => simp

end Lowering

/-- What a module starts from is requested. -/
theorem Silently.requestSources : Silently m d (requestSources m) := by
  refine .bind (.forM fun x hx _ => .defineGlobal (.ofGlobal (by simpa using hx))) fun _ _ _ _ => ?_
  refine .bind (.forM fun func hfunc _ => .discard (.declareFunction (.ofRoot (by simpa using hfunc))))
    fun _ _ _ _ => ?_
  exact .forM fun func hfunc _ => .discard (.declareFunction (.ofEntry (by simpa using hfunc)))

/-! ### Function bodies -/

namespace Ensures

/-- Control gets past the end of a body only where the function yields nothing. -/
theorem fallOffEnd {f : Function} (hγ : γ.returns = true) (hd : WellMade m d) (hcleanups : d.func.cleanups = []) :
    Ensures d (fallOffEnd m func f) fun _ d' => Grows strict m true γ d d' ∧
      (d'.func.returns ≠ .nothing → d'.func.terminated = true) := by
  refine .getFunction_bind ?_
  split
  · next hnothing => exact .pure ⟨.refl hd, fun h => absurd hnothing h⟩
  · have hexit {d₁ : Draft} {l : C.Line} (hd₁ : WellMade m d₁)
        (hl : Emits strict m γ .code d₁.func.control [.line l, .note .ends] d₁.func.control.dead) :
        Ensures d₁ (Emit.exitLine l) fun _ d' => Grows strict m true γ d₁ d' ∧
          (d'.func.returns ≠ .nothing → d'.func.terminated = true) :=
      (Ensures.exitLine hd₁).mono fun _ d' hw =>
        ⟨hw.grows hl fun _ => rfl, fun _ => congrArg Control.terminated hw.control⟩
    split
    · have hbuiltin : Silently m d (Emit.builtin .i32) := .builtin
      refine .bind (hbuiltin hd) fun ty d₁ ⟨hs₁, _⟩ => ?_
      have hinteger : Silently m d₁ (Emit.integer ty 0) := .integer
      refine .bind (hinteger (hs₁.made hd)) fun v d₂ ⟨hs₂, _⟩ => .lift_bind fun e _ => ?_
      have hs := hs₁.trans hs₂
      refine (hexit (hs.made hd) ?_).mono fun _ d' h => ⟨(hs.grows hd).trans h.1, h.2⟩
      have hnil : d₂.func.control.cleanups = [] := by rw [hs.func]; exact hcleanups
      have hnone : Emits strict m γ (.cleanups false d₂.func.control.cleanups) d₂.func.control []
          d₂.func.control := hnil ▸ .cleanupsNil
      exact .returns hγ hnone
    · exact hexit hd (.stops rfl)

/-- A finished body is added. -/
theorem endFunction {isStatic : Bool} {result : CType} {name : C.Name} {params : List (CType × Nat)}
    (houtside : Outside d) (hawaited : Awaited m d) (hbodies : ∀ body ∈ d.bodies, Written strict m γ body)
    (hdefinitions : d.unit.definitions.map (·.body) = d.bodies.map Body.lines)
    (hwritten : d.func.cleanups = [] → Written strict m γ
      { name, returns := d.func.returns, steps := d.func.steps.toList }) :
    Ensures d (Emit.endFunction isStatic result name params) fun _ d' => Finished strict m γ d' := by
  refine .get_bind ?_
  refine .bind (.modify (Φ := fun _ d' => d' = { d with func := {} }) rfl) ?_
  rintro _ _ rfl
  refine .when (Q := fun d' => d' = { d with func := {} } ∧ d.func.cleanups = [])
    (fun _ => .throw) (fun h => ⟨rfl, by simpa using h⟩) ?_
  rintro _ ⟨rfl, hcleanups⟩
  refine .modify ⟨rfl, houtside, hawaited, fun body hbody => ?_, ?_⟩
  · obtain hbody | rfl := Array.mem_push.1 hbody
    · exact hbodies body hbody
    · exact hwritten hcleanups
  · rw [Array.map_push, Array.map_push, hdefinitions]

/-- The definition of a function. -/
theorem functionBody (hw : w.Sound strict m) (hγ : γ.returns = true) (ha : Admits strict m γ)
    (hreached : m.Reached (.func func)) (hheader : ∀ f, m.function? func = some f → f.libraryHeader = none)
    (h : ∀ f body, m.function? func = some f → f.body = some body →
      ∀ s ∈ body, m.Reached (.stmt s) → Allowed strict m γ (.stmt s)) (hd : Finished strict m γ d) :
    Ensures d (functionBody m w func) fun _ d' => Finished strict m γ d' := by
  refine .lift_bind fun f hf => ?_
  have hf := eq_some_of_inRange hf
  split
  · exact .pure hd
  · next body hbody =>
    have hitems : ∀ a ∈ f.params.map Item.var ++ body.map Item.stmt, m.Reached a := fun a ha =>
      hreached.ofFunc hf a (by simpa [Function.items, hheader f hf, hbody] using ha)
    have hname : Silently m d (Lowering.declareFunction m func) := .declareFunction hreached
    refine .bind (hname hd.made) fun name d₁ ⟨hs₁, _⟩ => ?_
    have hd₁ := hd.silent hs₁
    refine .lift_bind fun convention hconvention => .lift_bind fun params _ => ?_
    have hsignature : Silently m d₁ (signature m convention f.result params) := .signature
    refine .bind (hsignature hd₁.made) fun types d₂ ⟨hs₂, _⟩ => ?_
    have hd₂ := hd₁.silent hs₂
    -- the body is written from the empty state on
    refine .bind (.modify (Φ := fun _ d' => WellMade m d' ∧ d'.func.steps = #[] ∧
      d'.func.control = {} ∧ d'.func.returns = convention.result ∧ d'.bodies = d₂.bodies ∧
      d'.unit.definitions = d₂.unit.definitions ∧ Awaited m d') ?_) ?_
    · exact ⟨.ofEmpty hd₂.outside rfl rfl rfl rfl rfl rfl rfl, rfl, rfl, rfl, rfl, rfl, hd₂.awaited⟩
    rintro _ d₃ ⟨hd₃, hsteps, hcontrol, hreturns, hbodies, hdefinitions, hawaited⟩
    have hend {d₄ : Draft} {isStatic : Bool} {result : CType} {params : List (CType × Nat)}
        (g : Grows strict m true γ d₃ d₄)
        (ht : d₄.func.returns ≠ .nothing → d₄.func.terminated = true) :
        Ensures d₄ (Emit.endFunction isStatic result name params) fun _ d' => Finished strict m γ d' := by
      refine .endFunction g.made.outside (hawaited.of_requests g.rest.requests) ?_ ?_ fun hnil => ⟨.inl ?_, ?_⟩
      · rw [g.rest.bodies, hbodies]
        exact hd₂.written
      · rw [g.rest.bodies, g.rest.definitions, hbodies, hdefinitions, hd₂.definitions]
      · exact ⟨func, convention, hconvention, g.rest.returns.trans hreturns⟩
      · obtain ⟨L, hL, he⟩ := g.emits
        rw [hcontrol] at he
        rw [hsteps, Array.toList_empty, List.nil_append] at hL
        exact ⟨d₄.func.control, hL ▸ he, hnil, ht⟩
    refine .getFunction_bind ?_
    have hresult : Lowers strict m false γ d₃ (resultParameter convention types.2) :=
      .resultParameter
    refine .bind (hresult hd₃) fun first d₄ ⟨g₄, _⟩ => ?_
    have hparams : ∀ p ∈ f.params.zip convention.params, m.Reached (.var p.1) := fun p hp =>
      hitems _ (List.mem_append_left _ (List.mem_map_of_mem (List.of_mem_zip hp).1))
    have hstmts : ∀ s ∈ body, Allowed strict m γ (.stmt s) := fun s hs =>
      h f body hf hbody s hs (hitems _ (List.mem_append_right _ (List.mem_map_of_mem hs)))
    refine .bind (g₄.andThen (.parameters hparams)) fun later d₅ ⟨g₅, _⟩ => ?_
    refine .bind (g₅.andThen (.statements hw hstmts)) fun _ d₆ ⟨g₆, _⟩ => ?_
    refine .bind (hw.closeScope ha g₆) fun _ d₇ ⟨g₇, _⟩ => .getFunction_bind ?_
    refine .whenNot (Q := fun d' => Grows strict m true γ d₃ d' ∧
      (d'.func.returns ≠ .nothing → d'.func.terminated = true)) (fun _ => ?_) (fun ht => ⟨g₇, fun _ => ht⟩)
      fun d₈ ⟨g₈, ht⟩ => hend g₈ ht
    have hnil : d₇.func.cleanups = [] :=
      (g₇.balanced rfl).trans (congrArg Control.cleanups hcontrol)
    exact (fallOffEnd hγ g₇.made hnil).mono fun _ d₈ ⟨g₈, ht⟩ => ⟨g₇.trans g₈, ht⟩

/-- The lines of `main`. -/
theorem exists_emits_mainLines {name : C.Name} {f : Function} {c : Convention} {lines : List C.Line}
    (hγ : γ.returns = true) (hname : ({} : Control).Fits (Mentions.locals name))
    (h : mainLines c name f = .ok lines) :
    ∃ c', Emits strict m γ .code {} (lines.map .line ++ [.note .ends]) c' ∧ c'.cleanups = [] ∧
      c'.terminated = true := by
  have hreturn {c : Control} {e : Option C.Expr} (hnil : c.cleanups = []) :
      Emits strict m γ .code c [.line (.returnWith e), .note .ends] c.dead := by
    have hnone : Emits strict m γ (.cleanups false c.cleanups) c [] c := hnil ▸ .cleanupsNil
    exact .returns hγ hnone
  unfold mainLines at h
  split at h
  · cases h
  · split at h
    · cases h
      have hlocals : (C.Line.expression (.call (.name name) [])).locals = Mentions.locals name :=
        List.append_nil _
      have hcall : Emits strict m γ .code {} [.line (.expression (.call (.name name) []))]
          ({} : Control).live := .line rfl (hlocals ▸ hname)
      exact ⟨_, hcall.append (hreturn rfl), rfl, rfl⟩
    · cases h
      exact ⟨_, hreturn rfl, rfl, rfl⟩
    · cases h
    · cases h

/-- The definition of `main`. -/
theorem mainWrapper (hγ : γ.returns = true) {entry : FuncId} (hreached : m.Reached (.func entry))
    (hd : Finished strict m γ d) :
    Ensures d (mainWrapper m entry) fun _ d' => Finished strict m γ d' := by
  have hname : Silently m d (Lowering.declareFunction m entry) := .declareFunction hreached
  refine .bind (hname hd.made) fun name d₁ ⟨hs₁, hfits⟩ => ?_
  have hd₁ := hd.silent hs₁
  rw [Fits, hd₁.func] at hfits
  split
  · exact .pure hd₁
  · refine .lift_bind fun f _ => .lift_bind fun c _ => .lift_bind fun lines hlines => ?_
    refine .modify ⟨hd₁.func, hd₁.outside, hd₁.awaited, fun body hbody => ?_, ?_⟩
    · obtain hbody | rfl := Array.mem_push.1 hbody
      · exact hd₁.written body hbody
      · obtain ⟨c', he, hnil, ht⟩ := exists_emits_mainLines hγ hfits hlines
        exact ⟨.inr ⟨rfl, rfl⟩, c', he, hnil, fun _ => ht⟩
    · rw [Array.map_push, Array.map_push, hd₁.definitions]

/-- The bodies of the queued functions. -/
theorem drainQueue (hw : w.Sound strict m) (hγ : γ.returns = true) (ha : Admits strict m γ)
    (h : ∀ func f body, m.function? func = some f → f.body = some body →
      ∀ s ∈ body, m.Reached (.stmt s) → Allowed strict m γ (.stmt s))
    {n : Nat} (hd : Finished strict m γ d) :
    Ensures d (drainQueue m w n) fun _ d' => Finished strict m γ d' := by
  induction n generalizing d with
  | zero => exact .pure hd
  | succ n ih =>
    have hnext : Ensures d Emit.nextQueued? fun next d' => Finished strict m γ d' ∧
        ∀ func ∈ next, func ∈ d.queue := by
      refine .get_bind ?_
      split
      · exact .pure ⟨hd, nofun⟩
      · next func rest hqueue =>
        refine .bind (.modify (Φ := fun _ d' => Finished strict m γ d') (hd.take hqueue)) fun _ _ h => .pure ⟨h, ?_⟩
        rintro _ ⟨⟩
        exact hqueue ▸ List.mem_cons_self
    refine .bind hnext ?_
    rintro (_ | func) d₁ ⟨hd₁, hmem⟩
    · exact .pure hd₁
    · obtain ⟨hreached, hheader⟩ := hd.awaited func (hmem func rfl)
      exact .bind (functionBody hw hγ ha hreached hheader (h func) hd₁) fun _ _ hd₂ => ih hd₂

/-- Everything that a module defines. -/
theorem wholeModule (hm : Tidy strict m) (hγ : γ.returns = true) (ha : Admits strict m γ)
    (h : ∀ func f body, m.function? func = some f → f.body = some body →
      ∀ s ∈ body, m.Reached (.stmt s) → Allowed strict m γ (.stmt s))
    (hd : Finished strict m γ d) :
    Ensures d (wholeModule m) fun _ d' => Finished strict m γ d' := by
  rw [wholeModule_eq]
  refine .bind (Silently.requestSources hd.made) fun _ d₁ ⟨hs, _⟩ => ?_
  refine .bind (drainQueue (.ofModule hm) hγ ha h (hd.silent hs)) fun _ d₂ hd₂ => ?_
  exact .forM hd₂ fun entry hentry _ hd => mainWrapper hγ (.ofEntry (by simpa using hentry)) hd

end Ensures

/-- A draft that has types only. -/
structure Draft.Blank (d : Draft) : Prop where
  func : d.func = {}
  globals : d.globals = []
  functions : d.functions = []
  queue : d.queue = []
  includes : d.unit.includes = #[]
  prototypes : d.unit.prototypes = #[]
  bodies : d.bodies = #[]
  definitions : d.unit.definitions = #[]

theorem Draft.blank_of_new {options : Options} (h : Draft.new options = .ok d) : d.Blank := by
  cases Draft.eq_registered h
  exact ⟨rfl, rfl, rfl, rfl, rfl, rfl, rfl, rfl⟩

theorem Finished.ofBlank (hd : d.Blank) : Finished strict m γ d := by
  refine ⟨hd.func, ?_, ?_, ?_, ?_⟩
  · rw [Outside, hd.globals, hd.functions]
    exact ⟨by rintro _ ⟨⟩, by rintro _ ⟨⟩⟩
  · rw [Awaited, hd.queue]
    rintro _ ⟨⟩
  · rw [hd.bodies]
    rintro _ ⟨⟨⟩⟩
  · rw [hd.bodies, hd.definitions, Array.map_empty, Array.map_empty]

/-- The bodies of a module are written. -/
theorem finished_of_generateDraft {options : Options} (hm : Tidy strict m) (hγ : γ.returns = true)
    (ha : Admits strict m γ)
    (hbodies : ∀ func f body, m.function? func = some f → f.body = some body →
      ∀ s ∈ body, m.Reached (.stmt s) → Allowed strict m γ (.stmt s))
    (h : generateDraft m options = .ok d) : Finished strict m γ d := by
  obtain ⟨d₀, hnew, h⟩ := exists_of_bind_eq_ok h
  obtain ⟨⟨_, d₁⟩, hrun, h⟩ := exists_of_bind_eq_ok h
  cases h
  exact Ensures.wholeModule hm hγ ha hbodies (.ofBlank (Draft.blank_of_new hnew)) _ _ hrun

/-- A body of a module that passes a check. -/
theorem exists_body_of_any (m : Module) (options : Options) (check : Body → Bool)
    (h : ((generateDraft m options).toOption.any fun d => d.bodies.toList.any check) = true) :
    ∃ d body, generateDraft m options = .ok d ∧ body ∈ d.bodies ∧ check body = true := by
  cases hd : generateDraft m options with
  | error e => rw [hd] at h; cases h
  | ok d =>
    rw [hd] at h
    obtain ⟨body, hbody, hcheck⟩ := List.any_eq_true.1 h
    exact ⟨d, body, rfl, Array.mem_toList_iff.1 hbody, hcheck⟩

end CBackend
