import CBackend.Lowering.Branches
import CBackend.Proofs.Lowering.Operators

/-!
# Blocks, conditionals and switches in growing drafts

What lowering writes for blocks, conditionals, switches and the exits of loops. A branch tells whether
control leaves it for good, and a conditional of which all branches do so does it as well.
-/

namespace CBackend

open IR Flow Emission Lowering
open C (CType)

instance : Mentions BranchResult where
  locals
    | .nothing => []
    | .storage v | .pointer v => Mentions.locals v

variable {strict : Bool} {m : Module} {bal : Bool} {γ : Exits} {d d₁ : Draft} {v : Value}
  {dest : Option Value} {ty : Ty} {w : Walk} {result : BranchResult} {category : Category} {isComplete : Bool}
  (hw : w.Sound strict m)

/-! ### Blocks -/

namespace Lowers

/-- Something is left out where control does not get. -/
theorem skip (h : d.func.terminated = true) : Lowers strict m bal γ d (Emit.note .skips) :=
  fun hd => (Ensures.note (n := .skips) hd nofun).mono fun _ _ hw =>
    ⟨hw.grows (.skips h) fun _ => rfl, .of_nil rfl⟩

/-- Looks at the cleanups that were added since a mark. -/
theorem cleanupsSince {α : Type} [Mentions α] {mark : Nat} {f : List Pending → Emit α}
    (h : ∀ ps, Lowers strict m bal γ d (f ps)) :
    Lowers strict m bal γ d (Emit.cleanupsSince mark >>= f) := by
  intro hd
  refine .bind .cleanupsSince ?_
  rintro ps _ ⟨-, rfl⟩
  exact h ps hd

include hw

theorem statements {stmts : List StmtId}
    (h : ∀ s ∈ stmts, Allowed strict m γ (.stmt s)) :
    Lowers strict m false γ d (statements w stmts) := by
  induction stmts generalizing d with
  | nil => exact .pure (.of_nil rfl)
  | cons s stmts ih =>
    refine .getFunction ?_
    split
    · next ht => exact .skip ht
    · refine .bind (hw.stmt (h s List.mem_cons_self)) fun _ _ _ _ => ?_
      exact ih fun s' hs' => h s' (List.mem_cons_of_mem _ hs')

theorem finalValue {final : ExprId} {isRvalue : Bool} {mark : Nat}
    (h : Allowed strict m γ (.expr final)) (hdest : Fits d dest) :
    Lowers strict m false γ d (finalValue w final isRvalue mark dest) := by
  refine .bind (hw.expr h hdest) fun v d₁ _ hv => .cleanupsSince fun ps => ?_
  split
  · exact .copyToLocal hv
  · exact .pure hv

theorem compound (ha : Admits strict m γ) {stmts : List StmtId}
    {final : Option ExprId} {isRvalue : Bool} (hstmts : ∀ s ∈ stmts, Allowed strict m γ (.stmt s))
    (hfinal : ∀ e ∈ final, Allowed strict m γ (.expr e)) (hdest : Fits d dest) :
    Lowers strict m bal γ d (compound w stmts final isRvalue dest) := by
  refine .getFunction fun hd => .bind (Lowers.statements hw hstmts hd) fun _ d₁ ⟨g₁, _⟩ => ?_
  have hclose {v : Value} {d₂ : Draft} (g₂ : Grows strict m false γ d d₂) (hv : Fits d₂ v) :
      Ensures d₂ (do w.closeScope d.func.cleanups.length; Pure.pure v) fun a d' =>
        Grows strict m bal γ d d' ∧ Fits d' a :=
    .bind (hw.closeScope ha g₂) fun _ _ ⟨g₃, hr⟩ => .pure ⟨g₃.unbalanced, hr.fits hv⟩
  dsimp only
  split
  · next final =>
    refine .getFunction_bind ?_
    split
    · next ht =>
      refine .bind (g₁.andThen (.skip ht)) fun _ d₂ ⟨g₂, _⟩ => ?_
      exact hclose g₂ (.of_nil rfl)
    · refine .bind (g₁.andThen (.finalValue hw (hfinal final rfl) (g₁.fits hdest)))
        fun v d₂ ⟨g₂, hv⟩ => hclose g₂ hv
  · exact hclose g₁ (.of_nil rfl)

/-- The condition of a branch. -/
theorem condition {id : ExprId} (h : Allowed strict m γ (.expr id)) :
    Lowers strict m bal γ d (condition w id) := by
  have hexpr : Lowers strict m false γ d (w.expr id none) := hw.expr h .none
  refine .getFunction fun hd => .bind (hexpr hd) fun v d₁ ⟨g₁, hv⟩ => ?_
  refine .bind .cleanupsSince ?_
  rintro ps _ ⟨-, rfl⟩
  have hclose {v : Value} {d₂ : Draft} (g₂ : Grows strict m false γ d d₂) (hv : Fits d₂ v) :
      Ensures d₂ (do w.closeScope d.func.cleanups.length; Pure.pure v) fun a d' =>
        Grows strict m bal γ d d' ∧ Fits d' a :=
    .bind (hw.closeScope h.admits g₂) fun _ _ ⟨g₃, hr⟩ => .pure ⟨g₃.unbalanced, hr.fits hv⟩
  dsimp only
  split
  · exact hclose g₁ hv
  · exact .bind (g₁.andThen (.copyToLocal hv)) fun _ _ ⟨g₂, hv⟩ => hclose g₂ hv

end Lowers

/-! ### Branches -/

/-- A construct is closed. Where the flag is set, control leaves all of its branches for good. -/
structure Branched (strict : Bool) (m : Module) (γ : Exits) (d : Draft) (terminated : Bool)
    (d' : Draft) : Prop where
  grows : Grows strict m true γ d d'
  dead : terminated = true → ∃ B, d'.func.steps.toList = d.func.steps.toList ++ B ∧
    Emits strict m γ .code d.func.control B d'.func.control.dead

theorem Since.branched {d₀ : Draft} {t : Bool} (s : Since m (Joined strict m γ d₀ t) d₀ d₁)
    (g : Grows strict m true γ d d₀) : Branched strict m γ d t d₁ := by
  refine ⟨g.trans s.grows, ?_⟩
  rintro rfl
  obtain ⟨A, hA, he⟩ := g.emits
  obtain ⟨B, hB, -, -, he'⟩ := s.written
  exact ⟨A ++ B, by rw [hB, hA, List.append_assoc], he.append he'⟩

theorem Lowers.beginBranches (hdest : Fits d dest) :
    Lowers strict m bal γ d (beginBranches m ty category dest) := by
  unfold Lowering.beginBranches
  split
  · exact .pure (.of_nil rfl)
  · split
    · exact .bind (.resultStorage hdest) fun _ _ _ hv => .pure hv
    · refine .bind Silently.valueType.lowers fun _ _ _ _ => ?_
      refine .bind Silently.pointerFor.lowers fun _ _ _ _ => ?_
      exact .bind .declareLocal fun _ _ _ hv => .pure hv
    · exact .pure (.of_nil rfl)
    · exact .pure (.of_nil rfl)

namespace Ensures

include hw in
/-- One branch, which tells whether control leaves it for good. -/
theorem branch {id : ExprId} (h : Allowed strict m γ (.expr id))
    (hresult : Fits d result) (hd : WellMade m d) :
    Ensures d (branch w id result) fun b d' =>
      Grows strict m true γ d d' ∧ d'.func.terminated = b := by
  have hend {d₁ : Draft} (g : Grows strict m true γ d d₁) :
      Ensures d₁ Emit.isTerminated fun b d' => Grows strict m true γ d d' ∧ d'.func.terminated = b :=
    .getFunction ⟨g, rfl⟩
  have hscope {dest : Option Value} (hdest : Fits d dest) :
      Lowers strict m true γ d (Functor.discard (w.inScope id dest)) :=
    .discard (hw.inScope h hdest)
  unfold Lowering.branch
  dsimp only
  split
  · exact .bind (hscope .none hd) fun _ _ ⟨g, _⟩ => hend g
  · next v => exact .bind (hscope (Fits.some hresult) hd) fun _ _ ⟨g, _⟩ => hend g
  · next pointer =>
    have hpointer : Fits d pointer := hresult
    have hexpr : Lowers strict m false γ d (w.expr id none) := hw.expr h .none
    refine .getFunction_bind ?_
    refine .bind (hexpr hd) fun v d₁ ⟨g₁, hv⟩ => .getFunction_bind ?_
    have hclose {d₂ : Draft} (g₂ : Grows strict m false γ d d₂) :
        Ensures d₂ (do w.closeScope d.func.cleanups.length; Emit.isTerminated) fun b d' =>
          Grows strict m true γ d d' ∧ d'.func.terminated = b :=
      .bind (hw.closeScope h.admits g₂) fun _ _ ⟨g₃, _⟩ => hend g₃
    split
    · exact hclose g₁
    · refine .bind (g₁.andThen (.addressOf hv)) fun address d₂ ⟨g₂, haddress⟩ => ?_
      refine .bind (g₂.andThen (.assign (g₂.fits hpointer) haddress)) fun _ d₃ ⟨g₃, _⟩ => ?_
      exact hclose g₃

/-- The value that the branches left, once the construct is closed. -/
theorem joinBranches {t : Bool} (h : Branched strict m γ d t d₁) (hresult : Fits d₁ result) :
    Ensures d₁ (joinBranches t result) fun a d' =>
      Grows strict m bal γ d d' ∧ Fits d' a := by
  cases t with
  | true =>
    obtain ⟨B, hB, he⟩ := h.dead rfl
    refine .bind (.setTerminated h.grows.made) fun _ d₂ hw => .pure ⟨?_, .of_nil rfl⟩
    have hends : Grows strict m true γ d d₂ := by
      refine ⟨⟨B ++ [.note .ends], ?_, hw.control ▸ he.ends rfl⟩, fun _ => ?_, hw.made,
        h.grows.rest.trans hw.rest⟩
      · rw [hw.steps, hB, List.append_assoc]
      · exact (congrArg Control.cleanups hw.control).trans (h.grows.balanced rfl)
    exact hends.unbalanced
  | false =>
    have hend : Lowers strict m bal γ d₁ (endBranches result) := by
      unfold endBranches
      split
      · exact .pure (.of_nil rfl)
      · exact .pure hresult
      · exact .dereference hresult
    exact h.grows.unbalanced.andThen hend

end Ensures

include hw in
theorem Lowers.ifElse {test thenBlock : ExprId} {elseBlock : Option ExprId}
    (h : Allowed strict m γ (.expr test)) (h₁ : Allowed strict m γ (.expr thenBlock))
    (h₂ : ∀ e ∈ elseBlock, Allowed strict m γ (.expr e)) (hdest : Fits d dest) :
    Lowers strict m bal γ d (ifElse m w ty category test thenBlock elseBlock dest) := by
  refine .bind (.condition hw h) fun test d₁ g₁ htest => ?_
  refine .bind (.beginBranches (g₁.fits hdest)) fun result d₂ g₂ hresult => ?_
  refine .beginIf (g₂.fits htest) fun d₃ s₃ => ?_
  refine .bind (.branch hw h₁ (s₃.fits hresult) s₃.made) ?_
  rintro _ d₄ ⟨g₄, rfl⟩
  have s₄ := s₃.grow g₄
  dsimp only
  split
  · next elseBlock =>
    refine .bind (.beginElse s₄) fun _ d₅ s₅ => ?_
    refine .bind (.branch hw (h₂ elseBlock rfl) (s₅.fits hresult) s₅.made) ?_
    rintro _ d₆ ⟨g₆, rfl⟩
    refine .bind (.endIf_alternative (s₅.grow g₆)) fun _ d₇ s₇ => ?_
    exact .joinBranches (s₇.branched (.refl g₂.made)) (s₇.fits hresult)
  · refine .pure_bind (.bind (.endIf s₄) fun _ d₅ s₅ => ?_)
    rw [Bool.and_false]
    exact .joinBranches (s₅.branched (.refl g₂.made)) (s₅.fits hresult)

/-! ### Switches -/

namespace Ensures

variable {earlier : Bool} {cases : List SwitchCase} {default : Option ExprId}

include hw

theorem integralCases {matchedTy : Ty}
    (h : ∀ c ∈ cases, Allowed strict m γ (.expr c.expr))
    (hfuncs : ∀ c ∈ cases, ∀ func ∈ Const.funcsOf c.values, m.Reached (.func func))
    (hresult : Fits d result) (s : Since m (Cases strict m γ d earlier) d d₁) :
    Ensures d₁ (integralCases m w matchedTy result cases) fun b d' =>
      Since m (Cases strict m γ d (earlier && b)) d d' := by
  induction cases generalizing d₁ earlier with
  | nil => exact .pure (by rwa [Bool.and_true])
  | cons c cases ih =>
    have hlabels : Silently m d₁ (c.values.mapM fun value =>
        constantExpr m true value matchedTy) :=
      .mapM fun value hvalue d₂ _ => .constantExpr value matchedTy d₂ fun func hfunc =>
        hfuncs c List.mem_cons_self func (Const.mem_funcsOf hvalue hfunc)
    refine .bind (hlabels s.made) fun labels d₂ ⟨hs, hl⟩ => ?_
    refine .bind (.beginCase (s.silent hs) hl) fun _ d₃ s₃ => ?_
    refine .bind (.branch hw (h c List.mem_cons_self) (s₃.fits hresult) s₃.made) ?_
    rintro _ d₄ ⟨g₄, rfl⟩
    refine .bind (.endCase (s₃.grow g₄)) fun _ d₅ s₅ => ?_
    refine .bind (ih (fun c' hc' => h c' (List.mem_cons_of_mem _ hc'))
      (fun c' hc' => hfuncs c' (List.mem_cons_of_mem _ hc')) s₅) fun b d₆ s₆ => ?_
    exact .pure (by rwa [← Bool.and_assoc])

theorem integralDefault (h : ∀ e ∈ default, Allowed strict m γ (.expr e))
    (hresult : Fits d result) (s : Since m (Cases strict m γ d earlier) d d₁) :
    Ensures d₁ (integralDefault w default isComplete result) fun b d' =>
      Since m (Switch strict m γ d (earlier && b)) d d' := by
  unfold Lowering.integralDefault
  split
  · next default =>
    refine .bind (.beginDefaultCase s) fun _ d₂ s₂ => ?_
    refine .bind (.branch hw (h default rfl) (s₂.fits hresult) s₂.made) ?_
    rintro _ d₃ ⟨g₃, rfl⟩
    exact .bind (.endCase_default (s₂.grow g₃)) fun _ _ s₄ => .pure s₄
  · split
    · refine .bind (.beginDefaultCase s) fun _ d₂ s₂ => ?_
      -- the line that marks a point that control never reaches ends the case
      have hline : Ensures d₂ Emit.unreachable fun _ d' =>
          Grows strict m true γ d₂ d' ∧ d'.func.terminated = true :=
        (Ensures.exitLine s₂.made).mono fun _ _ hw =>
          ⟨hw.grows (.stops rfl) fun _ => rfl, congrArg Control.terminated hw.control⟩
      refine .bind hline fun _ d₃ ⟨g₃, ht⟩ => ?_
      refine .bind (.endCase_default (s₂.grow g₃)) fun _ d₄ s₄ => .pure ?_
      rwa [ht] at s₄
    · exact .pure (by rw [Bool.and_false]; exact s.noDefault)

theorem integralSwitch {matched : Value} {matchedTy : Ty}
    (hcases : ∀ c ∈ cases, Allowed strict m γ (.expr c.expr))
    (hfuncs : ∀ c ∈ cases, ∀ func ∈ Const.funcsOf c.values, m.Reached (.func func))
    (hdefault : ∀ e ∈ default, Allowed strict m γ (.expr e)) (hmatched : Fits d matched) (hresult : Fits d result)
    (hd : WellMade m d) :
    Ensures d (integralSwitch m w matched matchedTy cases default isComplete result)
      fun b d' => Branched strict m γ d b d' := by
  have hbegin : Ensures d (Emit.beginSwitch matched) fun outer d' =>
      outer = d.func.loop.inSwitch ∧ Since m (Cases strict m γ d true) d d' := .beginSwitch hd hmatched
  refine .bind hbegin ?_
  rintro _ d₁ ⟨rfl, s₁⟩
  refine .bind (.integralCases hw hcases hfuncs hresult s₁) fun b d₂ s₂ => ?_
  refine .bind (.integralDefault hw hdefault hresult s₂) fun b' d₃ s₃ => ?_
  refine .bind (.endSwitch s₃) fun _ d₄ s₄ => .pure ?_
  rw [Bool.true_and] at s₄
  exact s₄.branched (.refl hd)

end Ensures

theorem Silently.stringTest {length first : C.Expr} {value : Const} (hlength : Fits d length)
    (hfirst : Fits d first) : Silently m d (stringTest length first value) := by
  unfold Lowering.stringTest
  split
  · next str =>
    split
    · exact .pure (hlength.prod (b := C.Expr.nat 0) (.of_nil rfl))
    · refine .bind (.addInclude (by decide)) fun _ d₁ s₁ _ => .bind .internString fun n d₂ s₂ _ => .pure ?_
      have hlength : Fits d₂ length := s₂.fits (s₁.fits hlength)
      have hargs : Fits d₂ [first, .name (.string n), .nat str.utf8ByteSize] :=
        .cons (s₂.fits (s₁.fits hfirst)) (.cons (.of_nil rfl) (.of_nil rfl))
      have hsizes : Fits d₂ (C.Expr.binary "==" length (.nat str.utf8ByteSize)) :=
        hlength.prod (b := C.Expr.nat _) (.of_nil rfl)
      have hbytes : Fits d₂ (C.Expr.binary "=="
          (.call (.symbol "memcmp") [first, .name (.string n), .nat str.utf8ByteSize]) (.nat 0)) :=
        Fits.prod (a := C.Expr.call _ _) (b := C.Expr.nat 0) hargs.expr_list (.of_nil rfl)
      exact hsizes.prod hbytes
  · exact .throw

theorem Fits.anyOf {tests : List C.Expr} (h : Fits d tests) : Fits d (anyOf tests) := by
  have hfold (es : List C.Expr) (e : C.Expr) (he : Fits d e) (hes : Fits d es) :
      Fits d (es.foldl (fun acc e => .binary "||" acc e) e) := by
    induction es generalizing e with
    | nil => exact he
    | cons e' es ih =>
      exact ih _ (he.prod (hes.of_mem List.mem_cons_self))
        (.list fun e'' he'' => hes.of_mem (List.mem_cons_of_mem _ he''))
  cases tests with
  | nil => exact .of_nil rfl
  | cons e es =>
    exact hfold es e (h.of_mem List.mem_cons_self) (.list fun e' he' => h.of_mem (List.mem_cons_of_mem _ he'))

theorem Silently.stringCaseCondition {matched : Value} {c : SwitchCase} (h : Fits d matched) :
    Silently m d (stringCaseCondition matched c) := by
  refine .bind (.member h) fun first d₁ s₁ hfirst => ?_
  refine .bind (.member (s₁.fits h)) fun last d₂ s₂ hlast => .lift fun length hlength => ?_
  have hfirst := s₂.fits hfirst
  have hlength := hlast.of_binary hfirst hlength
  refine .lift fun e he => ?_
  have he : Fits d₂ e := hfirst.of_renderParen he
  refine .bind (.mapM fun value _ d₃ s₃ => .stringTest (s₃.fits hlength) (s₃.fits he))
    fun tests d₃ s₃ htests => ?_
  exact .bind .boolType fun _ d₄ s₄ _ => .rvalue (s₄.fits htests).anyOf

namespace Ensures

variable {earlier : Bool} {cases : List SwitchCase} {default : Option ExprId} {matched : Value}

include hw

/-- The cases of a string switch after the first one. -/
theorem stringCases (h : ∀ c ∈ cases, Allowed strict m γ (.expr c.expr))
    (hmatched : Fits d matched) (hresult : Fits d result)
    (s : Since m (Open strict m γ (Conditional strict m γ d earlier)) d d₁) :
    Ensures d₁ (stringCases w matched result false cases) fun b d' =>
      ∃ e, Since m (Open strict m γ (Conditional strict m γ d e)) d d' ∧
        (e && d'.func.terminated) = (earlier && d₁.func.terminated && b) := by
  induction cases generalizing d₁ earlier with
  | nil => exact .pure ⟨earlier, s, (Bool.and_true _).symm⟩
  | cons c cases ih =>
    have htest : Silently m d₁ (stringCaseCondition matched c) :=
      .stringCaseCondition (s.fits hmatched)
    refine .bind (htest s.made) fun test d₂ ⟨hs, htest⟩ => ?_
    refine .bind (.beginElseIf (s.silent hs) htest) fun _ d₃ s₃ => ?_
    refine .bind (.branch hw (h c List.mem_cons_self) (s₃.fits hresult) s₃.made) ?_
    rintro _ d₄ ⟨g₄, rfl⟩
    refine .bind (ih (fun c' hc' => h c' (List.mem_cons_of_mem _ hc')) (s₃.grow g₄)) ?_
    rintro b d₅ ⟨e, s₅, he⟩
    refine .pure ⟨e, s₅, ?_⟩
    rw [he, hs.func, Bool.and_assoc]

/-- The cases of a string switch. -/
theorem stringCases_first {c : SwitchCase}
    (h : ∀ c' ∈ c :: cases, Allowed strict m γ (.expr c'.expr)) (hmatched : Fits d matched)
    (hresult : Fits d result) (hd : WellMade m d) :
    Ensures d (Lowering.stringCases w matched result true (c :: cases)) fun b d' =>
      ∃ d₀ e, Grows strict m true γ d d₀ ∧
        Since m (Open strict m γ (Conditional strict m γ d₀ e)) d₀ d' ∧
        (e && d'.func.terminated) = b := by
  have htest : Silently m d (stringCaseCondition matched c) := .stringCaseCondition hmatched
  refine .bind (htest hd) fun test d₁ ⟨hs, htest⟩ => ?_
  have hd₁ := hs.made hd
  have hbegin : Ensures d₁ (Emit.beginIf test) fun _ d' =>
      Since m (Open strict m γ (Conditional strict m γ d₁ true)) d₁ d' := .beginIf hd₁ htest
  refine .bind hbegin fun _ d₂ s₂ => ?_
  have hresult : Fits d₁ result := hs.fits hresult
  refine .bind (.branch hw (h c List.mem_cons_self) (s₂.fits hresult) s₂.made) ?_
  rintro _ d₃ ⟨g₃, rfl⟩
  refine .bind (.stringCases hw (fun c' hc' => h c' (List.mem_cons_of_mem _ hc')) (hs.fits hmatched)
    hresult (s₂.grow g₃)) ?_
  rintro b d₄ ⟨e, s₄, he⟩
  exact .pure ⟨d₁, e, hs.grows hd, s₄, by rw [he, Bool.true_and]⟩

theorem stringSwitch (hcases : ∀ c ∈ cases, Allowed strict m γ (.expr c.expr))
    (hdefault : ∀ e ∈ default, Allowed strict m γ (.expr e)) (hmatched : Fits d matched)
    (hresult : Fits d result) (hd : WellMade m d) :
    Ensures d (stringSwitch w matched cases default result) fun b d' =>
      Branched strict m γ d b d' := by
  have hmaterialize : Lowers strict m true γ d (Emit.materialize matched) := .materialize hmatched
  refine .bind (hmaterialize hd) fun matched d₁ ⟨g₁, hmatched⟩ => ?_
  have hresult := g₁.fits hresult
  split
  · next default _ =>
    refine (Ensures.branch hw (hdefault default rfl) hresult g₁.made).mono ?_
    rintro _ d₂ ⟨g₂, rfl⟩
    exact g₂.joined.branched g₁
  · exact .pure ⟨g₁, nofun⟩
  · next default _ _ hsome hnone =>
    cases hfilter : cases.filter (!·.values.isEmpty) with
    | nil =>
      cases default with
      | none => exact (hnone hfilter rfl).elim
      | some default => exact (hsome default hfilter rfl).elim
    | cons c cases' =>
      have hcases' : ∀ c' ∈ c :: cases', Allowed strict m γ (.expr c'.expr) :=
        fun c' hc' => hcases c' (List.mem_filter.1 (hfilter ▸ hc')).1
      refine .bind (.stringCases_first hw hcases' hmatched hresult g₁.made) ?_
      rintro _ d₂ ⟨d₀, e, g₀, s₂, rfl⟩
      have hresult : Fits d₀ result := g₀.fits hresult
      dsimp only
      split
      · next default =>
        refine .bind (.beginElse s₂) fun _ d₃ s₃ => ?_
        refine .bind (.branch hw (hdefault default rfl) (s₃.fits hresult) s₃.made) ?_
        rintro _ d₄ ⟨g₄, rfl⟩
        refine .bind (.endIf_alternative (s₃.grow g₄)) fun _ d₅ s₅ => ?_
        exact .pure (s₅.branched (g₁.trans g₀))
      · refine .pure_bind (.bind (.endIf s₂) fun _ d₃ s₃ => .pure ?_)
        rw [Bool.and_false]
        exact s₃.branched (g₁.trans g₀)

end Ensures

include hw in
theorem Lowers.switchOn {matched : ExprId} {cases : List SwitchCase} {default : Option ExprId}
    (h : Allowed strict m γ (.expr matched)) (hcases : ∀ c ∈ cases, Allowed strict m γ (.expr c.expr))
    (hfuncs : ∀ c ∈ cases, ∀ func ∈ Const.funcsOf c.values, m.Reached (.func func))
    (hdefault : ∀ e ∈ default, Allowed strict m γ (.expr e)) (hdest : Fits d dest) :
    Lowers strict m bal γ d
      (switchOn m w ty category matched cases default isComplete dest) := by
  refine .lift fun matchedTy _ => .bind (.condition hw h) fun matched d₁ g₁ hmatched => ?_
  refine .bind (.beginBranches (g₁.fits hdest)) fun result d₂ g₂ hresult hd₂ => ?_
  have hmatched := g₂.fits hmatched
  have hjoin {b : Bool} {d' : Draft} (hb : Branched strict m γ d₂ b d') :
      Ensures d' (joinBranches b result) fun a d' =>
        Grows strict m bal γ d₂ d' ∧ Fits d' a :=
    .joinBranches hb (hb.grows.fits hresult)
  dsimp only
  split
  · exact .bind (.stringSwitch hw hcases hdefault hmatched hresult hd₂) fun _ _ hb => hjoin hb
  · exact .bind (.integralSwitch hw hcases hfuncs hdefault hmatched hresult hd₂) fun _ _ hb => hjoin hb

/-! ### Loop exits -/

/-- A number is given out as a label of the innermost loop. -/
theorem Ensures.newLabel {α : Type} {f : LoopState → Option Nat → LoopState} {k : Nat → Emit α}
    {Φ : α → Draft → Prop} (hd : WellMade m d)
    (hk : ∀ d', Writes m [] { d.func.control with
        counter := d.func.counter + 1, loop := f d.func.loop (some d.func.counter) } d d' →
      Ensures d' (k d.func.counter) Φ) :
    Ensures d (do
      let label ← Emit.freshNumber
      Emit.modifyFunction fun g => { g with loop := f g.loop (some label) }
      k label) Φ := by
  refine .bind (.freshNumber hd) ?_
  rintro _ d₁ ⟨rfl, h₁⟩
  refine .modifyFunction_bind (hk _ ⟨h₁.steps, ?_, ?_, h₁.rest.trans ⟨rfl, rfl, .single (.body _), rfl⟩⟩)
  · exact congrArg (fun c : Control => { c with loop := f c.loop (some d.func.counter) }) h₁.control
  · exact h₁.made.congr rfl rfl rfl id (List.Subset.refl _) rfl le_rfl h₁.made.terminated

/-- What an exit of the innermost loop jumps to. -/
def ExitLabel (m : Module) (exit : LoopExit) (plain : C.Line) (label : Emit (Option Nat)) : Prop :=
  ∀ d, WellMade m d → Ensures d label fun n d' =>
    ∃ c, Writes m [] c d d' ∧ Leaves exit d.func.control (n.elim plain .goto) c

theorem ExitLabel.breakLabel? : ExitLabel m .out .breakOut Emit.breakLabel? := by
  intro d hd
  have hnone : Writes m [] d.func.control d d := ⟨(List.append_nil _).symm, rfl, hd, .refl m d⟩
  refine .getFunction_bind ?_
  split
  · next hswitch =>
    split
    · next n hn => exact .pure ⟨_, hnone, .breakTo hswitch hn⟩
    · next hn =>
      refine .newLabel (f := fun loop n => { loop with breakLabel := n }) hd fun d' hw => ?_
      exact .pure ⟨_, hw, .breakToNew hswitch hn⟩
  · next hswitch => exact .pure ⟨_, hnone, .breakOut (Bool.of_not_eq_true hswitch)⟩

theorem ExitLabel.continueLabel? : ExitLabel m .next .continueLoop Emit.continueLabel? := by
  intro d hd
  have hnone : Writes m [] d.func.control d d := ⟨(List.append_nil _).symm, rfl, hd, .refl m d⟩
  refine .getFunction_bind ?_
  split
  · next hneeds =>
    split
    · next n hn => exact .pure ⟨_, hnone, .continueAt hneeds hn⟩
    · next hn =>
      refine .newLabel (f := fun loop n => { loop with continueLabel := n }) hd fun d' hw => ?_
      exact .pure ⟨_, hw, .continueAtNew hneeds hn⟩
  · next hneeds => exact .pure ⟨_, hnone, .continueLoop (Bool.of_not_eq_true hneeds)⟩

namespace Lowers

include hw

/-- The cleanups of the innermost loop are run, and it is left or gone on with. -/
theorem exitLoop (ha : Admits strict m γ) (hγ : γ.jumps = true)
    {exit : LoopExit} {plain : C.Line} {label : Emit (Option Nat)}
    (hlabel : ExitLabel m exit plain label) :
    Lowers strict m bal γ d (do
      w.runLoopCleanups
      Emit.note (.exitsLoop exit)
      match ← label with
      | some n => Emit.exitLine (.goto n)
      | none => Emit.exitLine plain) := by
  intro hd
  refine .bind (hw.runLoopCleanups ha hd) fun _ d₁ s₁ => .bind (.note s₁.made nofun) fun _ d₂ h₂ => ?_
  refine .bind (hlabel d₂ h₂.made) fun n d₃ ⟨c, h₃, hl⟩ => ?_
  obtain ⟨L, hL, he⟩ := s₁.written
  rw [h₂.control] at hl
  have hline : Ensures d₃ (Emit.exitLine (n.elim plain .goto)) fun a d' =>
      Grows strict m bal γ d d' ∧ Fits d' a := by
    refine (Ensures.exitLine h₃.made).mono fun _ d₄ h₄ => ⟨?_, .of_nil rfl⟩
    rw [h₃.control] at h₄
    have hemits := Emits.exits hγ he hl
    refine ⟨⟨_, ?_, h₄.control ▸ hemits⟩, fun _ => ?_, h₄.made,
      ((s₁.rest.trans h₂.rest).trans h₃.rest).trans h₄.rest⟩
    · rw [h₄.steps, h₃.steps, h₂.steps, hL]
      simp
    · exact (congrArg Control.cleanups h₄.control).trans (hl.balanced.1.trans he.balanced.1)
  cases n with
  | some n => exact hline
  | none => exact hline

theorem breakLoop (ha : Admits strict m γ) (hγ : γ.jumps = true) :
    Lowers strict m bal γ d (breakLoop w) :=
  .exitLoop hw ha hγ .breakLabel?

theorem continueLoop (ha : Admits strict m γ) (hγ : γ.jumps = true) :
    Lowers strict m bal γ d (continueLoop w) :=
  .exitLoop hw ha hγ .continueLabel?

end Lowers

end CBackend
