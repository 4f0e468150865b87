import CBackend.Lowering.Access
import CBackend.Proofs.Lowering.Operators
import Mathlib.Data.List.ReduceOption

/-!
# Plans and parts in growing drafts

What lowering writes for the copies, moves, destructions, swaps and assignments of compound values, and
for their parts. The plan for the elements of an array is lowered inside a loop, in which only some exits
are allowed.
-/

namespace CBackend

open IR Flow Emission Lowering
open C (CType)

namespace Lowers

variable {strict : Bool} {m : Module} {bal : Bool} {γ : Exits} {d d₁ : Draft} {v v' : Value}
  {dest : Option Value} {ty : Ty} {es : List ExprId} {plan source : ExprId} {isCopy : Bool}

/-! ### The shapes of plans -/

/-- Code under the condition that two values are not the same object. -/
theorem guarded {guard : Bool} {body : Emit Unit} (hv : Fits d v) (hv' : Fits d v')
    (hbody : ∀ d₁, Retains d d₁ →
      Lowers strict m true γ d₁ body) :
    Lowers strict m bal γ d (guarded guard v v' body) := by
  unfold Lowering.guarded
  split
  · refine .beginIfDistinct hv hv' fun d₁ s₁ => ?_
    refine .bind (s₁.run (hbody d₁ s₁.retains)) fun _ d₂ ⟨s₂, _⟩ => ?_
    exact (Ensures.endIf s₂).mono fun _ _ s => ⟨s.grows, .of_nil rfl⟩
  · exact (hbody d (.refl d)).unbalanced

/-- Code for each pair of elements of two arrays. -/
theorem overElements {size : Nat} {body : Value → Value → Emit Unit} (hv : Fits d v) (hv' : Fits d v')
    (hbody : ∀ d₁ e e', Retains d d₁ → Fits d₁ e →
      Fits d₁ e' → Lowers strict m true (γ.inElements strict) d₁ (body e e')) :
    Lowers strict m bal γ d (do
      let index ← Emit.beginIndexLoop size
      let elem ← Emit.element v index
      let elem' ← Emit.element v' index
      body elem elem'
      Emit.endIndexLoop index) := by
  refine .beginIndexLoop fun index d₁ h₁ hindex => ?_
  refine .bind (h₁.run (.element (h₁.fits hv) hindex)) fun e d₂ ⟨h₂, g₂, he⟩ => ?_
  have hindex := g₂.fits hindex
  refine .bind (h₂.run (.element (h₂.fits hv') hindex)) fun e' d₃ ⟨h₃, g₃, he'⟩ => ?_
  refine .bind (h₃.run (hbody d₃ e e' h₃.retains (g₃.fits he) he')) fun _ d₄ ⟨h₄, g₄, _⟩ => ?_
  exact (Ensures.endIndexLoop h₄ (g₄.fits (g₃.fits hindex))).mono fun _ _ g => ⟨g, .of_nil rfl⟩

/-- Code for each pair of members of two values. -/
theorem overMembers (body : ExprId → Value → Value → Emit Unit) (hv : Fits d v) (hv' : Fits d v')
    (hbody : ∀ e ∈ es, ∀ d₁ a b, Retains d d₁ → Fits d₁ a → Fits d₁ b →
      Lowers strict m bal γ d₁ (body e a b)) :
    Lowers strict m bal γ d (es.zipIdx.forM fun x => do
      let a ← Emit.member v x.2
      let b ← Emit.member v' x.2
      body x.1 a b) := by
  refine .forM fun x hx d₁ g₁ => ?_
  refine .bind (.member (g₁.fits hv)) fun a d₂ g₂ ha => ?_
  refine .bind (.member (g₂.fits (g₁.fits hv'))) fun b d₃ g₃ hb => ?_
  exact hbody x.1 (List.fst_mem_of_mem_zipIdx hx) d₃ a b
    ((g₁.retains.trans g₂.retains).trans g₃.retains) (g₃.fits ha) hb

theorem swapBytes (hv : Fits d v) (hv' : Fits d v') :
    Lowers strict m bal γ d (swapBytes v v') := by
  refine .guarded hv hv' fun d₁ h => .bind (.copyToLocal (h.fits hv)) fun temp d₂ g₂ htemp => ?_
  refine .bind (.assign (g₂.fits (h.fits hv)) (g₂.fits (h.fits hv'))) fun _ d₃ g₃ _ => ?_
  exact .assign (g₃.fits (g₂.fits (h.fits hv'))) (g₃.fits htemp)

theorem copyBytes (hv : Fits d v) (hdest : Fits d dest) :
    Lowers strict m bal γ d (copyBytes v dest) := by
  unfold Lowering.copyBytes
  split
  · exact .bind (.assign hdest hv) fun _ _ g _ => .pure (g.fits hdest : Fits _ _)
  · split
    · exact .pure hv
    · exact .copyToLocal hv

section

variable {w : Walk} (hw : w.Sound strict m)

include hw

/-! ### Construction -/

theorem aggregateConstruct (h : Allowed strict m γ (.expr source)) (hes : ∀ e ∈ es, Allowed strict m γ (.expr e))
    (hdest : Fits d dest) :
    Lowers strict m false γ d (aggregateConstruct m w source es ty dest isCopy) := by
  refine .lift fun guard _ => .bind (hw.expr h .none) fun _ d₁ g₁ hv => ?_
  refine .bind (.materialize hv) fun v d₂ g₂ hv => ?_
  refine .bind (.resultStorage (g₂.fits (g₁.fits hdest))) fun result d₃ g₃ hresult => ?_
  have hv := g₃.fits hv
  refine .bind (.guarded hresult hv fun d₄ h₄ => ?_) fun _ d₄ g₄ _ => .pure (g₄.fits hresult)
  refine .overMembers (fun e a b => w.withBound [a] e (some b)) (h₄.fits hv) (h₄.fits hresult)
    fun e he d₅ a b _ ha hb => ?_
  exact hw.withBound (hes e he) (ha.cons .nil) hb.some

theorem arrayConstruct (h : Allowed strict m γ (.expr source))
    (hplan : Allowed strict m (γ.inElements strict) (.expr plan)) (hdest : Fits d dest) :
    Lowers strict m false γ d (arrayConstruct m w source plan ty dest isCopy) := by
  refine .lift fun guard _ => .bind (hw.expr h .none) fun _ d₁ g₁ hv => ?_
  refine .bind (.materialize hv) fun v d₂ g₂ hv => ?_
  refine .bind (.resultStorage (g₂.fits (g₁.fits hdest))) fun result d₃ g₃ hresult => ?_
  have hv := g₃.fits hv
  refine .bind (.guarded hresult hv fun d₄ h₄ => ?_) fun _ d₄ g₄ _ => .pure (g₄.fits hresult)
  refine .bind Silently.arrayShape.lowers fun shape d₅ g₅ _ => ?_
  refine .overElements (g₅.fits (h₄.fits hv)) (g₅.fits (h₄.fits hresult)) fun d₆ a b _ ha hb => ?_
  exact hw.withBound hplan (ha.cons .nil) hb.some

theorem optionalConstruct (h : Allowed strict m γ (.expr source)) (hplan : Allowed strict m γ (.expr plan))
    (hdest : Fits d dest) :
    Lowers strict m false γ d (optionalConstruct m w source plan ty dest isCopy) := by
  unfold Lowering.optionalConstruct
  split
  · exact .bind (hw.expr h .none) fun _ _ g hv => .copyBytes hv (g.fits hdest)
  · refine .lift fun guard _ => .bind (hw.expr h .none) fun _ d₁ g₁ hv => ?_
    refine .bind (.materialize hv) fun v d₂ g₂ hv => ?_
    refine .bind (.resultStorage (g₂.fits (g₁.fits hdest))) fun result d₃ g₃ hresult => ?_
    have hv := g₃.fits hv
    refine .bind (.guarded hresult hv fun d₄ h₄ => ?_) fun _ d₄ g₄ _ => .pure (g₄.fits hresult)
    refine .bind (.optionalHasValue (h₄.fits hv)) fun has d₅ g₅ hhas => ?_
    refine .bind (.optionalHasValue (g₅.fits (h₄.fits hresult))) fun has' d₆ g₆ hhas' => ?_
    refine .bind (.assign hhas' (g₆.fits hhas)) fun _ d₇ g₇ _ => ?_
    have hkeep := ((h₄.trans g₅.retains).trans g₆.retains).trans g₇.retains
    refine .beginIf (g₇.fits (g₆.fits hhas)) fun d₈ s₈ => ?_
    have hkeep := hkeep.trans s₈.retains
    refine .bind (s₈.run (.optionalValue (hkeep.fits hv))) fun a d₉ ⟨s₉, g₉, ha⟩ => ?_
    refine .bind (s₉.run (.optionalValue (g₉.fits (hkeep.fits hresult)))) fun b d' ⟨s', g', hb⟩ => ?_
    refine .bind (s'.run (hw.withBound hplan ((g'.fits ha).cons .nil) hb.some)) fun _ d'' ⟨s'', _⟩ => ?_
    exact (Ensures.endIf s'').mono fun _ _ s => ⟨s.grows, .of_nil rfl⟩

/-! ### Destruction -/

theorem memberDestructs {calls : List (Option ExprId)} (hv : Fits d v)
    (hcalls : ∀ call ∈ calls.reduceOption, Allowed strict m γ (.expr call)) :
    Lowers strict m bal γ d (memberDestructs w v calls) := by
  refine .forM fun x hx d₁ g₁ => ?_
  dsimp only
  split
  · next call hcall =>
    have hmem : some call ∈ calls := hcall ▸ List.fst_mem_of_mem_zipIdx (List.mem_reverse.1 hx)
    refine .bind (.member (g₁.fits hv)) fun part d₂ g₂ hpart => ?_
    exact hw.withBound (hcalls call (List.reduceOption_mem_iff.2 hmem)) (hpart.cons .nil) .none
  · exact .pure (.of_nil rfl)

theorem arrayDestruct {value : ExprId} (h : Allowed strict m γ (.expr value))
    (hplan : Allowed strict m (γ.inElements strict) (.expr plan)) :
    Lowers strict m false γ d (arrayDestruct w value plan) := by
  refine .bind (hw.expr h .none) fun v d₁ _ hv => .bind Silently.arrayShape.lowers fun _ d₂ g₂ _ => ?_
  refine .beginReversedIndexLoop fun index d₃ h₃ hindex => ?_
  refine .bind (h₃.run (.element (h₃.fits (g₂.fits hv)) hindex)) fun e d₄ ⟨h₄, _, he⟩ => ?_
  refine .bind (h₄.run (hw.withBound hplan (he.cons .nil) .none)) fun _ d₅ ⟨h₅, _⟩ => ?_
  exact (Ensures.endWhile h₅).mono fun _ _ g => ⟨g, .of_nil rfl⟩

theorem optionalDestruct {value : ExprId} (h : Allowed strict m γ (.expr value))
    (hplan : Allowed strict m γ (.expr plan)) :
    Lowers strict m false γ d (optionalDestruct m w value plan) := by
  refine .lift fun ty _ => .bind (hw.expr h .none) fun v d₁ _ hv => ?_
  refine .bind (.optionalHasValue hv) fun has d₂ g₂ hhas => .beginIf hhas fun d₃ s₃ => ?_
  refine .bind (s₃.run (.optionalValue (s₃.fits (g₂.fits hv)))) fun payload d₄ ⟨s₄, _, hpayload⟩ => ?_
  refine .bind (s₄.run (hw.withBound hplan (hpayload.cons .nil) .none)) fun _ d₅ ⟨s₅, _⟩ => ?_
  exact (Ensures.endIf s₅).mono fun _ _ s => ⟨s.grows, .of_nil rfl⟩

/-! ### Swaps -/

variable {lhs rhs : ExprId} (h₁ : Allowed strict m γ (.expr lhs)) (h₂ : Allowed strict m γ (.expr rhs))

include h₁ h₂

theorem aggregateSwap (hes : ∀ e ∈ es, Allowed strict m γ (.expr e)) :
    Lowers strict m false γ d (aggregateSwap m w lhs rhs es) := by
  refine .bind (.operandPair hw h₁ h₂) fun ⟨l, r⟩ d₁ _ hlr => .guarded hlr.fst hlr.snd fun d₂ h => ?_
  refine .overMembers (fun e a b => w.withBound [a, b] e none) (h.fits hlr.fst) (h.fits hlr.snd)
    fun e he d₃ a b _ ha hb => ?_
  exact hw.withBound (hes e he) (ha.cons (hb.cons .nil)) .none

theorem arraySwap (hplan : Allowed strict m (γ.inElements strict) (.expr plan)) :
    Lowers strict m false γ d (arraySwap m w lhs rhs plan) := by
  refine .bind (.operandPair hw h₁ h₂) fun ⟨l, r⟩ d₁ _ hlr => .guarded hlr.fst hlr.snd fun d₂ h => ?_
  refine .bind Silently.arrayShape.lowers fun shape d₃ g₃ _ => ?_
  refine .overElements (g₃.fits (h.fits hlr.fst)) (g₃.fits (h.fits hlr.snd)) fun d₄ a b _ ha hb => ?_
  exact hw.withBound hplan (ha.cons (hb.cons .nil)) .none

omit hw h₁ h₂ in
theorem snapshotHasValues (hv : Fits d v) (hv' : Fits d v') :
    Lowers strict m bal γ d (snapshotHasValues v v' ty) := by
  refine .bind (.optionalHasValue hv) fun _ d₁ g₁ ha => .bind (.copyToLocal ha) fun a d₂ g₂ ha => ?_
  refine .bind (.optionalHasValue (g₂.fits (g₁.fits hv'))) fun _ d₃ g₃ hb => ?_
  refine .bind (.copyToLocal hb) fun b d₄ g₄ hb => .lift fun e he => ?_
  have ha := g₄.fits (g₃.fits ha)
  have he := ha.of_binary hb he
  refine .bind Silently.boolType.lowers fun _ d₅ g₅ _ => .bind (.rvalue (g₅.fits he)) fun both d₆ g₆ hboth => ?_
  exact .pure ((g₆.fits (g₅.fits ha)).prod ((g₆.fits (g₅.fits hb)).prod hboth))

theorem optionalSwap {swapPlan leftPlan rightPlan : ExprId}
    (hswap : Allowed strict m γ (.expr swapPlan)) (hleft : Allowed strict m γ (.expr leftPlan))
    (hright : Allowed strict m γ (.expr rightPlan)) :
    Lowers strict m false γ d (optionalSwap m w lhs rhs swapPlan leftPlan rightPlan) := by
  refine .lift fun ty _ => .bind (.operandPair hw h₁ h₂) fun ⟨l, r⟩ d₁ _ hlr => ?_
  dsimp only
  split
  · exact .swapBytes hlr.fst hlr.snd
  · refine .guarded hlr.fst hlr.snd fun d₂ hr₂ => ?_
    refine .bind (.snapshotHasValues (hr₂.fits hlr.fst) (hr₂.fits hlr.snd)) fun ⟨a, b, both⟩ d₃ g₃ hab => ?_
    have hl := g₃.fits (hr₂.fits hlr.fst)
    have hr := g₃.fits (hr₂.fits hlr.snd)
    refine .bind (.optionalValue hl) fun x d₄ g₄ hx => ?_
    refine .bind (.optionalValue (g₄.fits hr)) fun y d₅ g₅ hy => ?_
    have hx := g₅.fits hx
    have hab := g₅.fits (g₄.fits hab)
    have hl := g₅.fits (g₄.fits hl)
    have hr := g₅.fits (g₄.fits hr)
    refine .beginIf hab.snd.snd fun d₆ s₆ => ?_
    refine .bind (s₆.run (hw.withBound hswap ((s₆.fits hx).cons ((s₆.fits hy).cons .nil)) .none))
      fun _ d₇ ⟨s₇, _⟩ => ?_
    refine .bind (.beginElseIf s₇ (s₇.fits hab.fst)) fun _ d₈ s₈ => ?_
    refine .bind (s₈.run (hw.withBound hleft ((s₈.fits hx).cons .nil) (s₈.fits hy).some))
      fun _ d₉ ⟨s₉, _⟩ => ?_
    refine .bind (s₉.run (.setHasValue (s₉.fits hl))) fun _ d₉ ⟨s₉, _⟩ => ?_
    refine .bind (s₉.run (.setHasValue (s₉.fits hr))) fun _ d₉ ⟨s₉, _⟩ => ?_
    refine .bind (.beginElseIf s₉ (s₉.fits hab.snd.fst)) fun _ d₉ s₉ => ?_
    refine .bind (s₉.run (hw.withBound hright ((s₉.fits hy).cons .nil) (s₉.fits hx).some))
      fun _ d₉ ⟨s₉, _⟩ => ?_
    refine .bind (s₉.run (.setHasValue (s₉.fits hl))) fun _ d₉ ⟨s₉, _⟩ => ?_
    refine .bind (s₉.run (.setHasValue (s₉.fits hr))) fun _ d₉ ⟨s₉, _⟩ => ?_
    exact (Ensures.endIf s₉).mono fun _ _ s => ⟨s.grows, .of_nil rfl⟩

theorem baseTypeSwap {leftPlan rightPlan tempPlan : ExprId}
    (hleft : Allowed strict m γ (.expr leftPlan)) (hright : Allowed strict m γ (.expr rightPlan))
    (htemp : Allowed strict m γ (.expr tempPlan)) :
    Lowers strict m false γ d (baseTypeSwap m w lhs rhs leftPlan rightPlan tempPlan) := by
  refine .bind (.operandPair hw h₁ h₂) fun ⟨l, r⟩ d₁ _ hlr => .guarded hlr.fst hlr.snd fun d₂ hr₂ => ?_
  refine .bind .declareLocal fun temp d₃ g₃ ht => ?_
  have hl := g₃.fits (hr₂.fits hlr.fst)
  have hr := g₃.fits (hr₂.fits hlr.snd)
  refine .bind (hw.withBound hleft (hl.cons .nil) ht.some) fun _ d₄ g₄ _ => ?_
  refine .bind (hw.withBound hright ((g₄.fits hr).cons .nil) (g₄.fits hl).some) fun _ d₅ g₅ _ => ?_
  exact hw.withBound htemp ((g₅.fits (g₄.fits ht)).cons .nil) (g₅.fits (g₄.fits hr)).some

theorem trivialSwap : Lowers strict m false γ d (trivialSwap m w lhs rhs) :=
  .bind (.operandPair hw h₁ h₂) fun ⟨_, _⟩ _ _ hlr => .swapBytes hlr.fst hlr.snd

/-! ### Assignments -/

theorem assignOperands : Lowers strict m false γ d (assignOperands m w lhs rhs) := by
  refine .lift fun isStored _ => .bind (.operandPair hw h₂ h₁) fun ⟨r, l⟩ _ _ hrl => ?_
  exact .pure (hrl.snd.prod (hrl.fst.prod (.of_nil rfl)))

theorem aggregateAssign (hes : ∀ e ∈ es, Allowed strict m γ (.expr e)) :
    Lowers strict m false γ d (aggregateAssign m w lhs rhs es) := by
  refine .bind (.assignOperands hw h₁ h₂) fun ⟨l, r, guard⟩ d₁ _ hlr => ?_
  have hl := hlr.fst
  have hr := hlr.snd.fst
  refine .bind (.guarded hl hr fun d₂ h => ?_) fun _ _ g _ => .pure (g.fits hl)
  refine .overMembers (fun e a b => w.withBound [a, b] e none) (h.fits hl) (h.fits hr)
    fun e he d₃ a b _ ha hb => ?_
  exact hw.withBound (hes e he) (ha.cons (hb.cons .nil)) .none

theorem arrayAssign (hplan : Allowed strict m (γ.inElements strict) (.expr plan)) :
    Lowers strict m false γ d (arrayAssign m w lhs rhs plan) := by
  refine .bind (.assignOperands hw h₁ h₂) fun ⟨l, r, guard⟩ d₁ _ hlr => ?_
  have hl := hlr.fst
  have hr := hlr.snd.fst
  refine .bind (.guarded hl hr fun d₂ h => ?_) fun _ _ g _ => .pure (g.fits hl)
  refine .bind Silently.arrayShape.lowers fun shape d₃ g₃ _ => ?_
  refine .overElements (g₃.fits (h.fits hl)) (g₃.fits (h.fits hr)) fun d₄ a b _ ha hb => ?_
  exact hw.withBound hplan (ha.cons (hb.cons .nil)) .none

theorem optionalAssign {assignPlan constructPlan destructPlan : ExprId}
    (hassign : Allowed strict m γ (.expr assignPlan))
    (hconstruct : Allowed strict m γ (.expr constructPlan))
    (hdestruct : Allowed strict m γ (.expr destructPlan)) :
    Lowers strict m false γ d
      (optionalAssign m w lhs rhs assignPlan constructPlan destructPlan) := by
  refine .lift fun ty _ => .bind (.assignOperands hw h₁ h₂) fun ⟨l, r, guard⟩ d₁ _ hlr => ?_
  have hl := hlr.fst
  have hr := hlr.snd.fst
  dsimp only
  split
  · exact .bind (.assign hl hr) fun _ _ g _ => .pure (g.fits hl)
  · refine .bind (.guarded hl hr fun d₂ hr₂ => ?_) fun _ _ g _ => .pure (g.fits hl)
    refine .bind (.snapshotHasValues (hr₂.fits hl) (hr₂.fits hr)) fun ⟨a, b, both⟩ d₃ g₃ hab => ?_
    have hl := g₃.fits (hr₂.fits hl)
    have hr := g₃.fits (hr₂.fits hr)
    refine .bind (.optionalValue hl) fun x d₄ g₄ hx => ?_
    refine .bind (.optionalValue (g₄.fits hr)) fun y d₅ g₅ hy => ?_
    have hx := g₅.fits hx
    have hab := g₅.fits (g₄.fits hab)
    have hl := g₅.fits (g₄.fits hl)
    refine .beginIf hab.snd.snd fun d₆ s₆ => ?_
    refine .bind (s₆.run (hw.withBound hassign ((s₆.fits hx).cons ((s₆.fits hy).cons .nil)) .none))
      fun _ d₇ ⟨s₇, _⟩ => ?_
    refine .bind (.beginElseIf s₇ (s₇.fits hab.fst)) fun _ d₈ s₈ => ?_
    refine .bind (s₈.run (hw.withBound hdestruct ((s₈.fits hx).cons .nil) .none)) fun _ d₉ ⟨s₉, _⟩ => ?_
    refine .bind (s₉.run (.setHasValue (s₉.fits hl))) fun _ d₉ ⟨s₉, _⟩ => ?_
    refine .bind (.beginElseIf s₉ (s₉.fits hab.snd.fst)) fun _ d₉ s₉ => ?_
    refine .bind (s₉.run (hw.withBound hconstruct ((s₉.fits hy).cons .nil) (s₉.fits hx).some))
      fun _ d₉ ⟨s₉, _⟩ => ?_
    refine .bind (s₉.run (.setHasValue (s₉.fits hl))) fun _ d₉ ⟨s₉, _⟩ => ?_
    exact (Ensures.endIf s₉).mono fun _ _ s => ⟨s.grows, .of_nil rfl⟩

theorem optionalNullAssign {plan : Option ExprId} (hplan : ∀ e ∈ plan, Allowed strict m γ (.expr e)) :
    Lowers strict m false γ d (optionalNullAssign m w lhs rhs plan) := by
  refine .lift fun ty _ => .bind (.discard (hw.expr h₂ .none)) fun _ _ _ _ => ?_
  refine .bind (hw.expr h₁ .none) fun l d₁ _ hl => ?_
  dsimp only
  split
  · refine .bind (.rvalue (.of_nil rfl)) fun zero _ g hzero => ?_
    exact .bind (.assign (g.fits hl) hzero) fun _ _ g' _ => .pure (g'.fits (g.fits hl))
  · split
    · next e =>
      refine .bind (.optionalHasValue hl) fun has d₂ g₂ hhas => ?_
      have hl := g₂.fits hl
      refine .beginIf hhas fun d₃ s₃ => ?_
      refine .bind (s₃.run (.optionalValue (s₃.fits hl))) fun x d₄ ⟨s₄, _, hx⟩ => ?_
      refine .bind (s₄.run (hw.withBound (hplan e rfl) (hx.cons .nil) .none)) fun _ d₅ ⟨s₅, _⟩ => ?_
      refine .bind (s₅.run (.setHasValue (s₅.fits hl))) fun _ d₆ ⟨s₆, _⟩ => ?_
      exact .bind (.endIf s₆) fun _ _ s => .pure ⟨s.grows, s.fits hl⟩
    · exact .bind (.setHasValue hl) fun _ _ g _ => .pure (g.fits hl)

theorem optionalValueAssign {assignPlan constructPlan : ExprId}
    (hassign : Allowed strict m γ (.expr assignPlan))
    (hconstruct : Allowed strict m γ (.expr constructPlan)) :
    Lowers strict m false γ d
      (optionalValueAssign m w lhs rhs assignPlan constructPlan) := by
  refine .lift fun ty _ => .bind (.assignOperands hw h₁ h₂) fun ⟨l, r, guard⟩ d₁ _ hlr => ?_
  have hl := hlr.fst
  have hr := hlr.snd.fst
  dsimp only
  split
  · exact .bind (.assign hl hr) fun _ _ g _ => .pure (g.fits hl)
  · refine .bind (.optionalHasValue hl) fun has d₂ g₂ hhas => ?_
    refine .bind (.optionalValue (g₂.fits hl)) fun x d₃ g₃ hx => ?_
    have hl := g₃.fits (g₂.fits hl)
    have hr := g₃.fits (g₂.fits hr)
    refine .beginIf (g₃.fits hhas) fun d₄ s₄ => ?_
    refine .bind (s₄.run (hw.withBound hassign ((s₄.fits hx).cons ((s₄.fits hr).cons .nil)) .none))
      fun _ d₅ ⟨s₅, _⟩ => ?_
    refine .bind (.beginElse s₅) fun _ d₆ s₆ => ?_
    refine .bind (s₆.run (hw.withBound hconstruct ((s₆.fits hr).cons .nil) (s₆.fits hx).some))
      fun _ d₇ ⟨s₇, _⟩ => ?_
    refine .bind (s₇.run (.setHasValue (s₇.fits hl))) fun _ d₈ ⟨s₈, _⟩ => ?_
    exact .bind (.endIf_alternative s₈) fun _ _ s => .pure ⟨s.grows, s.fits hl⟩

theorem optionalReferenceAssign :
    Lowers strict m false γ d (optionalReferenceAssign w lhs rhs) := by
  refine .bind (hw.expr h₂ .none) fun _ _ _ hv => .bind (.addressOf hv) fun address _ _ haddress => ?_
  refine .bind (hw.expr h₁ .none) fun l _ g hl => ?_
  exact .bind (.assign hl (g.fits haddress)) fun _ _ g' _ => .pure (g'.fits hl)

theorem baseTypeAssign {destructPlan copyPlan : ExprId}
    (hdestruct : Allowed strict m γ (.expr destructPlan))
    (hcopy : Allowed strict m γ (.expr copyPlan)) :
    Lowers strict m false γ d (baseTypeAssign m w lhs rhs destructPlan copyPlan) := by
  refine .bind (.assignOperands hw h₁ h₂) fun ⟨l, r, guard⟩ d₁ _ hlr => ?_
  have hl := hlr.fst
  have hr := hlr.snd.fst
  refine .bind (.guarded hl hr fun d₂ h => ?_) fun _ _ g _ => .pure (g.fits hl)
  refine .bind (hw.withBound hdestruct ((h.fits hl).cons .nil) .none) fun _ _ g _ => ?_
  exact hw.withBound hcopy ((g.fits (h.fits hr)).cons .nil) (g.fits (h.fits hl)).some

theorem trivialAssign : Lowers strict m false γ d (trivialAssign m w lhs rhs) := by
  refine .bind (hw.expr h₂ .none) fun _ _ _ hv => .lift fun _ _ => ?_
  refine .bind (.stabilizeUnless hv) fun v _ _ hv => .bind (hw.expr h₁ .none) fun l _ g hl => ?_
  exact .bind (.assign hl (g.fits hv)) fun _ _ g' _ => .pure (g'.fits hl)

end

end Lowers

end CBackend
