import CBackend.Proofs.Arithmetic
import CBackend.Proofs.Bracketing.Nodes
import CBackend.Proofs.Plans.Parts

/-!
# Bit operations

Funnel shifts and bit reversal compute what their names say. Each operand is evaluated once, and copied as an unsigned
number into a local variable of its own; what is computed reads the copies only.

## Main definitions

* `Copy`, `Copy.Follows` : the copy of an operand, and the code that makes it.
* `funnelShift` : the number that a funnel shift yields.

## Main results

* `funnel_shifts_compute` : funnel shifts.
* `bit_reversal_reverses` : bit reversal.
-/

namespace CBackend

open IR Arithmetic
open C (CType)
open Lowering (walk)

variable {m : Module} {depth : Nat} {x y z : ExprId} {kind : Builtin} {d d' : Draft} {M : Machine} {w : Nat} {σ τ : State} {t : IntType}

/-! ### Operands -/

/-- A local variable that an operand is copied into. -/
structure Copy where
  operand : C.Expr
  kind : Builtin
  ty : CType
  number : Nat

namespace Copy

/-- The variable. -/
def name (c : Copy) : C.Expr :=
  .name (.localVar c.number)

/-- The declaration of the variable. A signed operand is reinterpreted as an unsigned number. -/
def line (c : Copy) : C.Line :=
  .declare c.ty c.number (some (if c.kind.isUnsigned then c.operand else .cast c.ty c.operand))

/-- The code of an operand is written, and then the declaration of a new local variable for it. Its type is that of the
operand, or the unsigned type of its width. -/
structure Follows (c : Copy) (m : Module) (depth : Nat) (x : ExprId) (d d' : Draft) : Prop where
  code : ∃ v d₁ p, (walk m depth).expr x none d = .ok (v, d₁) ∧ v.renderParen p = .ok c.operand ∧
    d₁.func.counter ≤ c.number ∧ d'.func.steps.toList = d₁.func.steps.toList ++ [.line c.line] ∧
    if c.kind.isUnsigned then c.ty = v.ty
    else ∃ unsigned, Builtin.unsigned? c.kind.bitWidth = some unsigned ∧ d₁.builtin? unsigned = some c.ty
  fresh : d.func.counter ≤ c.number ∧ c.number < d'.func.counter

end Copy

theorem Adds.cast {v : Value} {ty : CType} : Adds d (Emit.cast v ty) fun u S _ => S = [] ∧
    ∃ k e, v.asUnaryOperand = .ok e ∧
      u = ⟨some ⟨k, .cast ty e⟩, { isTemporary := true, isRvalue := true }, .unary, ty⟩ := by
  refine .lift_bind fun e he => .mono .newValue ?_
  rintro _ _ _ - ⟨rfl, rfl, -⟩
  exact ⟨rfl, _, e, he, rfl⟩

theorem Ensures.unsignedOperand (hkind : Lowering.integerKind m x = .ok kind) :
    Ensures d (Lowering.unsignedOperand m (walk m depth) x) fun r d' => ∃ (c : Copy) (k : Nat),
      c.kind = kind ∧ c.Follows m depth x d d' ∧
      r = (kind.bitWidth, ⟨some ⟨k, c.name⟩, { isVariable := true }, .atom, c.ty⟩) := by
  refine .lift_bind fun kind' h => ?_
  cases hkind.symm.trans h
  refine .bind (Q := fun v d₁ => (walk m depth).expr x none d = .ok (v, d₁)) (fun _ _ h => h) fun v d₁ hv => ?_
  have hcounter : d.func.counter ≤ d₁.func.counter :=
    (((Lowering.walk_bracketed false m depth).expr [] x none .none).framed_of_ok hv).counter
  dsimp only
  cases hu : kind.isUnsigned with
  | true =>
    change Ensures d₁ (Emit.copyToLocal v >>= fun u => Pure.pure (kind.bitWidth, u)) _
    refine .bind Adds.copyToLocal ?_
    rintro _ d' ⟨_, hsteps, -, hlt, ⟨k, rfl⟩, e, he, rfl⟩
    refine .pure ⟨⟨e, kind, v.ty, d₁.func.counter⟩, k, rfl, ⟨⟨v, d₁, _, hv, he, le_rfl, ?_, ?_⟩, hcounter, hlt⟩, rfl⟩
    · rw [hsteps, Copy.line, if_pos hu]
    · rw [if_pos hu]
  | false =>
    have hu : ¬ kind.isUnsigned = true := Bool.not_eq_true _ ▸ hu
    cases hunsigned : Builtin.unsigned? kind.bitWidth with
    | none => exact .bind (Q := fun _ _ => False) .throw fun _ _ h => h.elim
    | some unsigned =>
      refine .bind (Q := fun ty d₂ => d₁ = d₂ ∧ d₁.builtin? unsigned = some ty) (.get_bind ?_) ?_
      · split
        · next ty hty => exact .pure ⟨rfl, hty⟩
        · exact .throw
      rintro ty _ ⟨rfl, hty⟩
      refine .bind Adds.cast ?_
      rintro _ d₂ ⟨_, hsteps₂, hkept, rfl, k, e, he, rfl⟩
      rw [List.append_nil] at hsteps₂
      refine .bind Adds.copyToLocal ?_
      rintro _ d' ⟨_, hsteps, -, hlt, ⟨k', rfl⟩, _, ⟨⟩, rfl⟩
      refine .pure ⟨⟨e, kind, ty, d₂.func.counter⟩, k', rfl,
        ⟨⟨v, d₁, _, hv, he, hkept.counter, ?_, ?_⟩, hcounter.trans hkept.counter, hlt⟩, rfl⟩
      · rw [hsteps, hsteps₂, Copy.line, if_neg hu]
        rfl
      · rw [if_neg hu]
        exact ⟨unsigned, hunsigned, hty⟩

/-- The copy holds the operand as an unsigned number. -/
theorem Copy.effect_line {c : Copy} {z : Int} (hty : M.type? c.ty = some ⟨w, false⟩)
    (hz : eval M σ c.operand = some (t, some z)) :
    effect M σ c.line = some (σ.set c.number ⟨w, false⟩ z) := by
  cases hu : c.kind.isUnsigned with
  | true => simp [Copy.line, hu, effect, hz, hty]
  | false => simp [Copy.line, hu, effect, eval, hz, hty, State.set, IntType.convert]

theorem Copy.evaluates {c : Copy} {z : Int} (h : σ.var c.number = some (⟨w, false⟩, IntType.convert ⟨w, false⟩ z)) :
    Evaluates M σ c.name ⟨w, false⟩ (z % 2 ^ w).toNat :=
  .var (IntType.convert_unsigned ▸ h) IntType.fits_toNat

/-! ### Funnel shifts -/

/-- The number that a funnel shift yields. -/
def funnelShift (isLeft : Bool) (w a b s : Nat) : Nat :=
  if isLeft then (a * 2 ^ w + b) * 2 ^ (s % w) / 2 ^ w % 2 ^ w else (a * 2 ^ w + b) / 2 ^ (s % w) % 2 ^ w

section

variable {a b k r s : Nat}

/-- The upper bits of two numbers that are taken as one. -/
theorem concat_div (h : k + r = w) : (a * 2 ^ w + b) / 2 ^ r = a * 2 ^ k + b / 2 ^ r := by
  have hsplit : a * 2 ^ w + b = b + a * 2 ^ k * 2 ^ r := by
    rw [← h]
    ring
  rw [hsplit, Nat.add_mul_div_right _ _ (Nat.two_pow_pos r), Nat.add_comm]

theorem funnelShift_left (h : s % w < w) :
    funnelShift true w a b s = (a * 2 ^ (s % w) + b / 2 ^ (w - s % w)) % 2 ^ w := by
  have hpow : 2 ^ w = 2 ^ (w - s % w) * 2 ^ (s % w) := by rw [← Nat.pow_add, Nat.sub_add_cancel h.le]
  rw [← concat_div (Nat.add_sub_cancel' h.le), funnelShift, if_pos rfl]
  nth_rewrite 2 [hpow]
  rw [Nat.mul_div_mul_right _ _ (Nat.two_pow_pos _)]

theorem funnelShift_right (h : s % w < w) :
    funnelShift false w a b s = (a * 2 ^ (w - s % w) + b / 2 ^ (s % w)) % 2 ^ w := by
  rw [← concat_div (Nat.sub_add_cancel h.le), funnelShift, if_neg Bool.false_ne_true]

variable {ty : CType} {A B S K R : C.Expr} {u u' : IntType}

/-- Shifted operands are joined; this is defined if both are shifted by less than the width. -/
theorem eval_joined (hM : M.Shifts w) (hty : M.type? ty = some ⟨w, false⟩)
    (hA : Evaluates M σ A ⟨w, false⟩ a) (hB : Evaluates M σ B ⟨w, false⟩ b)
    (hK : Evaluates M σ K u k) (hR : Evaluates M σ R u' r) (h : k + r = w) :
    ∃ z, eval M σ (.cast ty (.paren (.binary "|" (.paren (.binary "<<" A K)) (.paren (.binary ">>" B R))))) =
      some (⟨w, false⟩, z) ∧ (0 < k → 0 < r → z = some (((a * 2 ^ k + b / 2 ^ r) % 2 ^ w : Nat) : Int)) := by
  by_cases hpos : 0 < k ∧ 0 < r
  · obtain ⟨t, hlow⟩ := hB.shiftRight hM hR (by omega)
    have hb : b / 2 ^ r < 2 ^ k := by
      rw [Nat.div_lt_iff_lt_mul (Nat.two_pow_pos r), ← Nat.pow_add, h]
      exact hB.fits
    exact ⟨_, (Evaluates.filled hM hty hA hK (by omega) hlow hb).value, fun _ _ => rfl⟩
  · simp only [eval, hA.value, hB.value, hK.value, hR.value, hty]
    exact ⟨_, rfl, fun hk hr => absurd ⟨hk, hr⟩ hpos⟩

theorem Evaluates.funnelShiftExpr {isLeft : Bool} (hM : M.Shifts w)
    (hty : M.type? ty = some ⟨w, false⟩) (hA : Evaluates M σ A ⟨w, false⟩ a)
    (hB : Evaluates M σ B ⟨w, false⟩ b) (hS : Evaluates M σ S u (s % w)) :
    Evaluates M σ (Lowering.funnelShiftExpr isLeft ty w A B S) (IntType.common ⟨w, false⟩ ⟨w, false⟩)
      (funnelShift isLeft w a b s) := by
  have hlt : s % w < w := Nat.mod_lt _ (Nat.zero_lt_of_lt hM.one_lt)
  have hwide : Evaluates M σ (.nat w) .int w := .nat hM.lt
  have hrest : Evaluates M σ (.paren (.binary "-" (.nat w) S)) (IntType.common .int u) (w - s % w) := by
    have hfits := (hwide.fits.common (u := u)).mono (Nat.sub_le w (s % w))
    refine .paren (.binary (by decide) hwide hS ?_ hfits)
    have hsub : ((w : Int) - (s % w : Nat)) = (w - s % w : Nat) := by omega
    change IntType.result? _ _ = _
    rw [hsub, IntType.result?_eq hfits]
  have hfits : IntType.Fits ⟨w, false⟩ (funnelShift isLeft w a b s) := by
    change _ < 2 ^ w
    unfold funnelShift
    split <;> exact Nat.mod_lt _ (Nat.two_pow_pos w)
  have ha : a < 2 ^ w := hA.fits
  have hb : b < 2 ^ w := hB.fits
  cases isLeft with
  | true =>
    obtain ⟨z, hz, hvalue⟩ := eval_joined hM hty hA hB hS hrest (by omega)
    rw [funnelShift_left hlt] at hfits ⊢
    refine .ifZero hS hA.value hz (fun h => ?_) (fun h => hvalue (by omega) (by omega)) hfits
    simp [h, Nat.div_eq_of_lt hb, Nat.mod_eq_of_lt ha]
  | false =>
    obtain ⟨z, hz, hvalue⟩ := eval_joined hM hty hA hB hrest hS (by omega)
    rw [funnelShift_right hlt] at hfits ⊢
    refine .ifZero hS hB.value hz (fun h => ?_) (fun h => hvalue (by omega) (by omega)) hfits
    simp [h, Nat.mod_eq_of_lt hb]

end

/-- The line that reduces the amount of a shift. -/
def Copy.reduce (c : Copy) (w : Nat) : C.Line :=
  .expression (.binary "%=" c.name (.nat w))

/-- The amount of a shift is reduced to less than the width. -/
theorem Copy.effect_reduce {c : Copy} {n s : Nat} (hσ : σ.var c.number = some (⟨n, false⟩, (s : Int))) (hs : s < 2 ^ n)
    (hM : M.Shifts w) :
    effect M σ (c.reduce w) = some (σ.set c.number ⟨n, false⟩ (s % w : Nat)) := by
  have hmod : Evaluates M σ (.binary "%" c.name (.nat w)) (IntType.common ⟨n, false⟩ .int) (s % w) := by
    have hfits : IntType.Fits ⟨n, false⟩ s := hs
    refine .binary (by decide) (.var hσ hfits) (.nat hM.lt) ?_ (hfits.common.mono (Nat.mod_le s w))
    exact if_neg (Nat.ne_zero_of_lt hM.one_lt)
  unfold Copy.name at hmod
  simp [Copy.reduce, Copy.name, effect, hσ, hmod.value]

variable {kx ky kz : Builtin} {isLeft : Bool}

theorem Ensures.funnelShift {ty : Ty} (hx : Lowering.integerKind m x = .ok kx) (hy : Lowering.integerKind m y = .ok ky)
    (hz : Lowering.integerKind m z = .ok kz) :
    Ensures d (Lowering.funnelShift m (walk m depth) isLeft x y z ty) fun v d' => ∃ (p q r : Copy) (d₁ d₂ d₃ : Draft),
      (p.kind = kx ∧ p.Follows m depth x d d₁) ∧ (q.kind = ky ∧ q.Follows m depth y d₁ d₂) ∧
      (r.kind = kz ∧ r.Follows m depth z d₂ d₃) ∧
      d'.func.steps.toList = d₃.func.steps.toList ++ [.line (r.reduce kx.bitWidth)] ∧
      v.render = .ok (Lowering.funnelShiftExpr isLeft p.ty kx.bitWidth p.name q.name r.name) := by
  refine .bind (.unsignedOperand hx) ?_
  rintro _ d₁ ⟨p, k₁, hpk, hp, rfl⟩
  refine .bind (.unsignedOperand hy) ?_
  rintro _ d₂ ⟨q, k₂, hqk, hq, rfl⟩
  refine .bind (.unsignedOperand hz) ?_
  rintro _ d₃ ⟨r, k₃, hrk, hr, rfl⟩
  have hrest : Adds d₃ (do
      let modulus ← Emit.integer r.ty kx.bitWidth
      Emit.assignWith ⟨some ⟨k₃, r.name⟩, { isVariable := true }, .atom, r.ty⟩ modulus "%="
      let e := Lowering.funnelShiftExpr isLeft p.ty kx.bitWidth p.name q.name r.name
      Emit.rvalue e (← Lowering.valueType m ty) .assignment) fun v S _ => S = [.line (r.reduce kx.bitWidth)] ∧
        v.render = .ok (Lowering.funnelShiftExpr isLeft p.ty kx.bitWidth p.name q.name r.name) := by
    refine .bind .newValue ?_
    rintro _ _ d₄ - ⟨rfl, rfl, -⟩
    refine .bind .assignWith ?_
    rintro _ _ d₅ - ⟨_, ⟨⟩, rfl⟩
    refine .bind .valueType ?_
    rintro cty _ d₆ - rfl
    refine .mono .newValue ?_
    rintro _ _ _ - ⟨rfl, rfl, -⟩
    exact ⟨rfl, rfl⟩
  refine Ensures.mono hrest ?_
  rintro v d' ⟨_, hsteps, -, rfl, hv⟩
  exact ⟨p, q, r, d₁, d₂, d₃, ⟨hpk, hp⟩, ⟨hqk, hq⟩, ⟨hrk, hr⟩, hsteps, hv⟩

/-- Integers of 8 and 16 bits are promoted to `int` with room to spare, and those of 32 and 64 bits keep their types. -/
theorem Arithmetic.Machine.Shifts.bitWidth (h : M.limit = kind.bitWidth) : M.Shifts kind.bitWidth := by
  have hwidth : (kind.bitWidth ≤ 16 ∨ 32 ≤ kind.bitWidth) ∧ 1 < kind.bitWidth ∧ kind.bitWidth < 2 ^ 31 := by
    cases kind <;> decide
  exact ⟨h, hwidth.1, hwidth.2.1, hwidth.2.2⟩

/-- Copies of three operands, the amount reduced, and an expression together compute a funnel shift. Between two copies
the code of the next operand is executed, which leaves the earlier copies as they are. -/
def Funnels (isLeft : Bool) (w w' bits : Nat) (p q r : Copy) (e : C.Expr) : Prop :=
  ∀ (M : Machine) (σ₁ σ₂ σ₃ : State) (t₁ t₂ t₃ : IntType) (a b : Int) (s : Nat), M.limit = w →
    M.type? p.ty = some ⟨w, false⟩ → M.type? q.ty = some ⟨w', false⟩ → M.type? r.ty = some ⟨bits, false⟩ →
    eval M σ₁ p.operand = some (t₁, some a) → eval M σ₂ q.operand = some (t₂, some b) →
    eval M σ₃ r.operand = some (t₃, some (s : Int)) → s < 2 ^ bits →
    ∃ τ₁ τ₂ τ₃, effect M σ₁ p.line = some τ₁ ∧ effect M σ₂ q.line = some τ₂ ∧ effect M σ₃ r.line = some τ₃ ∧
      (σ₃.var p.number = τ₁.var p.number → σ₃.var q.number = τ₂.var q.number →
        ∃ τ t, effect M τ₃ (r.reduce w) = some τ ∧
          eval M τ e = some (t, some (funnelShift isLeft w (a % 2 ^ w).toNat (b % 2 ^ w).toNat s : Int)))

/-- A funnel shift of two operands of the same width copies its operands one after the other, reduces the amount, and
yields the funnel shift of the copies. No shift that is evaluated is by the width or more, and none overflows. -/
theorem funnel_shifts_compute {ty : Ty} {dest : Option Value} {v : Value} (hx : Lowering.integerKind m x = .ok kx)
    (hy : Lowering.integerKind m y = .ok ky) (hz : Lowering.integerKind m z = .ok kz) (hwidth : ky.bitWidth = kx.bitWidth)
    (hrun : Lowering.intrinsicCall m (walk m depth) (if isLeft then .fshl else .fshr) [x, y, z] ty dest d =
      .ok (v, d')) :
    ∃ (p q r : Copy) (d₁ d₂ d₃ : Draft) (e : C.Expr), (p.kind = kx ∧ p.Follows m depth x d d₁) ∧
      (q.kind = ky ∧ q.Follows m depth y d₁ d₂) ∧ (r.kind = kz ∧ r.Follows m depth z d₂ d₃) ∧
      d'.func.steps.toList = d₃.func.steps.toList ++ [.line (r.reduce kx.bitWidth)] ∧ v.render = .ok e ∧
      Funnels isLeft kx.bitWidth ky.bitWidth kz.bitWidth p q r e := by
  have hshift : Lowering.funnelShift m (walk m depth) isLeft x y z ty d = .ok (v, d') := by
    cases isLeft <;> exact hrun
  obtain ⟨p, q, r, d₁, d₂, d₃, hp, hq, hr, hsteps, hv⟩ := Ensures.funnelShift hx hy hz v d' hshift
  refine ⟨p, q, r, d₁, d₂, d₃, _, hp, hq, hr, hsteps, hv, ?_⟩
  intro M σ₁ σ₂ σ₃ t₁ t₂ t₃ a b s hlimit hpty hqty hrty ha hb hs hlt
  rw [hwidth] at hqty
  refine ⟨_, _, _, p.effect_line hpty ha, q.effect_line hqty hb, r.effect_line hrty hs, fun hpkept hqkept => ?_⟩
  have hM : M.Shifts kx.bitWidth := .bitWidth hlimit
  have hpq : p.number < q.number := hp.2.fresh.2.trans_le hq.2.fresh.1
  have hqr : q.number < r.number := hq.2.fresh.2.trans_le hr.2.fresh.1
  have hmod : s % kx.bitWidth < 2 ^ kz.bitWidth := (Nat.mod_le s _).trans_lt hlt
  have hamount {n : Nat} (hn : n < 2 ^ kz.bitWidth) : IntType.convert ⟨kz.bitWidth, false⟩ n = n := IntType.convert_eq hn
  have hreduce : effect M (σ₃.set r.number ⟨kz.bitWidth, false⟩ s) (r.reduce kx.bitWidth) = some _ :=
    r.effect_reduce (by rw [State.var_set_self, hamount hlt]) hlt hM
  refine ⟨_, _, hreduce, (Evaluates.funnelShiftExpr hM hpty (p.evaluates ?_) (q.evaluates ?_)
    (.var ?_ (t := ⟨kz.bitWidth, false⟩) hmod)).value⟩
  · rw [State.var_set_ne (by omega), State.var_set_ne (by omega), hpkept, State.var_set_self]
  · rw [State.var_set_ne (by omega), State.var_set_ne (by omega), hqkept, State.var_set_self]
  · rw [State.var_set_self, hamount hmod]

/-- A module with constants as operands. -/
def operandModule : Module where
  exprs := #[⟨.constant (.sint (-56)), .builtin .i8, .rvalue, {}⟩, ⟨.constant (.uint 3), .builtin .u8, .rvalue, {}⟩,
    ⟨.constant (.uint 11), .builtin .u16, .rvalue, {}⟩]

/-- The number 3 is shifted into -56, which is 200 as an unsigned number of 8 bits, by 11, which is 3 modulo 8. -/
theorem funnel_shifts_compute_constants : ∃ d v d' p q r e, Lowering.intrinsicCall operandModule (walk operandModule 2)
    .fshl [⟨0⟩, ⟨1⟩, ⟨2⟩] (.builtin .u8) none d = .ok (v, d') ∧ v.render = .ok e ∧ Funnels true 8 8 16 p q r e ∧
      funnelShift true 8 200 3 11 = 64 := by
  have hx : Lowering.integerKind operandModule ⟨0⟩ = .ok .i8 := rfl
  have hy : Lowering.integerKind operandModule ⟨1⟩ = .ok .u8 := rfl
  have hz : Lowering.integerKind operandModule ⟨2⟩ = .ok .u16 := rfl
  have hok : (do
      let d ← Draft.new {}
      Lowering.intrinsicCall operandModule (walk operandModule 2) (if true then .fshl else .fshr) [⟨0⟩, ⟨1⟩, ⟨2⟩]
        (.builtin .u8) none d).isOk = true := by
    decide +kernel
  obtain ⟨⟨v, d'⟩, hrun⟩ := exists_of_isOk hok
  obtain ⟨d, -, hrun⟩ := exists_of_bind_eq_ok hrun
  obtain ⟨p, q, r, -, -, -, e, -, -, -, -, he, hfunnels⟩ := funnel_shifts_compute hx hy hz rfl hrun
  exact ⟨d, v, d', p, q, r, e, hrun, he, hfunnels, by decide⟩

/-! ### Bit reversal -/

/-- A number has the lowest bits of another one, in reverse order. -/
def Reversed (j a R : Nat) : Prop :=
  R < 2 ^ j ∧ ∀ t < j, R.testBit t = a.testBit (j - 1 - t)

/-- One more bit is shifted in. -/
theorem Reversed.succ {j a R : Nat} (h : Reversed j a R) : Reversed (j + 1) a (2 * R + a / 2 ^ j % 2) := by
  refine ⟨by have := h.1; omega, fun t ht => ?_⟩
  cases t with
  | zero => simp [Nat.testBit_eq_decide_div_mod_eq]
  | succ t =>
    have hhalf : (2 * R + a / 2 ^ j % 2) / 2 = R := by omega
    rw [Nat.testBit_succ, hhalf, h.2 t (by omega)]
    congr 1
    omega

/-- What a round of the loop does. -/
def reversalBody (ty : CType) (n r i : Nat) : List C.Line :=
  [.expression (.binary "=" (.name (.localVar r))
      (Lowering.shiftedIn ty (.name (.localVar r)) (.name (.localVar n)))),
    .expression (.binary "=" (.name (.localVar n)) (Lowering.shiftedOut ty (.name (.localVar n)))),
    .expression (.before "++" (.name (.localVar i)))]

/-- The state after a number of rounds. -/
structure Reversing (w n r i bits a j : Nat) (σ : State) : Prop where
  rest : σ.var n = some (⟨w, false⟩, ((a / 2 ^ j : Nat) : Int))
  result : ∃ R : Nat, σ.var r = some (⟨w, false⟩, (R : Int)) ∧ Reversed j a R
  index : σ.var i = some (⟨bits, false⟩, (j : Int))

/-- Only variables from a number on may change. -/
def SameBelow (n : Nat) (σ τ : State) : Prop :=
  τ.other = σ.other ∧ ∀ k < n, τ.var k = σ.var k

section

variable {ty : CType} {n r i bits a j : Nat}

theorem Reversing.round (hM : M.Shifts w) (hty : M.type? ty = some ⟨w, false⟩) (ha : a < 2 ^ w) (hnr : n < r) (hri : r < i)
    (hbits : w < 2 ^ bits) (h : Reversing w n r i bits a j σ) (hj : j < w) :
    ∃ τ, (reversalBody ty n r i).foldlM (effect M) σ = some τ ∧ Reversing w n r i bits a (j + 1) τ ∧ SameBelow n σ τ := by
  obtain ⟨R, hR, hrev⟩ := h.result
  have hpow : 2 ^ (j + 1) ≤ 2 ^ w := Nat.pow_le_pow_right (by decide) hj
  have hV : a / 2 ^ j < 2 ^ w := (Nat.div_le_self ..).trans_lt ha
  have hrev' := hrev.succ
  have hone {τ : State} : Evaluates M τ (.nat 1) .int 1 := .nat (by decide)
  -- The bits fit, so nothing is cut off.
  have hin : Evaluates M σ (Lowering.shiftedIn ty (.name (.localVar r)) (.name (.localVar n))) ⟨w, false⟩
      (2 * R + a / 2 ^ j % 2) := by
    have hR' : IntType.Fits ⟨w, false⟩ R := hrev.1.trans_le ((Nat.pow_le_pow_right (by decide) (Nat.le_succ j)).trans hpow)
    have hlow : Evaluates M σ (.binary "&" (.name (.localVar n)) (.literal (.unsigned 1)))
        (IntType.common ⟨w, false⟩ ⟨32, false⟩) (a / 2 ^ j &&& 1) := by
      have hbit : Evaluates M σ (.literal (.unsigned 1)) ⟨32, false⟩ 1 :=
        ⟨rfl, (by decide : 1 < 2 ^ 32)⟩
      exact .binary (by decide) (.var h.rest hV) hbit rfl (hbit.fits.common'.mono Nat.and_le_right)
    have hin := Evaluates.filled hM hty (.var hR hR') hone hM.one_lt hlow (by rw [Nat.and_one_is_mod]; omega)
    rwa [Nat.and_one_is_mod, pow_one, Nat.mul_comm, Nat.mod_eq_of_lt (hrev'.1.trans_le hpow)] at hin
  have hout : Evaluates M (σ.set r ⟨w, false⟩ (2 * R + a / 2 ^ j % 2 : Nat))
      (Lowering.shiftedOut ty (.name (.localVar n))) ⟨w, false⟩ (a / 2 ^ (j + 1)) := by
    obtain ⟨t, hhalf⟩ := Evaluates.shiftRight hM (.var ((State.var_set_ne hnr.ne).trans h.rest) hV) hone hM.one_lt
    have hout := hhalf.paren.cast hty
    rwa [pow_one, Nat.div_div_eq_div_mul, ← pow_succ, Nat.mod_eq_of_lt ((Nat.div_le_self ..).trans_lt ha)] at hout
  have hfits : IntType.Fits ⟨bits, false⟩ (j + 1) := (Nat.succ_le_of_lt hj).trans_lt hbits
  refine ⟨((σ.set r ⟨w, false⟩ (2 * R + a / 2 ^ j % 2 : Nat)).set n ⟨w, false⟩ (a / 2 ^ (j + 1) : Nat)).set i
    ⟨bits, false⟩ (j + 1 : Nat), ?_, ⟨?_, ⟨_, ?_, hrev'⟩, ?_⟩, rfl, fun k hk => ?_⟩
  · have hin' : i ≠ n := by omega
    simp only [reversalBody, List.foldlM_cons, effect_assign hR hin.value,
      effect_assign ((State.var_set_ne hnr.ne).trans h.rest) hout.value, Option.bind_eq_bind, Option.bind_some]
    simp [effect, State.var_set_ne hin', State.var_set_ne hri.ne', h.index]
  · rw [State.var_set_ne (by omega), State.var_set_self, IntType.convert_eq hout.fits]
  · rw [State.var_set_ne (by omega), State.var_set_ne (by omega), State.var_set_self, IntType.convert_eq hin.fits]
  · rw [State.var_set_self, IntType.convert_eq hfits]
  · rw [State.var_set_ne (by omega), State.var_set_ne (by omega), State.var_set_ne (by omega)]

theorem Reversing.loops (hM : M.Shifts w) (hty : M.type? ty = some ⟨w, false⟩) (ha : a < 2 ^ w) (hnr : n < r) (hri : r < i)
    (hbits : w < 2 ^ bits) {k : Nat} (h : Reversing w n r i bits a j σ) (hj : j + k = w) :
    ∃ τ, Loops M (.binary "<" (.name (.localVar i)) (.nat w)) (reversalBody ty n r i) k σ τ ∧
      Reversing w n r i bits a w τ ∧ SameBelow n σ τ := by
  have htest {j : Nat} {σ : State} (h : Reversing w n r i bits a j σ) (hj : j ≤ w) :
      Evaluates M σ (.binary "<" (.name (.localVar i)) (.nat w)) .int (decide (j < w)).toNat :=
    .binary (by decide) (.var h.index (hj.trans_lt hbits)) (.nat hM.lt) rfl
      (Nat.lt_of_le_of_lt (Bool.toNat_le _) (by decide : 1 < 2 ^ 31))
  induction k generalizing j σ with
  | zero =>
    obtain rfl : j = w := hj
    refine ⟨σ, .stop (t := .int) ?_, h, rfl, fun _ _ => rfl⟩
    simpa using (htest h le_rfl).value
  | succ k ih =>
    obtain ⟨υ, hbody, hυ, hother, hvar⟩ := h.round hM hty ha hnr hri hbits (by omega)
    obtain ⟨τ, hloop, hτ, hother', hvar'⟩ := ih hυ (by omega)
    refine ⟨τ, .round (htest h (by omega)).value ?_ hbody hloop, hτ, hother'.trans hother,
      fun m hm => (hvar' m hm).trans (hvar m hm)⟩
    rw [decide_eq_true (by omega : j < w)]
    decide

end

/-- The steps after the copy of the operand. -/
def reversalSteps (c : Copy) (w r i : Nat) (index : CType) (zero : C.Expr) : List Step :=
  .line (.declare c.ty r (some zero)) :: .line (.declare index i (some (.nat 0))) ::
    Memory.whileSteps (.binary "<" (.name (.localVar i)) (.nat w)) ((reversalBody c.ty c.number r i).map .line)

theorem Ensures.bitReverse {ty : Ty} (hkind : Lowering.integerKind m x = .ok kind) :
    Ensures d (Lowering.bitReverse m (walk m depth) x ty) fun v d' =>
      ∃ (c : Copy) (d₁ : Draft) (r i : Nat) (index : CType) (zero : C.Expr),
        (c.kind = kind ∧ c.Follows m depth x d d₁) ∧ c.number < r ∧ r < i ∧ (c.ty.isBraced = false → zero = .nat 0) ∧
        d'.func.steps.toList = d₁.func.steps.toList ++ reversalSteps c kind.bitWidth r i index zero ∧
        (v.render = .ok (.name (.localVar r)) ∨ ∃ cty, v.render = .ok (.cast cty (.name (.localVar r)))) := by
  refine .bind (.unsignedOperand hkind) ?_
  rintro _ d₁ ⟨c, k, hck, hc, rfl⟩
  refine Adds.ensures (Φ := fun v S _ => ∃ r i index zero, c.number < r ∧ r < i ∧ (c.ty.isBraced = false → zero = .nat 0) ∧
    S = reversalSteps c kind.bitWidth r i index zero ∧
    (v.render = .ok (.name (.localVar r)) ∨ ∃ cty, v.render = .ok (.cast cty (.name (.localVar r))))) ?_ ?_
  · have hzero : Adds d₁ (Emit.zeroValue c.ty) fun v S _ => S = [] ∧ v.ty = c.ty ∧
        (c.ty.isBraced = false → v.asInitializer = .ok (.nat 0)) := by
      unfold Emit.zeroValue
      split
      · next hbraced =>
        change Adds d₁ (Emit.rvalue (.braces (some c.ty) .value []) c.ty .suffix) _
        refine .mono .newValue ?_
        rintro _ _ _ - ⟨rfl, rfl, -⟩
        exact ⟨rfl, rfl, fun h => absurd hbraced (Bool.eq_false_iff.1 h)⟩
      · refine .mono .newValue ?_
        rintro _ _ _ - ⟨rfl, rfl, -⟩
        exact ⟨rfl, rfl, fun _ => rfl⟩
    refine .bind hzero ?_
    rintro zero _ d₂ hkept₂ ⟨rfl, hzeroty, hzero⟩
    refine .bind .copyToLocal ?_
    rintro _ _ d₃ hkept₃ ⟨hlt₃, ⟨k', rfl⟩, init, hinit, rfl⟩
    refine .bind .beginIndexLoop ?_
    rintro _ _ d₄ hkept₄ ⟨hlt₄, index, k'', rfl, rfl⟩
    refine .lift_bind fun _ h => ?_
    cases h
    refine .lift_bind fun _ h => ?_
    cases h
    refine .bind .newValue ?_
    rintro _ _ d₅ - ⟨rfl, rfl, -⟩
    refine .bind .assign ?_
    rintro _ _ d₆ - ⟨_, ⟨⟩, rfl⟩
    refine .bind .newValue ?_
    rintro _ _ d₇ - ⟨rfl, rfl, -⟩
    refine .bind .assign ?_
    rintro _ _ d₈ - ⟨_, ⟨⟩, rfl⟩
    refine .bind .endIndexLoop ?_
    rintro _ _ d₉ - rfl
    refine .bind .valueType ?_
    rintro cty _ d₁₀ - rfl
    have hcr : c.number < d₂.func.counter := hc.fresh.2.trans_le hkept₂.counter
    have hzeroinit : c.ty.isBraced = false → init = .nat 0 := by
      intro h
      cases (hzero h).symm.trans hinit
      rfl
    rw [hzeroty]
    split
    · exact .pure ⟨_, _, index, init, hcr, hlt₃, hzeroinit, rfl, .inl rfl⟩
    · refine .mono .cast ?_
      rintro _ _ _ - ⟨rfl, _, _, ⟨⟩, rfl⟩
      exact ⟨_, _, index, init, hcr, hlt₃, hzeroinit, rfl, .inr ⟨cty, rfl⟩⟩
  · rintro v S d' hsteps ⟨r, i, index, zero, hcr, hri, hzero, rfl, hv⟩
    exact ⟨c, d₁, r, i, index, zero, ⟨hck, hc⟩, hcr, hri, hzero, hsteps, hv⟩

/-- The copy of an operand and the lines after it reverse the bits of the operand, in a loop with as many rounds as
there are bits. No variable changes that was there before the copy. -/
def Reverses (w : Nat) (c : Copy) (r i : Nat) (index : CType) (zero : C.Expr) : Prop :=
  ∀ (M : Machine) (σ : State) (t : IntType) (z : Int) (bits : Nat), M.limit = w → M.type? c.ty = some ⟨w, false⟩ →
    c.ty.isBraced = false → M.type? index = some ⟨bits, false⟩ → w < 2 ^ bits → eval M σ c.operand = some (t, some z) →
    ∃ σ' τ, ∃ R : Nat,
      [c.line, .declare c.ty r (some zero), .declare index i (some (.nat 0))].foldlM (effect M) σ = some σ' ∧
      Loops M (.binary "<" (.name (.localVar i)) (.nat w)) (reversalBody c.ty c.number r i) w σ' τ ∧
      τ.var r = some (⟨w, false⟩, (R : Int)) ∧ Reversed w (z % 2 ^ w).toNat R ∧ SameBelow c.number σ τ

/-- A bit reversal copies its operand, which is not used after that, and leaves the operand with its bits in reverse
order in another variable. -/
theorem bit_reversal_reverses {ty : Ty} {dest : Option Value} {v : Value}
    (hkind : Lowering.integerKind m x = .ok kind)
    (hrun : Lowering.intrinsicCall m (walk m depth) .bitreverse [x] ty dest d = .ok (v, d')) :
    ∃ (c : Copy) (d₁ : Draft) (r i : Nat) (index : CType) (zero : C.Expr),
      (c.kind = kind ∧ c.Follows m depth x d d₁) ∧ c.number < r ∧ r < i ∧
      d'.func.steps.toList = d₁.func.steps.toList ++ reversalSteps c kind.bitWidth r i index zero ∧
      (v.render = .ok (.name (.localVar r)) ∨ ∃ cty, v.render = .ok (.cast cty (.name (.localVar r)))) ∧
      Reverses kind.bitWidth c r i index zero := by
  obtain ⟨c, d₁, r, i, index, zero, hc, hcr, hri, hzero, hsteps, hv⟩ := Ensures.bitReverse hkind v d' hrun
  refine ⟨c, d₁, r, i, index, zero, hc, hcr, hri, hsteps, hv, ?_⟩
  intro M σ t z bits hlimit hty hbraced hindex hbits hz
  obtain rfl := hzero hbraced
  have hM : M.Shifts kind.bitWidth := .bitWidth hlimit
  generalize kind.bitWidth = w at *
  have hfold : [c.line, .declare c.ty r (some (.nat 0)), .declare index i (some (.nat 0))].foldlM (effect M) σ =
      some (((σ.set c.number ⟨w, false⟩ z).set r ⟨w, false⟩ 0).set i ⟨bits, false⟩ 0) := by
    have hnat {τ : State} : eval M τ (.nat 0) = some (.int, some 0) := (Evaluates.nat (by decide)).value
    simp only [List.foldlM_cons, List.foldlM_nil, c.effect_line hty hz, effect_declare hty hnat,
      effect_declare hindex hnat, Option.bind_eq_bind, Option.bind_some, Option.pure_def]
  have hstart : Reversing w c.number r i bits (z % 2 ^ w).toNat 0
      (((σ.set c.number ⟨w, false⟩ z).set r ⟨w, false⟩ 0).set i ⟨bits, false⟩ 0) := by
    refine ⟨?_, ⟨0, ?_, by decide, nofun⟩, ?_⟩
    · rw [State.var_set_ne (by omega), State.var_set_ne (by omega), State.var_set_self, IntType.convert_unsigned, pow_zero,
        Nat.div_one]
    · rw [State.var_set_ne (by omega), State.var_set_self]
      rfl
    · rw [State.var_set_self]
      rfl
  obtain ⟨τ, hloop, hτ, hother, hvar⟩ := hstart.loops hM hty IntType.fits_toNat hcr hri hbits (Nat.zero_add w)
  obtain ⟨R, hR, hrev⟩ := hτ.result
  refine ⟨_, τ, R, hfold, hloop, hR, hrev, hother, fun k hk => ?_⟩
  rw [hvar k hk, State.var_set_ne (by omega), State.var_set_ne (by omega), State.var_set_ne (by omega)]

theorem bit_reversal_reverses_constant : ∃ d v d' c r i index zero, Lowering.intrinsicCall operandModule
    (walk operandModule 2) .bitreverse [⟨0⟩] (.builtin .i8) none d = .ok (v, d') ∧ Reverses 8 c r i index zero := by
  have hkind : Lowering.integerKind operandModule ⟨0⟩ = .ok .i8 := rfl
  have hok : (do
      let d ← Draft.new {}
      Lowering.intrinsicCall operandModule (walk operandModule 2) .bitreverse [⟨0⟩] (.builtin .i8) none d).isOk =
        true := by
    decide +kernel
  obtain ⟨⟨v, d'⟩, hrun⟩ := exists_of_isOk hok
  obtain ⟨d, -, hrun⟩ := exists_of_bind_eq_ok hrun
  obtain ⟨c, -, r, i, index, zero, -, -, -, -, -, hreverses⟩ := bit_reversal_reverses hkind hrun
  exact ⟨d, v, d', c, r, i, index, zero, hrun, hreverses⟩

end CBackend
