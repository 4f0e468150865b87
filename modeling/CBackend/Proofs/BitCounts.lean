import CBackend.Proofs.BitOperations
import Mathlib.Data.Nat.Size

/-!
# Counting bits

The counts of leading zeros, of trailing zeros and of ones, on a target whose `int` has 32 bits. The compiler's builtins
count in `unsigned int` or in `unsigned long long`, which may be wider than the operand, and are not defined at zero. The
width that is taken off the leading zeros of an operand of 64 bits is right only if `long long` has 64 bits as well.
-/

namespace CBackend

open IR Arithmetic Lowering

variable {m : Module} {depth : Nat} {x : ExprId} {kind : Builtin} {d d' : Draft} {M : Machine} {σ : State}
  {counter : BitCounter} {v : C.Expr} {w b k n long : Nat}

namespace Lowering.BitCounter

/-- The intrinsic. -/
def intrinsic : BitCounter → Intrinsic
  | leadingZeros => .clz
  | trailingZeros => .ctz
  | ones => .popcount

/-- The name of the builtin. -/
def builtin : BitCounter → String
  | leadingZeros => "clz"
  | trailingZeros => "ctz"
  | ones => "popcount"

/-- The count for a number of some bits. -/
def count (w n : Nat) : BitCounter → Nat
  | leadingZeros => w - n.size
  | trailingZeros => if n = 0 then w else (n.bits.takeWhile (!·)).length
  | ones => n.bits.count true

theorem count_le (hn : n < 2 ^ w) : counter.count w n ≤ w := by
  have hlength : n.bits.length ≤ w := Nat.size_eq_bits_len n ▸ Nat.size_le.2 hn
  cases counter with
  | leadingZeros => exact Nat.sub_le w _
  | trailingZeros =>
    rw [count]
    split
    · exact le_rfl
    · exact (List.takeWhile_prefix _).length_le.trans hlength
  | ones => exact List.count_le_length.trans hlength

/-- The bits above a number are leading zeros. -/
theorem count_leadingZeros (hn : n < 2 ^ w) : leadingZeros.count (w + k) n = k + leadingZeros.count w n := by
  have hsize : n.size ≤ w := Nat.size_le.2 hn
  simp only [count]
  omega

end Lowering.BitCounter

/-- The builtins count in `unsigned int` of 32 bits, and with the ending `ll` in `unsigned long long`. The zeros of
zero are any number. -/
def CountsBits (σ : State) (long : Nat) (v : C.Expr) (n : Nat) : Prop :=
  ∀ (counter : BitCounter) (ending : String) (bits : Nat), (ending, bits) ∈ [("", 32), ("ll", long)] →
    ∃ z, σ.other (.call (.symbol ("__builtin_" ++ counter.builtin ++ ending)) [v]) = some (.int, z) ∧
      (counter = .ones ∨ n % 2 ^ bits ≠ 0 → z = counter.count bits (n % 2 ^ bits))

/-- The builtin for an operand counts in a type that holds it, and in as many bits as are assumed where that matters. -/
theorem CountsBits.call (h : CountsBits σ long v n) (hw : w ≤ 64) (hlong : 64 ≤ long)
    (hclz : counter = .leadingZeros → w ≤ 32 ∨ long = 64) (hn : n < 2 ^ w) :
    ∃ k z, eval M σ (.call (.symbol ("__builtin_" ++ counter.builtin ++ (builtinSuffix w).1)) [v]) =
        some (.int, some z) ∧ (counter = .ones ∨ n ≠ 0 → z = counter.count (w + k) n) ∧
      (counter = .leadingZeros → w + k = (builtinSuffix w).2) := by
  obtain ⟨bits, hmem, hle, hbits⟩ : ∃ bits, ((builtinSuffix w).1, bits) ∈ [("", 32), ("ll", long)] ∧ w ≤ bits ∧
      (counter = .leadingZeros → bits = (builtinSuffix w).2) := by
    unfold builtinSuffix
    split
    · next hsmall => exact ⟨32, by simp, hsmall, fun _ => rfl⟩
    · next hlarge => exact ⟨long, by simp, hw.trans hlong, fun h => (hclz h).resolve_left hlarge⟩
  obtain ⟨k, rfl⟩ := Nat.exists_eq_add_of_le hle
  obtain ⟨z, hz, hcount⟩ := h counter _ _ hmem
  rw [Nat.mod_eq_of_lt (hn.trans_le (Nat.pow_le_pow_right (by decide) hle))] at hcount
  exact ⟨k, z, by simp [eval, hz], hcount, hbits⟩

/-- What is taken off a number if the type that it was counted in is wider than the operand. -/
theorem eval_excess {e : C.Expr} {z : Int} (hz : eval M σ e = some (.int, some z)) (hk : w + k ≤ 64) :
    ∃ y, eval M σ (if w < w + k then .binary "-" e (.nat (w + k - w)) else e) = some (.int, y) ∧
      ∀ a : Nat, z = (k + a : Nat) → k + a < 2 ^ 31 → y = some (a : Int) := by
  by_cases hlt : w < w + k
  · rw [if_pos hlt, Nat.add_sub_cancel_left]
    have hnat : Evaluates M σ (.nat k) .int k := .nat (by omega)
    have hy : eval M σ (.binary "-" e (.nat k)) =
        some (.int, (operate M.limit "-" (.int, some z) (.int, some (k : Int))).2) := by
      rw [eval, hz, hnat.value]
      rfl
    refine ⟨_, hy, ?_⟩
    rintro a rfl hfits
    have he : Evaluates M σ e .int (k + a) := ⟨hz, hfits⟩
    have ha : IntType.Fits (IntType.int.common .int) a := he.fits.mono (Nat.le_add_left a k)
    have hsub : ((k + a : Nat) : Int) - k = (a : Nat) := by omega
    have hvalue : Evaluates M σ (.binary "-" e (.nat k)) .int a := by
      refine .binary (by decide) he hnat ?_ ha
      change IntType.result? _ _ = _
      rw [hsub, IntType.result?_eq ha]
    exact (Prod.mk.inj (Option.some.inj (hy.symm.trans hvalue.value))).2
  · obtain rfl : k = 0 := by omega
    rw [if_neg hlt]
    exact ⟨_, hz, fun a ha _ => by rw [ha, Nat.zero_add]⟩

/-- The expression of a count has the count of the operand as its value. -/
theorem Arithmetic.Evaluates.bitCountExpr (hv : Evaluates M σ v ⟨w, false⟩ n) (h : CountsBits σ long v n) (hw : w ≤ 64)
    (hlong : 64 ≤ long) (hclz : counter = .leadingZeros → w ≤ 32 ∨ long = 64) :
    Evaluates M σ (bitCountExpr counter w v).1 .int (counter.count w n) := by
  have hn : n < 2 ^ w := hv.fits
  obtain ⟨k, z, hz, hcount, hbits⟩ := h.call (M := M) hw hlong hclz hn
  have hfits : IntType.int.Fits (counter.count w n) :=
    ((BitCounter.count_le hn).trans hw).trans_lt (by decide : 64 < 2 ^ 31)
  have hwidth : Evaluates M σ (.nat w) .int w := .nat (hw.trans_lt (by decide))
  cases counter with
  | ones =>
    rw [hcount (.inl rfl)] at hz
    exact ⟨hz, hfits⟩
  | trailingZeros =>
    refine .ifZero hv hwidth.value hz (fun h => ?_) (fun h => ?_) hfits
    · simp [h, BitCounter.count]
    · rw [hcount (.inr h), BitCounter.count, BitCounter.count, if_neg h, if_neg h]
  | leadingZeros =>
    have hle : w + k ≤ 64 := by
      rw [hbits rfl, builtinSuffix]
      split <;> decide
    obtain ⟨y, hy, hvalue⟩ := eval_excess hz hle
    rw [hbits rfl] at hy
    refine .ifZero hv hwidth.value hy (fun h => ?_) (fun h => ?_) hfits
    · simp [h, BitCounter.count]
    · have hall := hcount (.inr h)
      rw [BitCounter.count_leadingZeros hn] at hall
      have hsmall : BitCounter.leadingZeros.count w n ≤ w := BitCounter.count_le hn
      exact hvalue _ hall (by omega)

theorem Ensures.bitCount {ty : Ty} (hkind : integerKind m x = .ok kind) :
    Ensures d (Lowering.bitCount m (walk m depth) counter x ty) fun v d' => ∃ (c : Copy) (d₁ : Draft),
      (c.kind = kind ∧ c.Follows m depth x d d₁) ∧ d'.func.steps.toList = d₁.func.steps.toList ∧
      v.render = .ok (bitCountExpr counter kind.bitWidth c.name).1 := by
  refine .bind (.unsignedOperand hkind) ?_
  rintro _ d₁ ⟨c, k, hck, hc, rfl⟩
  refine .lift_bind ?_
  rintro _ ⟨⟩
  refine .bind Adds.valueType ?_
  rintro cty d₂ ⟨_, hsteps₂, -, rfl⟩
  refine Ensures.mono Adds.newValue ?_
  rintro _ d' ⟨_, hsteps, -, rfl, rfl, -⟩
  refine ⟨c, d₁, ⟨hck, hc⟩, ?_, rfl⟩
  rw [hsteps, hsteps₂, List.append_nil, List.append_nil]

/-- The copy of an operand and an expression together count bits of the operand. -/
def Counts (counter : BitCounter) (w : Nat) (c : Copy) (e : C.Expr) : Prop :=
  ∀ (M : Machine) (σ : State) (t : IntType) (z : Int) (long : Nat), M.type? c.ty = some ⟨w, false⟩ → 64 ≤ long →
    (counter = .leadingZeros → w ≤ 32 ∨ long = 64) → eval M σ c.operand = some (t, some z) →
    ∃ τ, effect M σ c.line = some τ ∧ (CountsBits τ long c.name (z % 2 ^ w).toNat →
      eval M τ e = some (.int, some (counter.count w (z % 2 ^ w).toNat : Int)))

/-- A count of bits copies its operand and counts the bits of the copy, on every target whose `int` has 32 bits. For
the leading zeros of 64 bits `long long` must have 64 bits too. -/
theorem bit_counts_compute {ty : Ty} {dest : Option Value} {v : Value} (hkind : integerKind m x = .ok kind)
    (hrun : intrinsicCall m (walk m depth) counter.intrinsic [x] ty dest d = .ok (v, d')) :
    ∃ (c : Copy) (d₁ : Draft) (e : C.Expr), (c.kind = kind ∧ c.Follows m depth x d d₁) ∧
      d'.func.steps.toList = d₁.func.steps.toList ∧ v.render = .ok e ∧ Counts counter kind.bitWidth c e := by
  have hcount : Lowering.bitCount m (walk m depth) counter x ty d = .ok (v, d') := by
    cases counter <;> exact hrun
  obtain ⟨c, d₁, hc, hsteps, hv⟩ := Ensures.bitCount hkind v d' hcount
  refine ⟨c, d₁, _, hc, hsteps, hv, fun M σ t z long hty hlong hclz hz => ⟨_, c.effect_line hty hz, fun hbits => ?_⟩⟩
  have hw : kind.bitWidth ≤ 64 := by cases kind <;> decide
  exact ((c.evaluates (State.var_set_self ..)).bitCountExpr hbits hw hlong hclz).value

/-- The number -56 is 200 as an unsigned number of 8 bits, which ends in three zeros. -/
theorem bit_counts_compute_constant : ∃ d v d' c e, intrinsicCall operandModule (walk operandModule 2)
    BitCounter.trailingZeros.intrinsic [⟨0⟩] (.builtin .i32) none d = .ok (v, d') ∧ v.render = .ok e ∧
      Counts .trailingZeros 8 c e ∧ BitCounter.trailingZeros.count 8 200 = 3 := by
  have hkind : integerKind operandModule ⟨0⟩ = .ok .i8 := rfl
  have hok : (do
      let d ← Draft.new {}
      intrinsicCall operandModule (walk operandModule 2) BitCounter.trailingZeros.intrinsic [⟨0⟩] (.builtin .i32) none
        d).isOk = true := by
    decide +kernel
  obtain ⟨⟨v, d'⟩, hrun⟩ := exists_of_isOk hok
  obtain ⟨d, -, hrun⟩ := exists_of_bind_eq_ok hrun
  obtain ⟨c, -, e, -, -, he, hcounts⟩ := bit_counts_compute hkind hrun
  exact ⟨d, v, d', c, e, hrun, he, hcounts, by decide⟩

end CBackend
