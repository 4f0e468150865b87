import CBackend.Proofs.Plans.Code
import Mathlib.Tactic.Ring

/-!
# Integer arithmetic

The values of expressions over integers, on a target whose `int` has 32 bits. Operands are promoted and converted to a
common type as C says. What C does not define has no value: a shift by the width or more, and an arithmetic result that
a signed type cannot hold. An operand that is not evaluated need not have a value, but it has a type. Operators other
than conversions are given for numbers that are not negative, and everything else is read from the state.

## Main definitions

* `IntType` : the integer types.
* `Arithmetic.State` : what expressions are evaluated in.
* `Arithmetic.eval`, `Arithmetic.effect`, `Arithmetic.Loops` : expressions, lines and loops.
* `Arithmetic.Evaluates` : an expression has a type and a value that is not negative.
-/

namespace CBackend

open IR
open C (CType)

variable {w : Nat} {z : Int} {ty : CType}

/-! ### Types -/

/-- An integer type: its width, and whether it has negative numbers. -/
structure IntType where
  bits : Nat
  signed : Bool

namespace IntType

variable {t u : IntType} {n : Nat}

/-- The type `int`. -/
def int : IntType :=
  ⟨32, true⟩

/-- A number converted to a type. -/
def convert (t : IntType) (z : Int) : Int :=
  if t.signed then z.bmod (2 ^ t.bits) else z % 2 ^ t.bits

/-- The result of arithmetic in a type. It wraps around in unsigned types, and must be in range in signed ones. -/
def result? (t : IntType) (z : Int) : Option Int :=
  if t.signed && t.convert z != z then none else some (t.convert z)

/-- The type that a small type is promoted to. -/
def promoted (t : IntType) : IntType :=
  if t.bits < 32 then int else t

/-- The type that two operands are converted to. -/
def common (t u : IntType) : IntType :=
  if t.promoted.bits < u.promoted.bits then u.promoted
  else if u.promoted.bits < t.promoted.bits then t.promoted
  else ⟨t.promoted.bits, t.promoted.signed && u.promoted.signed⟩

/-- A natural number is in the range of a type. -/
def Fits (t : IntType) (n : Nat) : Prop :=
  n < 2 ^ (t.bits - t.signed.toNat)

theorem Fits.mono {n' : Nat} (h : t.Fits n) (hn : n' ≤ n) : t.Fits n' :=
  Nat.lt_of_le_of_lt hn h

theorem Fits.le {u : IntType} (h : t.Fits n) (hle : t.bits - t.signed.toNat ≤ u.bits - u.signed.toNat) : u.Fits n :=
  Nat.lt_of_lt_of_le h (Nat.pow_le_pow_right (by decide) hle)

theorem Fits.promoted (h : t.Fits n) : t.promoted.Fits n := by
  refine h.le ?_
  unfold IntType.promoted
  split
  · simp only [int, Bool.toNat_true]
    omega
  · exact le_rfl

theorem common_comm : t.common u = u.common t := by
  unfold common
  rw [Bool.and_comm]
  split_ifs <;> first | rfl | omega | (congr 1; omega)

theorem le_bits_promoted : 32 ≤ t.promoted.bits := by
  unfold promoted
  split
  · exact le_rfl
  · omega

/-- A number that is not negative stays in range when operands get their common type. -/
theorem Fits.common (h : t.Fits n) : (t.common u).Fits n := by
  refine h.promoted.le ?_
  have hbits := @le_bits_promoted t
  have hle {b : Bool} : b.toNat ≤ 1 := Bool.toNat_le b
  unfold IntType.common
  split_ifs
  · have := @hle u.promoted.signed
    omega
  · exact le_rfl
  · cases t.promoted.signed <;> cases u.promoted.signed <;> simp

theorem Fits.common' (h : u.Fits n) : (t.common u).Fits n :=
  common_comm ▸ h.common

theorem convert_eq (h : t.Fits n) : t.convert n = n := by
  unfold Fits at h
  unfold convert
  obtain ⟨bits, _ | _⟩ := t
  · exact Int.emod_eq_of_lt (Int.natCast_nonneg n) (by exact_mod_cast h)
  · dsimp only [Bool.toNat_true] at h ⊢
    have hpos : 0 < 2 ^ bits := Nat.two_pow_pos bits
    refine Int.bmod_eq_of_le (by omega) ?_
    cases bits with
    | zero => omega
    | succ k =>
      rw [Nat.add_sub_cancel] at h
      omega

theorem fits_toNat : Fits ⟨w, false⟩ (z % 2 ^ w).toNat := by
  have hpos : (0 : Int) < 2 ^ w := Int.pow_pos (by decide)
  refine (Int.toNat_lt (Int.emod_nonneg z hpos.ne')).2 ?_
  exact_mod_cast Int.emod_lt_of_pos z hpos

/-- A number converted to an unsigned type. -/
theorem convert_unsigned : convert ⟨w, false⟩ z = ((z % 2 ^ w).toNat : Int) :=
  (Int.toNat_of_nonneg (Int.emod_nonneg z (Int.pow_pos (by decide)).ne')).symm

theorem result?_eq (h : t.Fits n) : t.result? n = some (n : Int) := by
  simp [result?, convert_eq h]

end IntType

namespace Arithmetic

/-! ### Expressions -/

/-- The integer types that C types stand for, and a limit for the amounts of shifts. -/
structure Machine where
  type? : CType → Option IntType
  limit : Nat

/-- The amounts of shifts are limited to a width of at most 16 bits, which is promoted with room to spare, or of at
least 32 bits, which is not promoted. -/
structure Machine.Shifts (M : Machine) (w : Nat) : Prop where
  limit : M.limit = w
  promotes : w ≤ 16 ∨ 32 ≤ w
  one_lt : 1 < w
  lt : w < 2 ^ 31

/-- The numbers in local variables, with their types, and what other expressions evaluate to. -/
structure State where
  var : Nat → Option (IntType × Int)
  other : C.Expr → Option (IntType × Int)

/-- A number is stored in a local variable of a type. -/
def State.set (σ : State) (n : Nat) (t : IntType) (z : Int) : State :=
  { σ with var := Function.update σ.var n (some (t, t.convert z)) }

@[simp]
theorem State.var_set_self (σ : State) (n : Nat) (t : IntType) (z : Int) :
    (σ.set n t z).var n = some (t, t.convert z) :=
  Function.update_self ..

theorem State.var_set_ne {σ : State} {n k : Nat} {t : IntType} (h : k ≠ n) : (σ.set n t z).var k = σ.var k :=
  Function.update_of_ne h ..

/-- A type, and a number if there is a defined one. -/
abbrev Outcome := IntType × Option Int

/-- The result of a shift of promoted operands. Shifts by the limit or more are not defined. -/
def shift? (limit : Nat) (op : String) (t : IntType) (a k : Nat) : Option Int :=
  if k < limit ∧ k < t.bits then
    if op = "<<" then t.result? (a * 2 ^ k : Nat) else some (a / 2 ^ k : Nat)
  else none

/-- The result of another operator for operands of a common type. -/
def compute? (op : String) (t : IntType) (a b : Nat) : Option Int :=
  if op = "-" then t.result? (a - b)
  else if op = "%" then if b = 0 then none else some (a % b : Nat)
  else if op = "|" then some (a ||| b : Nat)
  else if op = "&" then some (a &&& b : Nat)
  else if op = "==" then some (a == b).toNat
  else if op = "<" then some (decide (a < b)).toNat
  else none

/-- The type of the result of such an operator. -/
def resultType (op : String) (t : IntType) : IntType :=
  if op = "==" ∨ op = "<" then .int else t

/-- The type and the number that an operator yields. -/
def operate (limit : Nat) (op : String) (x y : Outcome) : Outcome :=
  if op = "<<" ∨ op = ">>" then
    (x.1.promoted, do shift? limit op x.1.promoted (← (← x.2).toNat?) (← (← y.2).toNat?))
  else
    let t := x.1.common y.1
    (resultType op t,
      do compute? op t (← (t.convert (← x.2)).toNat?) (← (t.convert (← y.2)).toNat?))

/-- The type and the number of an expression. -/
def eval (M : Machine) (σ : State) : C.Expr → Option Outcome
  | .name (.localVar n) => do
    let (t, z) ← σ.var n
    pure (t, some z)
  | .literal (.int z) => some (.int, IntType.int.result? z)
  | .literal (.unsigned n) => some (⟨32, false⟩, if n < 2 ^ 32 then some n else none)
  | .paren e => eval M σ e
  | .cast ty e => do
    let x ← eval M σ e
    let t ← M.type? ty
    pure (t, x.2.map t.convert)
  | .conditional c e e' => do
    let x ← eval M σ c
    let y ← eval M σ e
    let y' ← eval M σ e'
    let t := y.1.common y'.1
    pure (t, do (if (← x.2) = 0 then y'.2 else y.2).map t.convert)
  | .binary op e e' => do pure (operate M.limit op (← eval M σ e) (← eval M σ e'))
  | e => do
    let (t, z) ← σ.other e
    pure (t, some z)

variable {M : Machine} {σ τ υ : State} {e e' e'' : C.Expr} {t u : IntType}
  {a b k n : Nat}

/-! ### Lines -/

/-- What a line does. -/
def effect (M : Machine) (σ : State) : C.Line → Option State
  | .declare ty n (some e) => do pure (σ.set n (← M.type? ty) (← (← eval M σ e).2))
  | .expression (.binary op (.name (.localVar n)) e) => do
    let (t, _) ← σ.var n
    let x ←
      if op = "=" then eval M σ e
      else if op = "%=" then eval M σ (.binary "%" (.name (.localVar n)) e)
      else none
    pure (σ.set n t (← x.2))
  | .expression (.before op (.name (.localVar n))) => do
    let (t, z) ← σ.var n
    if op = "++" then pure (σ.set n t (z + 1)) else none
  | _ => none

theorem effect_declare (hty : M.type? ty = some t) (he : eval M σ e = some (u, some z)) :
    effect M σ (.declare ty n (some e)) = some (σ.set n t z) := by
  simp [effect, hty, he]

theorem effect_assign {z' : Int} (hσ : σ.var n = some (t, z)) (he : eval M σ e = some (u, some z')) :
    effect M σ (.expression (.binary "=" (.name (.localVar n)) e)) = some (σ.set n t z') := by
  simp [effect, hσ, he]

/-- A loop leads from one state to another one in a number of rounds. -/
inductive Loops (M : Machine) (condition : C.Expr) (body : List C.Line) :
    Nat → State → State → Prop
  | stop {σ : State} {t : IntType} (h : eval M σ condition = some (t, some 0)) :
      Loops M condition body 0 σ σ
  | round {σ τ υ : State} {t : IntType} {z : Int} {k : Nat}
      (h : eval M σ condition = some (t, some z)) (hz : z ≠ 0)
      (hbody : body.foldlM (effect M) σ = some τ) (hrest : Loops M condition body k τ υ) :
      Loops M condition body (k + 1) σ υ

/-! ### Numbers that are not negative -/

/-- An expression has a type and a value in its range that is not negative. -/
structure Evaluates (M : Machine) (σ : State) (e : C.Expr) (t : IntType) (n : Nat) :
    Prop where
  value : eval M σ e = some (t, some (n : Int))
  fits : t.Fits n

namespace Evaluates

theorem var (h : σ.var k = some (t, (n : Int))) (hfits : t.Fits n) : Evaluates M σ (.name (.localVar k)) t n :=
  ⟨by simp [eval, h], hfits⟩

theorem nat (h : n < 2 ^ 31) : Evaluates M σ (.nat n) .int n :=
  have hfits : IntType.int.Fits n := h
  ⟨by simp [C.Expr.nat, eval, IntType.result?_eq hfits], hfits⟩

theorem paren (h : Evaluates M σ e t n) : Evaluates M σ (.paren e) t n :=
  ⟨by rw [eval, h.value], h.fits⟩

theorem cast (h : Evaluates M σ e t n) (hty : M.type? ty = some ⟨w, false⟩) :
    Evaluates M σ (.cast ty e) ⟨w, false⟩ (n % 2 ^ w) := by
  refine ⟨?_, Nat.mod_lt _ (Nat.two_pow_pos w)⟩
  simp [eval, h.value, hty, IntType.convert]

theorem shift {op : String} (hop : op = "<<" ∨ op = ">>") (h : Evaluates M σ e t a)
    (h' : Evaluates M σ e' u k) (hn : shift? M.limit op t.promoted a k = some (n : Int))
    (hfits : t.promoted.Fits n) : Evaluates M σ (.binary op e e') t.promoted n := by
  refine ⟨?_, hfits⟩
  simp only [eval, h.value, h'.value, operate, if_pos hop]
  exact congrArg (fun x => some (_, x)) hn

theorem binary {op : String} (hop : ¬ (op = "<<" ∨ op = ">>")) (h : Evaluates M σ e t a)
    (h' : Evaluates M σ e' u b) (hn : compute? op (t.common u) a b = some (n : Int))
    (hfits : (resultType op (t.common u)).Fits n) :
    Evaluates M σ (.binary op e e') (resultType op (t.common u)) n := by
  refine ⟨?_, hfits⟩
  simp only [eval, h.value, h'.value, operate, if_neg hop, Option.bind_eq_bind, Option.bind_some,
    IntType.convert_eq h.fits.common, IntType.convert_eq h'.fits.common']
  exact congrArg (fun x => some (_, x)) hn

/-- A shift to the left by less than the width. Numbers of at most 16 bits do not leave the range of `int`, and
numbers of 32 bits or more wrap around. -/
theorem shiftLeft (hM : M.Shifts w) (h : Evaluates M σ e ⟨w, false⟩ a) (h' : Evaluates M σ e' u k) (hk : k < w) :
    ∃ n t, Evaluates M σ (.binary "<<" e e') t n ∧ n % 2 ^ w = a * 2 ^ k % 2 ^ w := by
  have ha : a < 2 ^ w := h.fits
  have hlimit : k < M.limit := hM.limit ▸ hk
  obtain hsmall | hlarge := hM.promotes
  · have hint : IntType.promoted ⟨w, false⟩ = .int := if_pos (show w < 32 by omega)
    have hfits : IntType.int.Fits (a * 2 ^ k) := by
      calc a * 2 ^ k < 2 ^ w * 2 ^ k := Nat.mul_lt_mul_of_pos_right ha (Nat.two_pow_pos k)
        _ = 2 ^ (w + k) := (Nat.pow_add ..).symm
        _ ≤ 2 ^ 31 := Nat.pow_le_pow_right (by decide) (by omega)
    refine ⟨a * 2 ^ k, _, .shift (.inl rfl) h h' ?_ (hint ▸ hfits), rfl⟩
    rw [hint, shift?, if_pos ⟨hlimit, show k < 32 by omega⟩, if_pos rfl, IntType.result?_eq hfits]
  · have hsame : IntType.promoted ⟨w, false⟩ = ⟨w, false⟩ := if_neg (show ¬ w < 32 by omega)
    refine ⟨a * 2 ^ k % 2 ^ w, _, .shift (.inl rfl) h h' ?_ ?_, Nat.mod_mod ..⟩
    · rw [hsame, shift?, if_pos ⟨hlimit, hk⟩, if_pos rfl]
      simp [IntType.result?, IntType.convert]
    · rw [hsame]
      exact Nat.mod_lt _ (Nat.two_pow_pos w)

theorem shiftRight (hM : M.Shifts w) (h : Evaluates M σ e ⟨w, false⟩ a) (h' : Evaluates M σ e' u k) (hk : k < w) :
    ∃ t, Evaluates M σ (.binary ">>" e e') t (a / 2 ^ k) := by
  have hbits : w ≤ (IntType.promoted ⟨w, false⟩).bits := by
    unfold IntType.promoted
    split <;> simp_all [IntType.int, le_of_lt]
  refine ⟨_, .shift (.inr rfl) h h' ?_ (h.fits.promoted.mono (Nat.div_le_self ..))⟩
  rw [shift?, if_pos ⟨hM.limit ▸ hk, hk.trans_le hbits⟩, if_neg (by decide)]

/-- The low bits of a number that has been shifted to the left are filled. -/
theorem filled (hM : M.Shifts w) (hty : M.type? ty = some ⟨w, false⟩) (h : Evaluates M σ e ⟨w, false⟩ a)
    (h' : Evaluates M σ e' u k) (hk : k < w) (hlow : Evaluates M σ e'' t b) (hb : b < 2 ^ k) :
    Evaluates M σ (.cast ty (.paren (.binary "|" (.paren (.binary "<<" e e')) (.paren e'')))) ⟨w, false⟩
      ((a * 2 ^ k + b) % 2 ^ w) := by
  obtain ⟨n, t', hn, hmod⟩ := shiftLeft hM h h' hk
  have hor : Evaluates M σ (.binary "|" (.paren (.binary "<<" e e')) (.paren e'')) (t'.common t) (n ||| b) :=
    .binary (by decide) hn.paren hlow.paren rfl (Nat.or_lt_two_pow hn.fits.common hlow.fits.common')
  have hsum : (n ||| b) % 2 ^ w = (a * 2 ^ k + b) % 2 ^ w := by
    rw [← Nat.shiftLeft_eq, Nat.shiftLeft_add_eq_or_of_lt hb, Nat.or_mod_two_pow, Nat.or_mod_two_pow, hmod,
      Nat.shiftLeft_eq]
  exact hsum ▸ hor.paren.cast hty

/-- A conditional on a number being zero. The branch that is not evaluated need not have a value. -/
theorem ifZero {x x' : Option Int} (h : Evaluates M σ e u a) (he' : eval M σ e' = some (t, x))
    (he'' : eval M σ e'' = some (t, x')) (hzero : a = 0 → x = some (n : Int))
    (hother : a ≠ 0 → x' = some (n : Int)) (hfits : t.Fits n) :
    Evaluates M σ (Lowering.ifZero e e' e'') (t.common t) n := by
  have hnat : Evaluates M σ (.nat 0) .int 0 := .nat (by decide)
  have htest : Evaluates M σ (.binary "==" e (.nat 0)) .int (a == 0).toNat :=
    .binary (by decide) h hnat rfl (Nat.lt_of_le_of_lt (Bool.toNat_le _) (by decide : 1 < 2 ^ 31))
  refine ⟨?_, hfits.common⟩
  rw [Lowering.ifZero, eval, htest.value, he', he'']
  by_cases ha : a = 0
  · simp [ha, hzero ha, IntType.convert_eq hfits.common]
  · simp [ha, hother ha, IntType.convert_eq hfits.common]

end Evaluates

end Arithmetic

end CBackend
