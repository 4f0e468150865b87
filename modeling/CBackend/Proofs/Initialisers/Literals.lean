import CBackend.C.Expr
import Mathlib.Data.List.Basic

/-!
# Reading constants

The number that a C constant without parts stands for, read from its text: decimal digits, perhaps with a sign before
them or a `u` after them, hexadecimal digits after `0x`, or a character between quotes with its escapes.
-/

namespace CBackend.C

/-! ### Digits -/

/-- The value of a hexadecimal digit. -/
def hexDigit? (c : Char) : Option Nat :=
  if c.isDigit then some (c.toNat - '0'.toNat)
  else if 'a' ≤ c && c ≤ 'f' then some (c.toNat - 'a'.toNat + 10)
  else none

/-- The number with the given hexadecimal digits after the digits read so far. -/
def readHex : Nat → List Char → Option Nat
  | n, [] => some n
  | n, c :: cs => do readHex (16 * n + (← hexDigit? c)) cs

/-- The number with the given decimal digits. -/
def readDecimal? (cs : List Char) : Option Nat :=
  if cs ≠ [] ∧ cs.all Char.isDigit then some (Nat.ofDigitChars 10 cs 0) else none

/-- A number without a sign. -/
def readNumber? : List Char → Option Nat
  | '0' :: 'x' :: cs => readHex 0 cs
  | cs => if cs.getLast? = some 'u' then readDecimal? cs.dropLast else readDecimal? cs

/-- The character that an escape stands for. -/
def simpleEscape? : Char → Option Nat
  | '\'' => some 0x27
  | '"' => some 0x22
  | '\\' => some 0x5c
  | 'a' => some 0x07
  | 'b' => some 0x08
  | 'f' => some 0x0c
  | 'n' => some 0x0a
  | 'r' => some 0x0d
  | 't' => some 0x09
  | 'v' => some 0x0b
  | _ => none

/-- The rest of a character constant after its first quote. -/
def readCharacter? : List Char → Option Nat
  | ['\\', 'x', a, b, '\''] => readHex 0 [a, b]
  | ['\\', c, '\''] => simpleEscape? c
  | [c, '\''] => if c = '\\' || c = '\'' then none else some c.toNat
  | _ => none

/-- The number of a constant. -/
def readConstant : List Char → Option Int
  | '-' :: cs => (readNumber? cs).map fun n : Nat => -(n : Int)
  | '\'' :: cs => (readCharacter? cs).map Int.ofNat
  | cs => (readNumber? cs).map Int.ofNat

/-! ### Numbers -/

theorem readDecimal?_toDigits (n : Nat) : readDecimal? (Nat.toDigits 10 n) = some n := by
  have hdigits : (Nat.toDigits 10 n).all Char.isDigit = true :=
    List.all_eq_true.2 fun c hc => Nat.isDigit_of_mem_toDigits (by decide) (by decide) hc
  unfold readDecimal?
  rw [if_pos ⟨Nat.toDigits_ne_nil, hdigits⟩, Nat.ofDigitChars_ten_toDigits]

/-- Text whose first two characters are decimal digits, or whose first one is the last, is not hexadecimal. -/
theorem readNumber?_of_digits {cs : List Char} (h : ∀ w, cs ≠ '0' :: 'x' :: w) :
    readNumber? cs = if cs.getLast? = some 'u' then readDecimal? cs.dropLast else readDecimal? cs := by
  unfold readNumber?
  split
  · next w => exact absurd rfl (h w)
  · rfl

theorem readNumber?_toDigits (n : Nat) : readNumber? (Nat.toDigits 10 n) = some n := by
  have hdigit : ∀ c ∈ Nat.toDigits 10 n, c.isDigit = true := fun c hc =>
    Nat.isDigit_of_mem_toDigits (by decide) (by decide) hc
  have hhex : ∀ w, Nat.toDigits 10 n ≠ '0' :: 'x' :: w := by
    intro w h
    have hx := hdigit 'x' (by rw [h]; simp)
    revert hx
    decide
  have hlast : (Nat.toDigits 10 n).getLast? ≠ some 'u' := by
    intro h
    have hu := hdigit 'u' (List.mem_of_getLast? h)
    revert hu
    decide
  rw [readNumber?_of_digits hhex, if_neg hlast, readDecimal?_toDigits]

theorem readNumber?_unsigned (n : Nat) : readNumber? (Nat.toDigits 10 n ++ ['u']) = some n := by
  have hhex : ∀ w, Nat.toDigits 10 n ++ ['u'] ≠ '0' :: 'x' :: w := by
    intro w h
    have hmem : 'x' ∈ Nat.toDigits 10 n ++ ['u'] := by rw [h]; simp
    rcases List.mem_append.1 hmem with hx | hx
    · have hdigit := Nat.isDigit_of_mem_toDigits (by decide) (by decide) hx
      revert hdigit
      decide
    · revert hx
      decide
  rw [readNumber?_of_digits hhex, List.getLast?_append, List.getLast?_singleton, Option.some_or, if_pos rfl,
    List.dropLast_concat, readDecimal?_toDigits]

theorem readConstant_of_digits {cs : List Char} {c : Char} {w : List Char} (hcs : cs = c :: w) (hc : c.isDigit = true) :
    readConstant cs = (readNumber? cs).map Int.ofNat := by
  subst hcs
  unfold readConstant
  split
  · next heq =>
    cases heq
    exact absurd hc (by decide)
  · next heq =>
    cases heq
    exact absurd hc (by decide)
  · rfl

theorem exists_cons_toDigits (n : Nat) : ∃ c w, Nat.toDigits 10 n = c :: w ∧ c.isDigit = true := by
  cases h : Nat.toDigits 10 n with
  | nil => exact absurd h Nat.toDigits_ne_nil
  | cons c w =>
    exact ⟨c, w, rfl, Nat.isDigit_of_mem_toDigits (by decide) (by decide) (h ▸ List.mem_cons_self)⟩

theorem readConstant_int (v : Int) : readConstant (Literal.int v).spelling.toList = some v := by
  have hspelling : (Literal.int v).spelling = v.repr := rfl
  rw [hspelling]
  cases v with
  | ofNat n =>
    obtain ⟨c, w, hw, hc⟩ := exists_cons_toDigits n
    have htext : (Int.ofNat n).repr.toList = Nat.toDigits 10 n := by simp [Int.repr]
    rw [htext, readConstant_of_digits hw hc, readNumber?_toDigits]
    rfl
  | negSucc n =>
    have htext : (Int.negSucc n).repr.toList = '-' :: Nat.toDigits 10 (n + 1) := by simp [Int.repr]
    rw [htext]
    change (readNumber? (Nat.toDigits 10 (n + 1))).map (fun n : Nat => -(n : Int)) = _
    rw [readNumber?_toDigits]
    rfl

theorem readConstant_unsigned (n : Nat) : readConstant (Literal.unsigned n).spelling.toList = some (n : Int) := by
  obtain ⟨c, w, hw, hc⟩ := exists_cons_toDigits n
  have htext : (Literal.unsigned n).spelling.toList = Nat.toDigits 10 n ++ ['u'] := by
    have hend : (toString "u").toList = ['u'] := rfl
    simp [Literal.spelling, hend]
  rw [htext, readConstant_of_digits (w := w ++ ['u']) (by rw [hw]; rfl) hc, readNumber?_unsigned]
  rfl

/-! ### Characters -/

theorem readHex_append {n : Nat} {cs cs' : List Char} {k : Nat} (h : readHex n cs = some k) :
    readHex n (cs ++ cs') = readHex k cs' := by
  induction cs generalizing n with
  | nil =>
    cases h
    rfl
  | cons c cs ih =>
    unfold readHex at h
    obtain ⟨v, hv, h⟩ := Option.bind_eq_some_iff.1 h
    rw [List.cons_append, readHex, hv]
    exact ih h

theorem hexDigit?_digitChar {n : Nat} (h : n < 16) : hexDigit? (Nat.digitChar n) = some n := by
  have hall : ∀ n < 16, hexDigit? (Nat.digitChar n) = some n := by decide
  exact hall n h

theorem readHex_toDigits (n : Nat) : readHex 0 (Nat.toDigits 16 n) = some n := by
  induction n using Nat.strongRecOn with
  | ind n ih =>
    by_cases hn : n < 16
    · rw [Nat.toDigits_of_lt_base hn, readHex, hexDigit?_digitChar hn]
      simp [readHex]
    · have hle : 16 ≤ n := Nat.le_of_not_lt hn
      rw [Nat.toDigits_of_base_le (by decide) hle, readHex_append (ih (n / 16) (by omega)), readHex,
        hexDigit?_digitChar (Nat.mod_lt n (by decide))]
      change readHex (16 * (n / 16) + n % 16) [] = some n
      rw [Nat.div_add_mod]
      rfl

theorem readHex_zeros (k : Nat) : readHex 0 (List.replicate k '0') = some 0 := by
  induction k with
  | zero => rfl
  | succ k ih =>
    rw [List.replicate_succ, readHex]
    exact ih

/-- Characters within ASCII. -/
theorem readConstant_cChar_ascii : ∀ n < 128, readConstant (Text.cChar (Char.ofNat n)).toList = some (n : Int) := by
  decide +kernel

theorem cCharEscape?_eq_none {c : Char} (hc : 128 ≤ c.toNat) : Text.cCharEscape? c = none := by
  unfold Text.cCharEscape?
  split
  case h_11 =>
    rw [if_neg]
    rw [Bool.or_eq_true, decide_eq_true_eq, decide_eq_true_eq]
    omega
  all_goals
    revert hc
    decide

theorem readConstant_char (c : Char) : readConstant (Literal.char c).spelling.toList = some (c.toNat : Int) := by
  change readConstant (Text.cChar c).toList = _
  by_cases hc : c.toNat < 128
  · have hascii := readConstant_cChar_ascii c.toNat hc
    rwa [Char.ofNat_toNat] at hascii
  · have hhex {k : Nat} : readHex 0 (List.replicate k '0' ++ Nat.toDigits 16 c.toNat) = some c.toNat := by
      rw [readHex_append (readHex_zeros k), readHex_toDigits]
    unfold Text.cChar
    rw [cCharEscape?_eq_none (Nat.le_of_not_lt hc), String.toList_ofList]
    dsimp only
    rw [if_neg hc]
    change (readHex 0 (List.replicate (4 - (Nat.toDigits 16 c.toNat).length) '0' ++ Nat.toDigits 16 c.toNat)).map
      Int.ofNat = _
    rw [hhex]
    rfl

end CBackend.C
