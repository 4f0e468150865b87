/-!
# Shortest decimals

The fewest decimal digits that read back as a given binary floating-point number. A number is
decoded into `m * 2 ^ q`; the reals that round to it form an interval, which contains its ends when
`m` is even. The grids of multiples of `10 ^ p` are searched from coarse to fine. On each grid only
the two neighbours of the number can be the nearest point, so the first grid of which a neighbour
lies in the interval gives the fewest digits. Of two neighbours in the interval the nearer is taken,
and the upper one when both are equally near.
-/

namespace CBackend

/-- A binary floating-point format: the widths of its fraction and exponent fields. -/
structure FloatFormat where
  fractionBits : Nat
  exponentBits : Nat

namespace FloatFormat

/-- The 32-bit format. -/
def single : FloatFormat := ⟨23, 8⟩

/-- The 64-bit format. -/
def double : FloatFormat := ⟨52, 11⟩

end FloatFormat

/-- A positive number `m * 2 ^ q` with the interval of reals that round to it. -/
structure Rounding where
  m : Nat
  q : Int
  /-- Whether the next smaller number is only half as far away as the next larger one. -/
  isBoundary : Bool

/-- What the bits of a floating-point number stand for. -/
inductive FloatValue
  | nan
  | infinite (negative : Bool)
  | zero (negative : Bool)
  | finite (negative : Bool) (magnitude : Rounding)

/-- Decodes the fields of a number. -/
def FloatFormat.decode (f : FloatFormat) (bits : Nat) : FloatValue :=
  let fraction := bits % Nat.pow 2 f.fractionBits
  let biased := bits / Nat.pow 2 f.fractionBits % Nat.pow 2 f.exponentBits
  let negative := bits / Nat.pow 2 (f.fractionBits + f.exponentBits) % 2 == 1
  let bias : Int := Nat.pow 2 (f.exponentBits - 1) - 1
  if biased + 1 = Nat.pow 2 f.exponentBits then
    if fraction = 0 then .infinite negative else .nan
  else if biased = 0 then
    if fraction = 0 then .zero negative
    else .finite negative ⟨fraction, 1 - bias - f.fractionBits, false⟩
  else
    .finite negative
      { m := Nat.pow 2 f.fractionBits + fraction
        q := biased - bias - f.fractionBits
        isBoundary := fraction = 0 && 1 < biased }

/-- The number `digits * 10 ^ exponent`. -/
structure Decimal where
  digits : Nat
  exponent : Int
  deriving DecidableEq, Repr

namespace Rounding

/-- The numerator and denominator of `x * 2 ^ (q - 2) / 10 ^ p`. With `x = 4 * m` this is the number
itself in units of the grid, and the ends of the interval are one or two steps of `x` away. -/
def scaled (r : Rounding) (x : Nat) (p : Int) : Nat × Nat :=
  let e := r.q - 2
  (x * Nat.pow 2 e.toNat * Nat.pow 10 (-p).toNat, Nat.pow 2 (-e).toNat * Nat.pow 10 p.toNat)

/-- Whether `d * 10 ^ p` rounds to the number. -/
def contains (r : Rounding) (d : Nat) (p : Int) : Bool :=
  let low := r.scaled (4 * r.m - if r.isBoundary then 1 else 2) p
  let high := r.scaled (4 * r.m + 2) p
  if r.m % 2 = 0 then low.1 ≤ d * low.2 && d * high.2 ≤ high.1
  else low.1 < d * low.2 && d * high.2 < high.1

/-- The point of the grid `10 ^ p` that is taken for the number: the neighbour in the interval, the
nearer one if both are, the upper one of two equally near. -/
def onGrid? (r : Rounding) (p : Int) : Option Nat :=
  let x := r.scaled (4 * r.m) p
  let d := x.1 / x.2
  match r.contains d p, r.contains (d + 1) p with
  | true, true => some (if 2 * (x.1 - d * x.2) < x.2 then d else d + 1)
  | true, false => some d
  | false, true => some (d + 1)
  | false, false => none

/-- The first grid with a point for the number, among `steps` grids from `10 ^ p` downwards. -/
def search (r : Rounding) : Nat → Int → Decimal
  | 0, p => ⟨(r.scaled (4 * r.m) p).1 / (r.scaled (4 * r.m) p).2, p⟩
  | steps + 1, p =>
    match r.onGrid? p with
    | some d => ⟨d, p⟩
    | none => search r steps (p - 1)

/-- An exponent of ten whose power is above the number. -/
def ceiling (r : Rounding) : Int :=
  (r.m.log2 + 1 + r.q) * 30103 / 100000 + 2

/-- The shortest decimal that rounds to the number. -/
def shortest (r : Rounding) : Decimal :=
  r.search 40 r.ceiling

end Rounding

end CBackend
