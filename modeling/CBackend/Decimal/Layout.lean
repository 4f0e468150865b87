import CBackend.Decimal.Shortest

/-!
# Writing decimals

Where the point goes. A decimal is written in full within a range of magnitudes, always with a
digit after the point, and with a power of ten outside of it.
-/

namespace CBackend

namespace Decimal

/-- The exponents of the leading digit for which a decimal is written in full. -/
structure Layout where
  least : Int
  bound : Int

/-- Numbers from `0.0001` up to, but not including, `1e16` are written in full. -/
def Layout.standard : Layout := ⟨-4, 16⟩

private def zeros (n : Nat) : List Char :=
  List.replicate n '0'

/-- The decimal written in full, with at least one digit after the point. -/
def plain (d : Decimal) : String :=
  let ds := Nat.toDigits 10 d.digits
  let point : Int := ds.length + d.exponent
  String.ofList <|
    if point ≤ 0 then '0' :: '.' :: (zeros (-point).toNat ++ ds)
    else if point < ds.length then ds.take point.toNat ++ '.' :: ds.drop point.toNat
    else ds ++ zeros (point.toNat - ds.length) ++ ['.', '0']

/-- The exponent of the leading digit. -/
def leadingExponent (d : Decimal) : Int :=
  (Nat.toDigits 10 d.digits).length + d.exponent - 1

/-- The decimal written with one digit before the point and a power of ten. -/
def scientific (d : Decimal) : String :=
  let mantissa := match Nat.toDigits 10 d.digits with
    | [] => []
    | [c] => [c]
    | c :: cs => c :: '.' :: cs
  String.ofList mantissa ++ "e" ++ toString d.leadingExponent

/-- The decimal as a layout has it. -/
def write (l : Layout) (d : Decimal) : String :=
  if l.least ≤ d.leadingExponent && d.leadingExponent < l.bound then d.plain else d.scientific

end Decimal

/-- The texts of the numbers that have no digits. -/
structure FloatWords where
  nan : String
  infinity : String

/-- The text of a floating-point number: the fewest digits that read back. -/
def FloatFormat.write (f : FloatFormat) (w : FloatWords) (bits : Nat) : String :=
  let sign (negative : Bool) := if negative then "-" else ""
  match f.decode bits with
  | .nan => w.nan
  | .infinite negative => sign negative ++ w.infinity
  | .zero negative => sign negative ++ "0.0"
  | .finite negative r => sign negative ++ r.shortest.write .standard

end CBackend
