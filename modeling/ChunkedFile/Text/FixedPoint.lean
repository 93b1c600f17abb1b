import ChunkedFile.Text.Numeral

/-!
# Fixed-point text

A floating-point number with a fixed number of decimals, rounded from its exact value; what lies
halfway goes to the even neighbour.
-/

namespace ChunkedFile.Text

/-- A quotient rounded to the nearest integer, halves to the even one. -/
def roundHalfEven (numerator denominator : Nat) : Nat :=
  let quotient := numerator / denominator
  let twice := 2 * (numerator % denominator)
  if twice < denominator then quotient
  else if denominator < twice then quotient + 1
  else quotient + quotient % 2

/-- The exact value of a non-negative finite number as a fraction, from its bits. -/
def exactFraction (bits : UInt64) : Nat × Nat :=
  let exponent := ((bits >>> 52) &&& 0x7FF).toNat
  let fraction := (bits &&& 0xFFFFFFFFFFFFF).toNat
  let mantissa := if exponent = 0 then fraction else fraction + Nat.pow 2 52
  (mantissa * Nat.pow 2 (max exponent 1 - 1075), Nat.pow 2 (1075 - max exponent 1))

/-- The text of a non-negative finite number with the given number of decimals, at least one. -/
def fixedPoint (decimals : Nat) (value : Float) : String :=
  let (numerator, denominator) := exactFraction value.toBits
  let unit := Nat.pow 10 decimals
  let scaled := roundHalfEven (numerator * unit) denominator
  s!"{scaled / unit}." ++ padded decimals (scaled % unit)

end ChunkedFile.Text
