/-!
# The shortest decimal text of a binary fraction

A double stands for every real number that rounds to it. Its text is the decimal with the fewest
significant digits among those numbers; of several the one nearest to the double, and of two
equally near the larger. All comparisons are made in exact natural-number arithmetic.

The text is positional: no exponent is ever written, a whole number has no point, and the sign of
zero is kept.
-/

set_option autoImplicit false

namespace DeployConfig

/-- The number `digits * 10 ^ exponent`. -/
structure Decimal where
  digits : Nat
  exponent : Int

namespace Decimal

/-- A positive double `mantissa * 2 ^ exponent`. `atBinade` tells that the double below it is only
half as far away as the one above it. -/
structure Binary where
  mantissa : Nat
  exponent : Int
  atBinade : Bool

namespace Binary

/-- The fraction `scaled * 2 ^ (exponent - 2)`, compared with `count * 10 ^ grid`: whether the
first is at most the second. The factor four lets the ends of the rounding interval be whole. -/
def leGrid (exponent : Int) (scaled : Nat) (grid : Int) (count : Nat) : Bool :=
  scaled * Nat.pow 2 (exponent - 2).toNat * Nat.pow 10 (-grid).toNat ≤
    count * Nat.pow 10 grid.toNat * Nat.pow 2 (2 - exponent).toNat

/-- The comparison the other way round. -/
def geGrid (exponent : Int) (scaled : Nat) (grid : Int) (count : Nat) : Bool :=
  count * Nat.pow 10 grid.toNat * Nat.pow 2 (2 - exponent).toNat ≤
    scaled * Nat.pow 2 (exponent - 2).toNat * Nat.pow 10 (-grid).toNat

/-- Whether `count * 10 ^ grid` rounds to the double. The ends of the interval belong to it when
the mantissa is even. -/
def roundsTo (number : Binary) (grid : Int) (count : Nat) : Bool :=
  let low := if number.atBinade then 4 * number.mantissa - 1 else 4 * number.mantissa - 2
  let high := 4 * number.mantissa + 2
  if number.mantissa % 2 == 0 then
    leGrid number.exponent low grid count && geGrid number.exponent high grid count
  else
    !geGrid number.exponent low grid count && !leGrid number.exponent high grid count

/-- The largest count with `count * 10 ^ grid` at most the double. -/
def floorAt (number : Binary) (grid : Int) : Nat :=
  number.mantissa * Nat.pow 2 number.exponent.toNat * Nat.pow 10 (-grid).toNat /
    (Nat.pow 10 grid.toNat * Nat.pow 2 (-number.exponent).toNat)

/-- The number of digits before the point; zero or less for a number below one tenth. -/
def magnitude (number : Binary) : Int :=
  (Nat.toDigits 10 (number.floorAt (-400))).length - 400

/-- The better of the two neighbours of the double on a grid, if one of them rounds to it. -/
def onGrid? (number : Binary) (grid : Int) : Option Nat :=
  let below := number.floorAt grid
  match number.roundsTo grid below, number.roundsTo grid (below + 1) with
  | true, true =>
    -- twice the double against the sum of the two neighbours: a tie goes up
    if leGrid number.exponent (8 * number.mantissa) grid (2 * below + 1) &&
        !geGrid number.exponent (8 * number.mantissa) grid (2 * below + 1) then some below
    else some (below + 1)
  | true, false => some below
  | false, true => some (below + 1)
  | false, false => none

/-- The shortest decimal with at most `tries` more digits, starting at `grid`. Seventeen digits
always suffice; when the tries run out the value is cut off at the grid. -/
def search (number : Binary) : Nat → Int → Decimal
  | 0, grid => ⟨number.floorAt grid, grid⟩
  | tries + 1, grid =>
    match number.onGrid? grid with
    | some count => ⟨count, grid⟩
    | none => number.search tries (grid - 1)

/-- The shortest decimal that rounds to the double. -/
def shortest (number : Binary) : Decimal :=
  number.search 17 (number.magnitude - 1)

end Binary

/-- Moves `steps` trailing zeros at most from the digits into the exponent. -/
def dropTrailingZeros : Nat → Decimal → Decimal
  | 0, decimal => decimal
  | steps + 1, decimal =>
    if decimal.digits % 10 == 0 && decimal.digits != 0 then
      dropTrailingZeros steps ⟨decimal.digits / 10, decimal.exponent + 1⟩
    else decimal

/-- The positional notation. -/
def positional (decimal : Decimal) : String :=
  let decimal := dropTrailingZeros 20 decimal
  let digits := Nat.toDigits 10 decimal.digits
  let places := (-decimal.exponent).toNat
  if places == 0 then
    String.ofList (digits ++ List.replicate decimal.exponent.toNat '0')
  else
    let padded := List.replicate (places + 1 - digits.length) '0' ++ digits
    let whole := padded.length - places
    String.ofList (padded.take whole ++ '.' :: padded.drop whole)

/-- The leading bit of a mantissa, which the bits of a double leave out. -/
def hiddenBit : Nat := 0x10000000000000

/-- The text of a double. -/
def ofFloat (x : Float) : String :=
  let bits : Nat := x.toBits.toNat
  let sign := if bits >>> 63 == 1 then "-" else ""
  let biased : Nat := (bits >>> 52) % 2048
  let fraction : Nat := bits % hiddenBit
  if biased == 2047 then
    if fraction == 0 then sign ++ "inf" else "NaN"
  else if biased == 0 then
    if fraction == 0 then sign ++ "0"
    else sign ++ (Binary.shortest ⟨fraction, -1074, false⟩).positional
  else
    sign ++ (Binary.shortest
      ⟨hiddenBit + fraction, (biased : Int) - 1075, fraction == 0 && biased != 1⟩).positional

end Decimal

end DeployConfig
