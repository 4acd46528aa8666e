import DeployConfig.Json.Value

/-!
# Numbers in JSON

A number without a point and without an exponent that fits 64 bits, signed or unsigned, is whole.
Any other number is a double, computed as follows. Its digits are gathered into a significand of at
most 64 bits; digits past that are dropped, those before the point counting as zeros. The
significand, rounded to a double, is then multiplied or divided by a power of ten, in one step when
the power is itself a double. This is exact to the last bit for up to fifteen digits and moderate
exponents. A number too large for a double is refused.
-/

set_option autoImplicit false

namespace DeployConfig.Json

/-- Digits gathered so far: the significand, the power of ten it stands for, and whether a digit
had to be dropped. -/
structure Gathered where
  significand : Nat
  exponent : Int
  full : Bool

namespace Gathered

/-- The value of a digit character. -/
def digitValue (c : Char) : Nat := c.toNat - '0'.toNat

/-- The largest significand. -/
def limit : Nat := UInt64.size - 1

/-- Takes a digit before the point. -/
def addWhole (sofar : Gathered) (c : Char) : Gathered :=
  let next := sofar.significand * 10 + digitValue c
  if sofar.full || next > limit then { sofar with exponent := sofar.exponent + 1, full := true }
  else { sofar with significand := next }

/-- Takes a digit behind the point. -/
def addFraction (sofar : Gathered) (c : Char) : Gathered :=
  let next := sofar.significand * 10 + digitValue c
  if sofar.full || next > limit then { sofar with full := true }
  else { sofar with significand := next, exponent := sofar.exponent - 1 }

end Gathered

/-- Multiplies a double by a power of ten. An exponent that no double reaches is brought nearer in
steps of 308, which soon makes the number zero; `steps` bounds them. -/
def scaleByTen : Nat → Float → Int → Option Float
  | 0, _, _ => some 0
  | steps + 1, number, exponent =>
    if exponent.natAbs ≤ 308 then
      let power := Float.ofScientific 1 false exponent.natAbs
      if exponent ≥ 0 then
        let scaled := number * power
        if scaled.isInf then none else some scaled
      else some (number / power)
    else if number == 0 then some number
    else if exponent ≥ 0 then none
    else scaleByTen steps (number / Float.ofScientific 1 false 308) (exponent + 308)

/-- The value of a run of digits. -/
def digitsValue (digits : List Char) : Nat :=
  digits.foldl (fun value c => value * 10 + Gathered.digitValue c) 0

/-- The double with these digits before and behind the point and this exponent. -/
def toDouble (negative : Bool) (whole fraction : List Char) (exponent : Int) : Option Float :=
  let gathered := whole.foldl Gathered.addWhole ⟨0, 0, false⟩
  let gathered := fraction.foldl Gathered.addFraction { gathered with full := false }
  let number :=
    if Int32.maxValue.toInt < exponent.natAbs then
      if gathered.significand != 0 && exponent > 0 then none else some 0
    else scaleByTen 8 gathered.significand.toUInt64.toFloat (gathered.exponent + exponent)
  number.map fun value => if negative then -value else value

/-- The value of a whole number; minus zero is a double. -/
def wholeValue (negative : Bool) (digits : List Char) : Option Value :=
  let value := digitsValue digits
  if negative then
    if value != 0 && Int64.minValue.toInt ≤ -(value : Int) then some (.integer (-(value : Int)))
    else (toDouble true digits [] 0).map .float
  else if value ≤ Gathered.limit then some (.integer value)
  else (toDouble false digits [] 0).map .float

/-- Reads an exponent, if one is written here. -/
def readExponent (text : List Char) : Option (Option Int × List Char) :=
  match text with
  | e :: rest =>
    if e == 'e' || e == 'E' then
      let (negative, rest) :=
        match rest with
        | '-' :: rest => (true, rest)
        | '+' :: rest => (false, rest)
        | rest => (false, rest)
      let digits := rest.takeWhile Char.isDigit
      if digits.isEmpty then none
      else
        let value : Int := digitsValue digits
        some (some (if negative then -value else value), rest.dropWhile Char.isDigit)
    else some (none, text)
  | [] => some (none, text)

/-- Reads a number. A zero in front stands alone, and a point has digits on both sides. -/
def readNumber (text : List Char) : Option (Value × List Char) := do
  let (negative, text) :=
    match text with
    | '-' :: rest => (true, rest)
    | _ => (false, text)
  let whole := text.takeWhile Char.isDigit
  let rest := text.dropWhile Char.isDigit
  if whole.isEmpty || (whole.head? == some '0' && whole.length > 1) then none
  else
    let (fraction, rest) :=
      match rest with
      | '.' :: rest => (some (rest.takeWhile Char.isDigit), rest.dropWhile Char.isDigit)
      | _ => (none, rest)
    if fraction == some [] then none
    else
      let (exponent, rest) ← readExponent rest
      match fraction, exponent with
      | none, none => return (← wholeValue negative whole, rest)
      | _, _ =>
        return (.float (← toDouble negative whole (fraction.getD []) (exponent.getD 0)), rest)

end DeployConfig.Json
