/-!
# Dates and times in TOML

A date, a time of day, both together, or both with an offset. They are written as in RFC 3339,
except that the seconds may be left out when they are zero; between date and time stands `T`, in
either case, or a blank. A printed time always has its seconds, and behind them the digits of a
fraction up to its last digit that is not zero. A printed date and time has a capital `T`.
-/

set_option autoImplicit false

namespace DeployConfig.Toml

/-- A calendar date. -/
structure Date where
  year : Nat
  month : Nat
  day : Nat
deriving DecidableEq, Repr

/-- A time of day. -/
structure TimeOfDay where
  hour : Nat
  minute : Nat
  second : Nat
  nanosecond : Nat
deriving DecidableEq, Repr

/-- A distance from Greenwich. -/
inductive Offset where
  | utc
  | minutes (east : Int)
deriving DecidableEq, Repr

/-- Any of the four kinds of date and time. -/
structure Datetime where
  date : Option Date
  time : Option TimeOfDay
  offset : Option Offset
deriving DecidableEq, Repr

namespace Datetime

/-- The value of a run of digits. -/
def digitsValue (digits : List Char) : Nat :=
  digits.foldl (fun value c => value * 10 + (c.toNat - '0'.toNat)) 0

/-- Reads exactly `count` digits. -/
def readDigits (count : Nat) (text : List Char) : Option (Nat × List Char) :=
  let digits := text.take count
  if digits.length == count && digits.all Char.isDigit then
    some (digitsValue digits, text.drop count)
  else none

/-- Reads one given character. -/
def readChar (expected : Char) : List Char → Option (List Char)
  | c :: rest => if c == expected then some rest else none
  | [] => none

/-- The number of days of a month. -/
def daysIn (year month : Nat) : Nat :=
  if month == 2 then
    if year % 4 == 0 && (year % 100 != 0 || year % 400 == 0) then 29 else 28
  else if month == 4 || month == 6 || month == 9 || month == 11 then 30
  else 31

/-- Reads a date. -/
def readDate (text : List Char) : Option (Date × List Char) := do
  let (year, rest) ← readDigits 4 text
  let (month, rest) ← readDigits 2 (← readChar '-' rest)
  let (day, rest) ← readDigits 2 (← readChar '-' rest)
  if 1 ≤ month && month ≤ 12 && 1 ≤ day && day ≤ daysIn year month then
    return (⟨year, month, day⟩, rest)
  else none

/-- The nanoseconds that the digits of a fraction of a second stand for; digits behind the ninth
are dropped. -/
def nanosecondsOf (fraction : List Char) : Nat :=
  digitsValue ((fraction ++ List.replicate 9 '0').take 9)

/-- Reads the seconds and nanoseconds behind the minutes; both are zero when they are not
written. -/
def readSeconds (text : List Char) : Option (Nat × Nat × List Char) :=
  match text with
  | ':' :: rest => do
    let (second, rest) ← readDigits 2 rest
    if second > 60 then none
    else
      match rest with
      | '.' :: rest =>
        let fraction := rest.takeWhile Char.isDigit
        if fraction.isEmpty then none
        else return (second, nanosecondsOf fraction, rest.dropWhile Char.isDigit)
      | _ => return (second, 0, rest)
  | _ => some (0, 0, text)

/-- Reads a time of day. -/
def readTime (text : List Char) : Option (TimeOfDay × List Char) := do
  let (hour, rest) ← readDigits 2 text
  let (minute, rest) ← readDigits 2 (← readChar ':' rest)
  if hour > 23 || minute > 59 then none
  else
    let (second, nanosecond, rest) ← readSeconds rest
    return (⟨hour, minute, second, nanosecond⟩, rest)

/-- Reads an offset, if there is one. -/
def readOffset (text : List Char) : Option (Option Offset × List Char) :=
  match text with
  | [] => some (none, [])
  | c :: rest =>
    if c == 'Z' || c == 'z' then some (some .utc, rest)
    else if c == '+' || c == '-' then do
      let (hours, rest) ← readDigits 2 rest
      let (minutes, rest) ← readDigits 2 (← readChar ':' rest)
      if hours > 23 || minutes > 59 then none
      else
        let east : Int := hours * 60 + minutes
        return (some (.minutes (if c == '-' then -east else east)), rest)
    else some (none, text)

/-- The date and time that a text is the written form of. -/
def parse? (text : List Char) : Option Datetime :=
  match readDate text with
  | some (date, []) => some ⟨some date, none, none⟩
  | some (date, c :: rest) =>
    if c == 'T' || c == 't' || c == ' ' then do
      let (time, rest) ← readTime rest
      let (offset, rest) ← readOffset rest
      if rest.isEmpty then return ⟨some date, some time, offset⟩ else none
    else none
  | none => do
    let (time, rest) ← readTime text
    if rest.isEmpty then return ⟨none, some time, none⟩ else none

/-- A number with leading zeros. -/
def padded (width value : Nat) : String :=
  let digits := Nat.toDigits 10 value
  String.ofList (List.replicate (width - digits.length) '0' ++ digits)

/-- The text of a fraction of a second: nothing when it is zero, else without the zeros at its
end. -/
def fractionText (nanosecond : Nat) : String :=
  if nanosecond == 0 then ""
  else
    let digits := (padded 9 nanosecond).toList
    "." ++ String.ofList (digits.reverse.dropWhile (· == '0')).reverse

/-- The text of a time of day. -/
def timeText (time : TimeOfDay) : String :=
  padded 2 time.hour ++ ":" ++ padded 2 time.minute ++ ":" ++ padded 2 time.second ++
    fractionText time.nanosecond

/-- The text of an offset. -/
def offsetText : Offset → String
  | .utc => "Z"
  | .minutes east =>
    (if east < 0 then "-" else "+") ++ padded 2 (east.natAbs / 60) ++ ":" ++
      padded 2 (east.natAbs % 60)

/-- The text of a date and time. -/
def text (datetime : Datetime) : String :=
  let date := datetime.date.map fun date =>
    padded 4 date.year ++ "-" ++ padded 2 date.month ++ "-" ++ padded 2 date.day
  let time := datetime.time.map timeText
  let between := if date.isSome && time.isSome then "T" else ""
  date.getD "" ++ between ++ time.getD "" ++ (datetime.offset.map offsetText).getD ""

end Datetime

end DeployConfig.Toml
