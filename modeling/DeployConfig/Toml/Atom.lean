import DeployConfig.Text.Blank
import DeployConfig.Toml.Quoted
import DeployConfig.Toml.Value

/-!
# Numbers, booleans, dates and times in TOML

Values that are not quoted are written as one word, which goes on over blanks for as long as no
quotation follows them (`cutWord`): a date and its time may stand apart. Digits may be separated by
single underscores, a decimal number has no needless zero in front, and whole numbers may also be
written in base sixteen, eight and two, without a sign.

Three kinds of words have the outline of a number and stand for none: decimal numbers that are too
large for a double, a base without digits, and digits that go on with groups which begin and end as
digits of base sixteen do (`hasWholeOutline`). They are misfits.
-/

set_option autoImplicit false

namespace DeployConfig.Toml

/-- The digits of a word in which single underscores stand between digits only. -/
def digits? (isDigit : Char → Bool) : List Char → Option (List Char)
  | [] => none
  | [c] => if isDigit c then some [c] else none
  | c :: '_' :: rest => if isDigit c then (digits? isDigit rest).map (c :: ·) else none
  | c :: rest => if isDigit c then (digits? isDigit rest).map (c :: ·) else none

/-- The value of a digit in any base up to sixteen. -/
def digitValue (c : Char) : Nat :=
  if c.isDigit then c.toNat - '0'.toNat
  else if 'a' ≤ c then c.toNat - 'a'.toNat + 10
  else c.toNat - 'A'.toNat + 10

/-- The value of digits in a base. -/
def valueIn (base : Nat) (digits : List Char) : Nat :=
  digits.foldl (fun value c => value * base + digitValue c) 0

/-- Whether a character is a digit of base sixteen. -/
def isHex (c : Char) : Bool :=
  c.isDigit || ('a' ≤ c && c ≤ 'f') || ('A' ≤ c && c ≤ 'F')

/-- Takes the sign off a word. -/
def cutSign : List Char → Bool × List Char
  | '-' :: rest => (true, rest)
  | '+' :: rest => (false, rest)
  | word => (false, word)

/-- The digits of a decimal number before the point: a zero in front stands alone. -/
def wholeDigits? (word : List Char) : Option (List Char) :=
  match digits? Char.isDigit word with
  | some ('0' :: _ :: _) => none
  | digits => digits

/-- Whether an unsigned word has the outline of a whole number in decimal digits: it begins with
digits, goes on with an underscore, and each of the groups between its underscores begins and ends
as a digit of base sixteen, but for the end of the last one. Nothing in it hints at a point, an
exponent or a date with its time apart. -/
def hasWholeOutline (word : List Char) : Bool :=
  let rest := word.dropWhile Char.isDigit
  let groups := Text.splitAll (· == '_') word
  word.head?.any (fun c => c.isDigit && c != '0') && rest.head? == some '_' &&
    rest.all (fun c => c != '.' && c != 'e' && c != 'E' && c != ' ') &&
    groups.tail.all (fun group => group.head?.any isHex) &&
    groups.dropLast.all (fun group => group.getLast?.any isHex)

/-- The whole number that the digits of a base are the written form of; without any digits it is a
misfit. -/
def basedInteger? (base : Nat) (isDigit : Char → Bool) (word : List Char) : Option Value :=
  if word.isEmpty then some .misfit
  else (digits? isDigit word).map fun digits => .integer (valueIn base digits)

/-- The whole number that a word is the written form of. -/
def integer? (word : List Char) : Option Value :=
  match word with
  | '0' :: 'x' :: rest => basedInteger? 16 isHex rest
  | '0' :: 'o' :: rest => basedInteger? 8 (fun c => '0' ≤ c && c ≤ '7') rest
  | '0' :: 'b' :: rest => basedInteger? 2 (fun c => c == '0' || c == '1') rest
  | _ =>
    let (negative, word) := cutSign word
    match wholeDigits? word with
    | some digits =>
      let value : Int := valueIn 10 digits
      some (.integer (if negative then -value else value))
    | none => if hasWholeOutline word then some .misfit else none

/-- The double nearest to `digits * 10 ^ exponent`, unless it is too large. -/
def nearestDouble? (digits : Nat) (exponent : Int) : Option Float :=
  let size : Int := (Nat.toDigits 10 digits).length + exponent
  if digits == 0 || size < -400 then some 0
  else if size > 400 then none
  else
    let value := Float.ofScientific digits (exponent < 0) exponent.natAbs
    if value.isInf then none else some value

/-- The number with a point or an exponent that a word is the written form of. -/
def float? (word : List Char) : Option Value := do
  let (negative, word) := cutSign word
  let signed := fun (value : Float) => Value.float (if negative then -value else value)
  if word == ['i', 'n', 'f'] then return signed (1.0 / 0.0)
  else if word == ['n', 'a', 'n'] then return signed (0.0 / 0.0)
  else
    let isPart := fun (c : Char) => c.isDigit || c == '_'
    let whole ← wholeDigits? (word.takeWhile isPart)
    let (fraction, rest) ←
      match word.dropWhile isPart with
      | '.' :: rest =>
        (digits? Char.isDigit (rest.takeWhile isPart)).map fun digits =>
          (digits, rest.dropWhile isPart)
      | rest => some ([], rest)
    let exponent ←
      match rest with
      | [] => if fraction.isEmpty then none else some 0
      | e :: rest =>
        if e == 'e' || e == 'E' then
          let (negative, rest) := cutSign rest
          (digits? Char.isDigit rest).map fun digits =>
            let value : Int := valueIn 10 digits
            if negative then -value else value
        else none
    match nearestDouble? (valueIn 10 (whole ++ fraction)) (exponent - fraction.length) with
    | some value => return signed value
    | none => return .misfit

/-- The value that a word is the written form of. -/
def atom? (word : List Char) : Option Value :=
  if word == ['t', 'r', 'u', 'e'] then some (.boolean true)
  else if word == ['f', 'a', 'l', 's', 'e'] then some (.boolean false)
  else
    integer? word <|> float? word <|> (Datetime.parse? word).map .datetime

/-- The characters of unquoted values: all but those that stand between values and begin
comments. -/
def isAtomChar (c : Char) : Bool :=
  ['=', ',', '[', ']', '{', '}', ' ', '\t', '#', '\r', '\n'].all (c != ·)

/-- Cuts off the word at the front of a text, and the blanks that follow it. Blanks in front of a
quotation end the word. -/
def cutWord : List Char → List Char × List Char
  | [] => ([], [])
  | c :: rest =>
    let endsHere :=
      if isBlank c then rest.head?.any fun next => next == '"' || next == '\'' else !isAtomChar c
    if endsHere then ([], c :: rest)
    else
      let (word, more) := cutWord rest
      (c :: word, more)

/-- Reads an unquoted value. -/
def readAtom (text : List Char) : Option (Value × List Char) :=
  let (word, rest) := cutWord text
  (atom? (Text.dropWhileEnd isBlank word)).map fun value => (value, rest)

end DeployConfig.Toml
