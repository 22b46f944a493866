import MeteredSandbox.Toml.Text

/-!
# TOML numbers and dates

Integers of 64 bits in four bases, floating-point numbers, and dates and times. The digits of a
number may be set apart by single underscores.

Of a floating-point number only its form matters, and that a positive one is finite; of a date, only
that there is such a day.
-/

namespace MeteredSandbox.Toml

/-- Reads digits, with single underscores between them. -/
def digits (isDigit : Char → Bool) : Scan (List Char) := do
  let first ← Scan.char isDigit
  let rest ← Scan.many (Scan.char isDigit <|> (Scan.literal ['_'] *> Scan.char isDigit))
  return first :: rest

/-- Reads a sign, if there is one. -/
def isNegative : Scan Bool :=
  (Scan.literal ['-'] *> pure true) <|> (Scan.literal ['+'] *> pure false) <|> pure false

/-- Reads the digits before the point: a zero, or digits that do not start with one. -/
def wholeDigits : Scan (List Char) := do
  match ← Scan.optional (Scan.char (· = '0')) with
  | some zero => return [zero]
  | none => digits Char.isDigit

/-- Reads an integer in another base, which has a mark and no sign. -/
def markedInteger (mark : Char) (base : Nat) (isDigit : Char → Bool) : Scan Int := do
  Scan.literal ['0', mark]
  let ds ← digits isDigit
  return digitsValue base ds

/-- Reads an integer in base ten. -/
def decimalInteger : Scan Int := do
  let negative ← isNegative
  let n := digitsValue 10 (← wholeDigits)
  return if negative then -n else n

/-- Reads an integer of 64 bits. -/
def integer : Scan Int := do
  let n ← markedInteger 'x' 16 isHexDigit
    <|> markedInteger 'o' 8 (fun c => '0' ≤ c && c ≤ '7')
    <|> markedInteger 'b' 2 (fun c => c = '0' || c = '1')
    <|> decimalInteger
  guard (-0x8000_0000_0000_0000 ≤ n ∧ n < 0x8000_0000_0000_0000)
  return n

/-- Whether the number with the given digits, times ten to the power `exponent`, rounds to a finite
number of 64 bits. Only numbers with about 300 digits before the point are worth computing. -/
def isFinite (ds : List Char) (exponent : Int) : Bool :=
  let n := digitsValue 10 ds
  let places := (ds.dropWhile (· = '0')).length + exponent
  if n = 0 ∨ places ≤ 300 then true
  else if 310 < places then false
  else n * Nat.pow 10 exponent.toNat
    < (Nat.pow 2 1024 - Nat.pow 2 970) * Nat.pow 10 (-exponent).toNat

/-- Reads the digits after the point, with the point. -/
def fraction : Scan (List Char) := Scan.literal ['.'] *> digits Char.isDigit

/-- Reads a power of ten. -/
def exponent : Scan Int := do
  discard (Scan.char fun c => c = 'e' || c = 'E')
  let negative ← isNegative
  let n := digitsValue 10 (← digits Char.isDigit)
  return if negative then -n else n

/-- Reads a floating-point number in digits. A positive one must be finite. -/
def digitalFloat : Scan Unit := do
  let negative ← isNegative
  let whole ← wholeDigits
  let (places, power) ← (do
      let places ← fraction
      let power ← Scan.optional exponent
      return (places, power.getD 0)) <|> (do
      let power ← exponent
      return ([], power))
  guard (negative || isFinite (whole ++ places) (power - places.length))

/-- Reads a floating-point number. -/
def float : Scan Unit :=
  digitalFloat <|> (do
    discard isNegative
    Scan.literal ['i', 'n', 'f'] <|> Scan.literal ['n', 'a', 'n'])

/-- Reads a number of exactly `count` digits in a range. -/
def bounded (count low high : Nat) : Scan Nat := do
  let n := digitsValue 10 (← exactly count Char.isDigit)
  guard (low ≤ n ∧ n ≤ high)
  return n

/-- Whether a year has a 29th of February. -/
def isLeapYear (year : Nat) : Bool :=
  year % 4 = 0 && (year % 100 ≠ 0 || year % 400 = 0)

/-- The number of days of a month. -/
def daysInMonth (year month : Nat) : Nat :=
  if month = 2 then (if isLeapYear year then 29 else 28)
  else if month = 4 ∨ month = 6 ∨ month = 9 ∨ month = 11 then 30
  else 31

/-- Reads a day of the calendar. -/
def day : Scan Unit := do
  let year ← bounded 4 0 9999
  Scan.literal ['-']
  let month ← bounded 2 1 12
  Scan.literal ['-']
  discard (bounded 2 1 (daysInMonth year month))

/-- Reads a time of day. The second may be a leap second. -/
def time : Scan Unit := do
  discard (bounded 2 0 23)
  Scan.literal [':']
  discard (bounded 2 0 59)
  Scan.literal [':']
  discard (bounded 2 0 60)
  discard (Scan.optional (Scan.literal ['.'] *> Scan.run1 Char.isDigit))

/-- Reads the distance of a time from universal time. -/
def offset : Scan Unit :=
  discard (Scan.char fun c => c = 'Z' || c = 'z') <|> (do
    discard (Scan.char fun c => c = '+' || c = '-')
    discard (bounded 2 0 23)
    Scan.literal [':']
    discard (bounded 2 0 59))

/-- Reads a day, a day with a time, or a time. -/
def date : Scan Unit :=
  (do
    day
    discard <| Scan.optional do
      discard (Scan.char fun c => c = 'T' || c = 't' || c = ' ')
      time
      discard (Scan.optional offset)) <|> time

end MeteredSandbox.Toml
