/-!
# The shortest decimal of a binary float

The digits of a float are the fewest that read back to it, and among those the nearest to it; of two
that are equally near, the larger. They are found by exact arithmetic: a finite float is
`m * 2 ^ q`, the reals that round to it form an interval (ends included when `m` is even), and the
decimal grids `10 ^ e` are tried from coarse to fine. The first grid with a point in the interval
has one next to the float, so only two neighbours are tested on each.

The text is positional, never with an exponent, and a whole number has no fraction.
-/

namespace MeteredSandbox.Decimal

/-- An interchange format: the widths of its fraction and exponent fields. -/
structure BinaryFormat where
  fractionBits : Nat
  exponentBits : Nat

/-- The 32-bit format. -/
def binary32 : BinaryFormat := ⟨23, 8⟩

/-- The 64-bit format. -/
def binary64 : BinaryFormat := ⟨52, 11⟩

namespace BinaryFormat

/-- The sign bit of `bits`. -/
def isNegative (f : BinaryFormat) (bits : Nat) : Bool :=
  bits / Nat.pow 2 (f.fractionBits + f.exponentBits) % 2 = 1

/-- The exponent field of `bits`. -/
def exponentField (f : BinaryFormat) (bits : Nat) : Nat :=
  bits / Nat.pow 2 f.fractionBits % Nat.pow 2 f.exponentBits

/-- The fraction field of `bits`. -/
def fractionField (f : BinaryFormat) (bits : Nat) : Nat :=
  bits % Nat.pow 2 f.fractionBits

/-- Whether `bits` is an infinity or not a number. -/
def isSpecial (f : BinaryFormat) (bits : Nat) : Bool :=
  f.exponentField bits = Nat.pow 2 f.exponentBits - 1

/-- Whether `bits` is not a number. -/
def isNaN (f : BinaryFormat) (bits : Nat) : Bool :=
  f.isSpecial bits && f.fractionField bits ≠ 0

/-- The significand `m` of a finite `m * 2 ^ q`. -/
def significand (f : BinaryFormat) (bits : Nat) : Nat :=
  if f.exponentField bits = 0 then f.fractionField bits
  else Nat.pow 2 f.fractionBits + f.fractionField bits

/-- The exponent `q` of a finite `m * 2 ^ q`. -/
def exponent (f : BinaryFormat) (bits : Nat) : Int :=
  (max 1 (f.exponentField bits) : Nat) - (Nat.pow 2 (f.exponentBits - 1) - 1 + f.fractionBits : Nat)

/-- Whether the next float towards zero is half as far away as the next one from it: the
significand is the least of its binade, and there is a finer binade below. -/
def isBinadeEdge (f : BinaryFormat) (bits : Nat) : Bool :=
  f.fractionField bits = 0 && 1 < f.exponentField bits

end BinaryFormat

/-- A positive number and the interval of reals that round to it, over one denominator. -/
structure Rounding where
  low : Nat
  value : Nat
  high : Nat
  denominator : Nat
  closed : Bool

namespace Rounding

/-- The rounding interval of the finite, non-zero float `bits`: half a step to either side, a
quarter below a binade's edge. -/
def ofBits (f : BinaryFormat) (bits : Nat) : Rounding :=
  let m := f.significand bits
  -- in quarters of a step, so that all three numbers are whole
  let q := f.exponent bits - 2
  let scale := Nat.pow 2 q.toNat
  { low := (4 * m - if f.isBinadeEdge bits then 1 else 2) * scale
    value := 4 * m * scale
    high := (4 * m + 2) * scale
    denominator := Nat.pow 2 (-q).toNat
    closed := m % 2 = 0 }

/-- Whether `n` lies in the interval, with `n` over the denominator. -/
def contains (r : Rounding) (n : Nat) : Bool :=
  if r.closed then r.low ≤ n && n ≤ r.high else r.low < n && n < r.high

/-- The same number and interval, measured in units of `10 ^ e`. -/
def inUnits (r : Rounding) (e : Int) : Rounding :=
  let scale := Nat.pow 10 (-e).toNat
  { r with
    low := r.low * scale
    value := r.value * scale
    high := r.high * scale
    denominator := r.denominator * Nat.pow 10 e.toNat }

/-- The whole number in the interval that is nearest to the value, the larger of two. -/
def nearestWhole? (r : Rounding) : Option Nat :=
  -- if any whole number is in the interval, one of the neighbours of the value is
  let below := r.value / r.denominator
  let above := below + 1
  match r.contains (below * r.denominator), r.contains (above * r.denominator) with
  | true, true =>
    some (if 2 * (r.value - below * r.denominator) < r.denominator then below else above)
  | true, false => some below
  | false, true => some above
  | false, false => none

/-- The first grid at or below `10 ^ e`, among `steps` of them and the one after, that has a point
in the interval, with that point. -/
def coarsest (r : Rounding) : (steps : Nat) → (e : Int) → Nat × Int
  | 0, e => ((r.inUnits e).value / (r.inUnits e).denominator, e)
  | steps + 1, e =>
    match (r.inUnits e).nearestWhole? with
    | some digits => (digits, e)
    | none => r.coarsest steps (e - 1)

/-- The digits and the decimal exponent of the shortest decimal. The search starts above the value
and ends at the latest on a grid that holds the value itself. -/
def shortest (r : Rounding) : Nat × Int :=
  let start := (Nat.toDigits 10 (r.value / r.denominator)).length
  r.coarsest (start + Nat.log2 r.denominator) start

end Rounding

/-- The number `digits * 10 ^ e`, written positionally. -/
def positional (digits : Nat) (e : Int) : List Char :=
  let text := Nat.toDigits 10 digits
  let places := (-e).toNat
  if 0 ≤ e then text ++ List.replicate e.toNat '0'
  else if places < text.length then
    text.take (text.length - places) ++ '.' :: text.drop (text.length - places)
  else '0' :: '.' :: List.replicate (places - text.length) '0' ++ text

/-- The text of the float `bits`. -/
def text (f : BinaryFormat) (bits : Nat) : String :=
  if f.isNaN bits then "NaN"
  else
    let sign := if f.isNegative bits then ['-'] else []
    let magnitude :=
      if f.isSpecial bits then ['i', 'n', 'f']
      else if f.significand bits = 0 then ['0']
      else
        let (digits, e) := (Rounding.ofBits f bits).shortest
        positional digits e
    String.ofList (sign ++ magnitude)

end MeteredSandbox.Decimal
