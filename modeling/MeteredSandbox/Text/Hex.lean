/-!
# Hexadecimal text

Bytes as pairs of lower-case digits. Reading accepts either case and reports the first byte of the
text that is no digit, with its position.
-/

namespace MeteredSandbox.Hex

/-- The lower-case digit of `n`, for `n < 16`. -/
def digit (n : Nat) : Char :=
  if n < 10 then Char.ofNat (48 + n) else Char.ofNat (87 + n)

/-- The two digits of a byte, high half first. -/
def ofByte (b : UInt8) : List Char :=
  [digit (b.toNat / 16), digit (b.toNat % 16)]

/-- The bytes as one run of digits. -/
def encode (bytes : List UInt8) : String :=
  String.ofList (bytes.flatMap ofByte)

/-- The value of the digit whose code is `b`. -/
def digit? (b : UInt8) : Option Nat :=
  if 48 ≤ b ∧ b ≤ 57 then some (b.toNat - 48)
  else if 97 ≤ b ∧ b ≤ 102 then some (b.toNat - 87)
  else if 65 ≤ b ∧ b ≤ 70 then some (b.toNat - 55)
  else none

/-- Why a text is no hexadecimal text: the byte at `position` is no digit, or a digit is alone. -/
inductive Error where
  | invalidDigit (byte : UInt8) (position : Nat)
  | oddLength
  deriving DecidableEq

/-- The bytes spelled by `text`, whose first byte stands at `position`. -/
def decodeFrom (position : Nat) : List UInt8 → Except Error (List UInt8)
  | [] => .ok []
  | [_] => .error .oddLength
  | high :: low :: rest =>
    match digit? high, digit? low with
    | none, _ => .error (.invalidDigit high position)
    | some _, none => .error (.invalidDigit low (position + 1))
    | some h, some l => do
      let bytes ← decodeFrom (position + 2) rest
      return UInt8.ofNat (16 * h + l) :: bytes

/-- The bytes spelled by `text`, a list of character codes. -/
def decode (text : List UInt8) : Except Error (List UInt8) :=
  decodeFrom 0 text

/-- The digits of `n` without leading zeros, `0` for zero. -/
def ofNat (n : Nat) : List Char :=
  Nat.toDigits 16 n

/-- The digits of `n`, padded with zeros on the left to `width` digits. -/
def ofNatPadded (width n : Nat) : List Char :=
  let digits := ofNat n
  List.replicate (width - digits.length) '0' ++ digits

end MeteredSandbox.Hex
