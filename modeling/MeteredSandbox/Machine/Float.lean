import MeteredSandbox.Code.Opcode
import MeteredSandbox.Machine.Trap

/-!
# Float arithmetic

Floats travel as bits. Operations that only move or change the sign work on the bits, so that they
keep every NaN as it is; the others go through `Float32` and `Float`, whose arithmetic is that of
the interchange formats with rounding to nearest, ties to even.
-/

namespace MeteredSandbox

/-- A float type with bits of its own. -/
class BinaryFloat (F : Type) (n : outParam Nat) where
  ofBits : BitVec n → F
  toBits : F → BitVec n
  add : F → F → F
  sub : F → F → F
  mul : F → F → F
  div : F → F → F
  /-- Equality of numbers: a NaN differs from itself, and the two zeros are equal. -/
  equal : F → F → Bool
  less : F → F → Bool
  lessEqual : F → F → Bool
  ceil : F → F
  floor : F → F
  sqrt : F → F
  /-- From this magnitude on every float is a whole number. -/
  wholeFrom : F

instance : BinaryFloat Float32 32 where
  ofBits b := Float32.ofBits (UInt32.ofBitVec b)
  toBits x := x.toBits.toBitVec
  add := Float32.add
  sub := Float32.sub
  mul := Float32.mul
  div := Float32.div
  equal := Float32.beq
  less a b := decide (a < b)
  lessEqual a b := decide (a ≤ b)
  ceil := Float32.ceil
  floor := Float32.floor
  sqrt := Float32.sqrt
  wholeFrom := 8388608.0

instance : BinaryFloat Float 64 where
  ofBits b := Float.ofBits (UInt64.ofBitVec b)
  toBits x := x.toBits.toBitVec
  add := Float.add
  sub := Float.sub
  mul := Float.mul
  div := Float.div
  equal := Float.beq
  less a b := decide (a < b)
  lessEqual a b := decide (a ≤ b)
  ceil := Float.ceil
  floor := Float.floor
  sqrt := Float.sqrt
  wholeFrom := 4503599627370496.0

namespace FloatBits

variable {n : Nat}

/-- The sign bit alone. -/
def signBit (n : Nat) : BitVec n := BitVec.intMin n

/-- The bits without their sign. -/
def abs (a : BitVec n) : BitVec n := a &&& ~~~signBit n

/-- The bits with the other sign. -/
def neg (a : BitVec n) : BitVec n := a ^^^ signBit n

/-- The bits of `a` with the sign of `b`. -/
def copySign (a b : BitVec n) : BitVec n := abs a ||| (b &&& signBit n)

end FloatBits

namespace BinaryFloat

variable {F : Type} {n : Nat} [BinaryFloat F n]

/-- Whether a float is not a number. -/
def isNaN (a : F) : Bool := !equal a a

/-- The whole number next to `a` on the side of zero. -/
def truncate (a : F) : F :=
  if less a (ofBits 0) then ceil a else floor a

/-- The whole number nearest to `a`, ties to the even one. Adding `wholeFrom` to a smaller magnitude
rounds it to a whole number, and taking it off again is exact. -/
def nearest (bits : BitVec n) : BitVec n :=
  let magnitude : F := ofBits (FloatBits.abs bits)
  if less magnitude wholeFrom then
    FloatBits.copySign (toBits (sub (add magnitude wholeFrom) wholeFrom)) bits
  else bits

/-- The lesser of two floats, NaN if one is. Of two zeros the one with a sign. -/
def min (a b : BitVec n) : BitVec n :=
  let x : F := ofBits a
  let y : F := ofBits b
  if isNaN x || isNaN y then toBits (add x y)
  else if equal x y then a ||| b
  else if less x y then a else b

/-- The greater of two floats, NaN if one is. Of two zeros the one without a sign. -/
def max (a b : BitVec n) : BitVec n :=
  let x : F := ofBits a
  let y : F := ofBits b
  if isNaN x || isNaN y then toBits (add x y)
  else if equal x y then a &&& b
  else if less x y then b else a

/-- Whether two floats stand in a relation. -/
def holds (F : Type) [BinaryFloat F n] (a b : BitVec n) (r : FloatRelation) : Bool :=
  let x : F := ofBits a
  let y : F := ofBits b
  match r with
  | .eq => equal x y
  | .ne => !equal x y
  | .lt => less x y
  | .gt => less y x
  | .le => lessEqual x y
  | .ge => lessEqual y x

/-- A function of one float. -/
def unary (F : Type) [BinaryFloat F n] (a : BitVec n) : FloatUnary → BitVec n
  | .abs => FloatBits.abs a
  | .neg => FloatBits.neg a
  | .ceil => toBits (ceil (ofBits a : F))
  | .floor => toBits (floor (ofBits a : F))
  | .trunc => toBits (truncate (ofBits a : F))
  | .nearest => nearest (F := F) a
  | .sqrt => toBits (sqrt (ofBits a : F))

/-- Float arithmetic. -/
def arith (F : Type) [BinaryFloat F n] (a b : BitVec n) : FloatArith → BitVec n
  | .add => toBits (add (ofBits a : F) (ofBits b))
  | .sub => toBits (sub (ofBits a : F) (ofBits b))
  | .mul => toBits (mul (ofBits a : F) (ofBits b))
  | .div => toBits (div (ofBits a : F) (ofBits b))
  | .min => min (F := F) a b
  | .max => max (F := F) a b
  | .copySign => FloatBits.copySign a b

end BinaryFloat

/-- Whether two floats of a width stand in a relation. -/
def FloatRelation.holds : (w : Width) → (a b : BitVec w.bits) → FloatRelation → Bool
  | .w32, a, b, r => BinaryFloat.holds Float32 a b r
  | .w64, a, b, r => BinaryFloat.holds Float a b r

/-- A function of one float of a width. -/
def FloatUnary.apply : (w : Width) → (a : BitVec w.bits) → FloatUnary → BitVec w.bits
  | .w32, a, op => BinaryFloat.unary Float32 a op
  | .w64, a, op => BinaryFloat.unary Float a op

/-- Arithmetic on floats of a width. -/
def FloatArith.apply : (w : Width) → (a b : BitVec w.bits) → FloatArith → BitVec w.bits
  | .w32, a, b, op => BinaryFloat.arith Float32 a b op
  | .w64, a, b, op => BinaryFloat.arith Float a b op

/-! ### Conversions -/

namespace Conversion

/-- A float of either width in 64 bits. -/
def widen : (w : Width) → BitVec w.bits → Float
  | .w32, bits => (Float32.ofBits (UInt32.ofBitVec bits)).toFloat
  | .w64, bits => Float.ofBits (UInt64.ofBitVec bits)

/-- The least float that an integer type holds. -/
def least : Width → (signed : Bool) → Float
  | .w32, true => -2147483648.0
  | .w64, true => -9223372036854775808.0
  | _, false => 0.0

/-- The least float above those that an integer type holds. -/
def firstAbove : Width → (signed : Bool) → Float
  | .w32, true => 2147483648.0
  | .w32, false => 4294967296.0
  | .w64, true => 9223372036854775808.0
  | .w64, false => 18446744073709551616.0

/-- The integer part of a float, which must be a number that the integer type holds. -/
def toInteger (target : Width) (signed : Bool) (x : Float) : Except Trap (BitVec target.bits) :=
  let whole := BinaryFloat.truncate x
  if least target signed ≤ whole ∧ whole < firstAbove target signed then
    let bits := if signed then whole.toInt64.toBitVec else whole.toUInt64.toBitVec
    .ok (bits.setWidth target.bits)
  else .error .integerOverflow

/-- The bits of the float nearest to an integer, given in 64 bits. -/
def ofInteger (signed : Bool) (bits : BitVec 64) : (target : Width) → BitVec target.bits
  | .w32 =>
    let x := if signed then (Int64.ofBitVec bits).toFloat32 else (UInt64.ofBitVec bits).toFloat32
    x.toBits.toBitVec
  | .w64 =>
    let x := if signed then (Int64.ofBitVec bits).toFloat else (UInt64.ofBitVec bits).toFloat
    x.toBits.toBitVec

/-- An integer of either width in 64 bits. -/
def extendTo64 (signed : Bool) {n : Nat} (bits : BitVec n) : BitVec 64 :=
  if signed then bits.signExtend 64 else bits.setWidth 64

/-- The 32-bit float nearest to a 64-bit one. -/
def demoted (bits : BitVec 64) : BitVec 32 :=
  (Float.ofBits (UInt64.ofBitVec bits)).toFloat32.toBits.toBitVec

/-- A 32-bit float in 64 bits. -/
def promoted (bits : BitVec 32) : BitVec 64 :=
  (Float32.ofBits (UInt32.ofBitVec bits)).toFloat.toBits.toBitVec

end Conversion

end MeteredSandbox
