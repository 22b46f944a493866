import MeteredSandbox.Code.Opcode
import MeteredSandbox.Machine.Trap

/-!
# Integer arithmetic

Integers are bit vectors and the operations are the same at either width. Arithmetic wraps; a
division by zero traps, and so does the one quotient that does not fit. Shifts and rotations take
their count modulo the width.
-/

namespace MeteredSandbox

variable {n : Nat}

/-- Whether two integers stand in a relation. -/
def IntRelation.holds (a b : BitVec n) : IntRelation → Bool
  | eq => a == b
  | ne => a != b
  | ltSigned => a.slt b
  | ltUnsigned => a.ult b
  | gtSigned => b.slt a
  | gtUnsigned => b.ult a
  | leSigned => a.sle b
  | leUnsigned => a.ule b
  | geSigned => b.sle a
  | geUnsigned => b.ule a

/-- A count of bits. -/
def IntCount.apply (a : BitVec n) : IntCount → BitVec n
  | leadingZeros => a.clz
  | trailingZeros => a.ctz
  | ones => a.cpop

/-- The result of an operation, or a trap. -/
def IntArith.apply (a b : BitVec n) : IntArith → Except Trap (BitVec n)
  | add => .ok (a + b)
  | sub => .ok (a - b)
  | mul => .ok (a * b)
  | divSigned =>
    if b = 0 then .error .divideByZero
    else if a = BitVec.intMin n ∧ b = -1 then .error .integerOverflow
    else .ok (a.sdiv b)
  | divUnsigned => if b = 0 then .error .divideByZero else .ok (a.udiv b)
  | remSigned => if b = 0 then .error .divideByZero else .ok (a.srem b)
  | remUnsigned => if b = 0 then .error .divideByZero else .ok (a.umod b)
  | and => .ok (a &&& b)
  | or => .ok (a ||| b)
  | xor => .ok (a ^^^ b)
  | shiftLeft => .ok (a <<< (b.toNat % n))
  | shiftRightSigned => .ok (a.sshiftRight (b.toNat % n))
  | shiftRightUnsigned => .ok (a >>> (b.toNat % n))
  | rotateLeft => .ok (a.rotateLeft (b.toNat % n))
  | rotateRight => .ok (a.rotateRight (b.toNat % n))

end MeteredSandbox
