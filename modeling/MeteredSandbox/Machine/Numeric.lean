import MeteredSandbox.Machine.Float
import MeteredSandbox.Machine.Integer
import MeteredSandbox.Machine.Operands

/-!
# Numeric instructions

Each takes its operands above the floor, the second first, and puts back one result.
-/

namespace MeteredSandbox

namespace Operands

/-- Puts a truth value on the stack, as zero or one. -/
def pushBool (b : Bool) : Operands Unit := push (.i32 (if b then 1 else 0))

end Operands

open Operands

/-- Carries out a conversion. -/
def Conversion.execute (floor : Nat) : Conversion → Operands Unit
  | wrap => do
    let a ← popInt .w64 floor
    push (.i32 (a.setWidth 32))
  | truncate target source signed => do
    let a ← popFloat source floor
    match Conversion.toInteger target signed (Conversion.widen source a) with
    | .ok bits => push (.int target bits)
    | .error t => throw t
  | extend signed => do
    let a ← popInt .w32 floor
    push (.i64 (Conversion.extendTo64 signed a))
  | convert target source signed => do
    let a ← popInt source floor
    push (.float target (Conversion.ofInteger signed (Conversion.extendTo64 signed a) target))
  | demote => do
    let a ← popFloat .w64 floor
    push (.f32 (Conversion.demoted a))
  | promote => do
    let a ← popFloat .w32 floor
    push (.f64 (Conversion.promoted a))
  | floatBits w => do
    let a ← popFloat w floor
    push (.int w a)
  | ofBits w => do
    let a ← popInt w floor
    push (.float w a)

/-- Carries out a numeric instruction. -/
def NumericOp.execute (floor : Nat) : NumericOp → Operands Unit
  | intIsZero w => do
    let a ← popInt w floor
    pushBool (a == 0)
  | intCompare w r => do
    let b ← popInt w floor
    let a ← popInt w floor
    pushBool (r.holds a b)
  | floatCompare w r => do
    let b ← popFloat w floor
    let a ← popFloat w floor
    pushBool (r.holds w a b)
  | intCount w c => do
    let a ← popInt w floor
    push (.int w (c.apply a))
  | intArith w op => do
    let b ← popInt w floor
    let a ← popInt w floor
    match op.apply a b with
    | .ok bits => push (.int w bits)
    | .error t => throw t
  | floatUnary w op => do
    let a ← popFloat w floor
    push (.float w (op.apply w a))
  | floatArith w op => do
    let b ← popFloat w floor
    let a ← popFloat w floor
    push (.float w (op.apply w a b))
  | conversion c => c.execute floor

end MeteredSandbox
