import MeteredSandbox.Bytes.LittleEndian
import MeteredSandbox.Code.Opcode
import MeteredSandbox.Machine.Memory

/-!
# Loads and stores

A load reads a little-endian number and extends it to the width of its result; a store writes the
low bytes of its operand.
-/

namespace MeteredSandbox

/-- The value of a load that has read the number `n`. -/
def LoadOp.result (op : LoadOp) (n : Nat) : Value :=
  .ofBits op.type <|
    if op.isSigned then ((BitVec.ofNat (8 * op.byteCount) n).signExtend op.type.width).toNat else n

/-- The value at an address. -/
def Memory.load (m : Memory) (op : LoadOp) (address : Nat) : Except Trap Value := do
  let bs ← m.read address op.byteCount
  return op.result (LittleEndian.toNat bs)

/-- Stores a value. One of the wrong type traps before the address is looked at. -/
def Memory.store (op : StoreOp) (address : Nat) (v : Value) : EStateM Trap Memory Unit :=
  if v.type = op.type then write address (LittleEndian.ofNat op.byteCount v.bits)
  else throw (.typeConflict .storeOperand)

end MeteredSandbox
