import MeteredSandbox.Code.Opcode
import MeteredSandbox.Machine.Stack
import MeteredSandbox.Machine.Trap

/-!
# The operand stack

Host and guest share one stack of values. An action on it (`Operands`) may trap, and says what the
stack is afterwards in both cases. Every way to take a value names a **floor**, a height below which
it does not reach; a value of the wrong type is taken before the trap is raised.
-/

namespace MeteredSandbox

/-- The stack of values that host and guest share. -/
abbrev OperandStack := Stack Value

/-- An action on the operand stack that may trap. -/
abbrev Operands := EStateM Trap OperandStack

/-- The value of an integer type with the given bits. -/
def Value.int : (w : Width) → BitVec w.bits → Value
  | .w32, bits => .i32 bits
  | .w64, bits => .i64 bits

/-- The value of a float type with the given bits. -/
def Value.float : (w : Width) → BitVec w.bits → Value
  | .w32, bits => .f32 bits
  | .w64, bits => .f64 bits

/-- The bits of a value of an integer type. -/
def Value.int? : (w : Width) → Value → Option (BitVec w.bits)
  | .w32, .i32 bits => some bits
  | .w64, .i64 bits => some bits
  | _, _ => none

/-- The bits of a value of a float type. -/
def Value.float? : (w : Width) → Value → Option (BitVec w.bits)
  | .w32, .f32 bits => some bits
  | .w64, .f64 bits => some bits
  | _, _ => none

@[simp] theorem Value.int?_int (w : Width) (bits : BitVec w.bits) :
    (Value.int w bits).int? w = some bits := by
  cases w <;> rfl

@[simp] theorem Value.float?_float (w : Width) (bits : BitVec w.bits) :
    (Value.float w bits).float? w = some bits := by
  cases w <;> rfl

namespace Operands

/-- Puts a value on the stack. -/
@[inline] def push (v : Value) : Operands Unit := fun s => .ok () (s.push v)

/-- Takes the top value, which must lie above the floor. -/
@[inline] def pop (floor : Nat) : Operands Value := fun s =>
  if s.height ≤ floor then .error (.malformed .stackUnderflow) s
  else
    match s.pop? with
    | none => .error (.malformed .stackUnderflow) s
    | some (v, s') => .ok v s'

/-- Takes an integer. -/
def popInt (w : Width) (floor : Nat) : Operands (BitVec w.bits) := do
  let v ← pop floor
  match v.int? w with
  | some bits => return bits
  | none => throw (.typeConflict (.operand w.int))

/-- Takes a float. -/
def popFloat (w : Width) (floor : Nat) : Operands (BitVec w.bits) := do
  let v ← pop floor
  match v.float? w with
  | some bits => return bits
  | none => throw (.typeConflict (.operand w.float))

/-- Takes values of the given types, the last from the top. They are all there and of the right
type, or none is taken. -/
def popArgs (types : List ValType) (floor : Nat) : Operands (List Value) := fun s =>
  if s.height < floor + types.length then .error (.malformed .stackUnderflow) s
  else
    let args := (s.items.take types.length).reverse
    if args.map Value.type = types then .ok args (s.truncate (s.height - types.length))
    else .error (.typeConflict .callArguments) s

end Operands

end MeteredSandbox
