import MeteredSandbox.Machine.Operands
import MeteredSandbox.Machine.Trap

/-!
# Outcomes of guarded calls

Whatever a guest does, the embedder gets an outcome: the guest's result, or the kind of fault that
ended the call. A panic of a host function counts as a fault too.

`guarded` is the boundary. It cuts the operand stack back to the height that it had before the call,
whatever the call left there.
-/

namespace MeteredSandbox

/-- What an embedder learns about a failed call. -/
inductive GuestFault where
  | abort (code : BitVec 32)
  | illegalInstruction
  | outOfBounds
  | inkExhausted
  | stackExhausted
  | arithmetic
  | badIndirectCall
  | panicked (panic : Panic)
  deriving DecidableEq

namespace GuestFault

/-- The message of a fault. -/
def message : GuestFault → String
  | abort code => s!"guest aborted with code {code.toInt}"
  | illegalInstruction => "illegal instruction"
  | outOfBounds => "out of bounds memory access"
  | inkExhausted => "ink exhausted"
  | stackExhausted => "call stack exhausted"
  | arithmetic => "arithmetic fault"
  | badIndirectCall => "bad indirect call"
  | panicked panic => "engine panicked: " ++ panic.text

/-- The fault that a trap amounts to. -/
def ofTrap : Trap → GuestFault
  | .abort code => abort code
  | .unreachable => illegalInstruction
  | .illegalOpcode _ => illegalInstruction
  | .typeConflict _ => illegalInstruction
  | .malformed _ => illegalInstruction
  | .memoryOutOfBounds .. => outOfBounds
  | .inkExhausted => inkExhausted
  | .stackExhausted => stackExhausted
  | .divideByZero => arithmetic
  | .integerOverflow => arithmetic
  | .undefinedElement _ => badIndirectCall
  | .indirectCallType => badIndirectCall

end GuestFault

/-- How a guarded call ended. -/
inductive Outcome where
  | success (result : Option Value)
  | failure (fault : GuestFault)
  /-- The bound on the number of turns was reached. -/
  | unfinished
  deriving DecidableEq

namespace Outcome

/-- The outcome of a call that returned or stopped. -/
def ofResult : Except Stop (Option Value) → Outcome
  | .ok result => success result
  | .error (.trap t) => failure (.ofTrap t)
  | .error (.panic p) => failure (.panicked p)
  | .error .turnLimit => unfinished

/-- Whether the call returned. -/
def isSuccess : Outcome → Bool
  | success _ => true
  | _ => false

/-- Whether the call ended in a fault. -/
def isFailure : Outcome → Bool
  | failure _ => true
  | _ => false

end Outcome

/-- Makes a call on an operand stack. The stack is cut back to its height afterwards; whatever else
the call leaves is handed on. -/
def guarded {α : Type} (operands : OperandStack)
    (call : OperandStack → Except Stop (Option Value) × OperandStack × α) :
    Outcome × OperandStack × α :=
  let (result, after, rest) := call operands
  (.ofResult result, after.truncate operands.height, rest)

end MeteredSandbox
