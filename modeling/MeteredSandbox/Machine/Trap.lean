import MeteredSandbox.Text.Hex
import MeteredSandbox.Value

/-!
# Traps and other ways to stop

A **trap** is a fault of the guest: it ends the whole call, and the call reports it. A host function
may also panic, which is a fault of the host; and a run may reach the bound on its number of turns
that the caller set, which says nothing about the guest.
-/

namespace MeteredSandbox

/-- Where a value has another type than it must have. -/
inductive TypeConflict where
  | operand (expected : ValType)
  | invocationArguments
  | callArguments
  | hostResult
  | functionResult
  | invocationResult
  | selectOperands
  | localOperand
  | globalOperand
  | storeOperand
  /-- A host function's own words. -/
  | host (words : String)
  deriving DecidableEq

namespace TypeConflict

/-- What a conflict is called in a message. -/
def text : TypeConflict → String
  | operand expected => "expected " ++ expected.tag
  | invocationArguments => "argument types"
  | callArguments => "call arguments"
  | hostResult => "host function result"
  | functionResult => "function result"
  | invocationResult => "result type"
  | selectOperands => "select operands"
  | localOperand => "local.set operand"
  | globalOperand => "global.set operand"
  | storeOperand => "store operand"
  | host words => words

end TypeConflict

/-- In what way code makes no sense to the machine. -/
inductive CodeFlaw where
  | stackUnderflow
  | functionOutOfRange
  | frameWithoutBody
  | pastTheEnd
  | noFrame
  | noMemory
  | callTargetOutOfRange
  | callTargetWithoutBody
  | unresolvedHost
  | returnWithoutFrame
  | branchWithoutFrame
  | branchDepth
  | localOutOfRange
  | globalOutOfRange
  | immutableGlobal
  /-- A host function's own words. -/
  | host (words : String)
  deriving DecidableEq

namespace CodeFlaw

/-- What a flaw is called in a message. -/
def text : CodeFlaw → String
  | stackUnderflow => "operand stack underflow"
  | functionOutOfRange => "function index out of range"
  | frameWithoutBody => "frame without a body"
  | pastTheEnd => "fell off the end of a body"
  | noFrame => "no active frame"
  | noMemory => "module has no memory"
  | callTargetOutOfRange => "call target out of range"
  | callTargetWithoutBody => "call target has no body"
  | unresolvedHost => "unresolved host function"
  | returnWithoutFrame => "return without a frame"
  | branchWithoutFrame => "branch without a frame"
  | branchDepth => "branch depth out of range"
  | localOutOfRange => "local index out of range"
  | globalOutOfRange => "global index out of range"
  | immutableGlobal => "write to immutable global"
  | host words => words

end CodeFlaw

/-- A fault of the guest. -/
inductive Trap where
  | unreachable
  | illegalOpcode (opcode : UInt8)
  | memoryOutOfBounds (address length : Nat)
  | inkExhausted
  | stackExhausted
  /-- The guest asked to be stopped. -/
  | abort (code : BitVec 32)
  | divideByZero
  | integerOverflow
  | undefinedElement (index : Nat)
  | indirectCallType
  | typeConflict (conflict : TypeConflict)
  | malformed (flaw : CodeFlaw)
  deriving DecidableEq

namespace Trap

/-- The message of a trap. -/
def message : Trap → String
  | unreachable => "unreachable executed"
  | illegalOpcode opcode => "illegal opcode 0x" ++ Hex.encode [opcode]
  | memoryOutOfBounds address length =>
    s!"out of bounds memory access at {address} (+{length} bytes)"
  | inkExhausted => "ink exhausted"
  | stackExhausted => "call stack exhausted"
  | abort code => s!"guest aborted with code {code.toInt}"
  | divideByZero => "integer divide by zero"
  | integerOverflow => "integer overflow"
  | undefinedElement index => s!"undefined table element {index}"
  | indirectCallType => "indirect call type mismatch"
  | typeConflict conflict => "operand type mismatch: " ++ conflict.text
  | malformed flaw => "malformed code: " ++ flaw.text

end Trap

/-- What a panicking host function leaves to be reported. -/
inductive Panic where
  | message (text : String)
  /-- Something that is not a text. -/
  | other
  deriving DecidableEq

/-- The text of a panic. -/
def Panic.text : Panic → String
  | message text => text
  | other => "non-string panic payload"

/-- Why a run stops before it returns. -/
inductive Stop where
  | trap (trap : Trap)
  | panic (panic : Panic)
  /-- The bound on the number of turns was reached. -/
  | turnLimit
  deriving DecidableEq

end MeteredSandbox
