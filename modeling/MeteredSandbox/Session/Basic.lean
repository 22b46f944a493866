import MeteredSandbox.Session.Registry

/-!
# Sessions

A session is one embedder's view of a registry that it may share with others. It owns the handles
that it has linked, and an operand stack on top of which its guests run. It works only with handles
that it owns, and when it has unlinked them all it may be halted.

An operation is an action on a `Desk`: a session with the registry. It fails with a `SessionError`,
which is a mistake of the embedder; a fault of a guest is no failure but an outcome.
-/

namespace MeteredSandbox

/-- How far a session has come. -/
inductive Phase where
  /-- Nothing was ever linked. -/
  | idle
  /-- A handle that is owned lacks a budget. -/
  | linked
  /-- All handles that are owned have both budgets. -/
  | configured
  /-- A guest is running. -/
  | invoking
  /-- Everything that was linked has been unlinked. -/
  | unlinked
  | halted
  deriving DecidableEq

/-- The name of a phase. -/
def Phase.name : Phase → String
  | idle => "Idle"
  | linked => "Linked"
  | configured => "Configured"
  | invoking => "Invoking"
  | unlinked => "Unlinked"
  | halted => "Halted"

/-- What a session may be asked to do. -/
inductive Operation where
  | link
  | unlink
  | setInk
  | inkLeft
  | inkStatus
  | setDepth
  | depthLeft
  | callEntry
  | runStart
  | halt
  | pushOperand
  | popOperand
  deriving DecidableEq

/-- The name of an operation in messages. -/
def Operation.name : Operation → String
  | link => "link"
  | unlink => "unlink"
  | setInk => "set_ink"
  | inkLeft => "ink_left"
  | inkStatus => "ink_status"
  | setDepth => "set_stack"
  | depthLeft => "stack_left"
  | callEntry => "call_entry"
  | runStart => "run_start"
  | halt => "halt"
  | pushOperand => "push_operand"
  | popOperand => "pop_operand"

/-- A mistake of the embedder. -/
inductive SessionError where
  | link (failure : LinkFailure)
  | notLinked (handle : Handle)
  | unknownSelector (handle : Handle) (selector : Int)
  | unconfigured (handle : Handle)
  | notAllowed (operation : Operation) (phase : Phase)
  | stillLinked (count : Nat)
  deriving DecidableEq

/-- The message of a mistake. -/
def SessionError.message : SessionError → String
  | link failure => failure.message
  | notLinked handle => s!"handle {handle.text} is not linked"
  | unknownSelector handle selector =>
    s!"handle {handle.text} has no entry point for selector {selector}"
  | unconfigured handle =>
    s!"handle {handle.text} needs both ink and stack budgets set before it can be called"
  | notAllowed operation phase =>
    s!"{operation.name} is not allowed while the session is {phase.name}"
  | stillLinked count => s!"cannot halt with {count} module(s) still linked"

/-- A session. -/
structure Session where
  /-- The handles that it owns, in the order in which they were linked. -/
  owned : List Handle := []
  operands : OperandStack := .empty
  phase : Phase := .idle
  /-- Whether anything was ever linked. -/
  everLinked : Bool := false

/-- A session with the registry that it works on. -/
structure Desk where
  registry : Registry
  session : Session

/-- An operation of a session. -/
abbrev SessionM := EStateM SessionError Desk

namespace Registry

/-- Whether a handle stands for a program with both budgets set. -/
def isConfigured (r : Registry) (h : Handle) : Bool :=
  match r.get? h with
  | some p => p.meters.configured
  | none => false

end Registry

namespace Desk

/-- The phase that a session has come to, unless it is halted or a guest is running. -/
def settledPhase (d : Desk) : Phase :=
  if d.session.owned = [] then
    if d.session.everLinked then .unlinked else .idle
  else if d.session.owned.all d.registry.isConfigured then .configured
  else .linked

/-- Puts the session into a phase. -/
def setPhase (phase : Phase) (d : Desk) : Desk := { d with session := { d.session with phase } }

/-- Puts the session into the phase that it has come to. -/
def settle (d : Desk) : Desk := d.setPhase d.settledPhase

/-- Puts operands in the place of those of the session. -/
def setOperands (operands : OperandStack) (d : Desk) : Desk :=
  { d with session := { d.session with operands } }

/-- Changes what a handle stands for. -/
def update (h : Handle) (p : LinkedProgram) (d : Desk) : Desk :=
  { d with registry := d.registry.update h p }

end Desk

namespace Session

/-- Nothing is allowed once a session is halted. -/
def requireOpen (operation : Operation) : SessionM Unit := do
  let phase := (← get).session.phase
  if phase = .halted then throw (.notAllowed operation phase)

/-- Only handles that the session owns are worked with. -/
def requireOwned (h : Handle) : SessionM Unit := do
  if h ∉ (← get).session.owned then throw (.notLinked h)

/-- What a handle stands for. -/
def lookup (h : Handle) : SessionM LinkedProgram := do
  match (← get).registry.get? h with
  | some p => return p
  | none => throw (.notLinked h)

/-- What a handle stands for, for an operation on a handle that the session owns. -/
def require (operation : Operation) (h : Handle) : SessionM LinkedProgram := do
  requireOpen operation
  requireOwned h
  lookup h

/-- Links a program. The session owns the new handle. -/
def link (digest : Digest) : SessionM Handle := do
  requireOpen .link
  let d ← get
  match Registry.link digest d.registry with
  | .error e _ => throw (.link e)
  | .ok h registry =>
    set <| Desk.settle {
      registry
      session := { d.session with owned := d.session.owned ++ [h], everLinked := true } }
    return h

/-- Unlinks a program. -/
def unlink (h : Handle) : SessionM Unit := do
  discard (require .unlink h)
  modify fun d => Desk.settle {
    registry := d.registry.erase h
    session := { d.session with owned := d.session.owned.filter (· ≠ h) } }

/-- Sets the ink budget of a linked program. -/
def setInk (h : Handle) (budget : Int) : SessionM Unit := do
  let p ← require .setInk h
  modify fun d =>
    (d.update h { p with meters := { p.meters with ink := p.meters.ink.set budget } }).settle

/-- The ink that a linked program may still spend. -/
def inkLeft (h : Handle) : SessionM Int := do
  return (← require .inkLeft h).meters.ink.remaining

/-- Whether a linked program has run out of ink. -/
def inkStatus (h : Handle) : SessionM InkStatus := do
  return (← require .inkStatus h).meters.ink.status

/-- Sets the depth budget of a linked program. -/
def setDepth (h : Handle) (limit : Nat) : SessionM Unit := do
  let p ← require .setDepth h
  modify fun d =>
    (d.update h { p with meters := { p.meters with depth := p.meters.depth.set limit } }).settle

/-- The number of frames that a linked program may still open. -/
def depthLeft (h : Handle) : SessionM Nat := do
  return (← require .depthLeft h).meters.depth.remaining

/-- Puts a session into the phase of a running guest for the length of a call. -/
def whileInvoking (call : SessionM Outcome) : SessionM Outcome := fun d =>
  match call (d.setPhase .invoking) with
  | .ok outcome d => .ok outcome d.settle
  | .error e d => .error e d.settle

/-- Calls a function of a linked program, which must have both budgets, in at most `limit` turns. -/
def callFunction (limit : Nat) (h : Handle) (p : LinkedProgram) (func : Nat) :
    SessionM Outcome := do
  unless p.meters.configured do throw (.unconfigured h)
  let d ← get
  let (outcome, operands, p) := p.call d.registry.pricing limit func d.session.operands
  set ((d.update h p).setOperands operands)
  return outcome

/-- Calls an entry point of a linked program by its selector. -/
def callEntry (limit : Nat) (h : Handle) (selector : Int) : SessionM Outcome := do
  requireOpen .callEntry
  requireOwned h
  whileInvoking do
    let p ← lookup h
    match p.entry.entry? selector with
    | none => throw (.unknownSelector h selector)
    | some func => callFunction limit h p func

/-- Calls the start function of a linked program, if it has one. -/
def runStart (limit : Nat) (h : Handle) : SessionM Outcome := do
  requireOpen .runStart
  requireOwned h
  whileInvoking do
    let p ← lookup h
    match p.entry.start with
    | none => return .success none
    | some func => callFunction limit h p func

/-- Ends a session that has unlinked everything. -/
def halt : SessionM Unit := do
  requireOpen .halt
  let s := (← get).session
  match s.phase with
  | .unlinked => modify fun d => (d.setPhase .halted).setOperands .empty
  | .linked | .configured => throw (.stillLinked s.owned.length)
  | phase => throw (.notAllowed .halt phase)

/-- Puts a value on the operand stack. -/
def pushOperand (v : Value) : SessionM Unit := do
  requireOpen .pushOperand
  modify fun d => d.setOperands (d.session.operands.push v)

/-- Takes a value off the operand stack, if there is one. -/
def popOperand : SessionM (Option Value) := do
  requireOpen .popOperand
  match (← get).session.operands.pop? with
  | none => return none
  | some (v, operands) =>
    modify (Desk.setOperands operands)
    return some v

end Session

end MeteredSandbox
