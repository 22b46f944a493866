import MeteredSandbox.Machine.Basic

/-!
# Runs of the machine

A run checks and pushes the arguments, calls the function, and takes turns until no frame is open. A
turn charges the price of the next instruction and carries it out.

Guests may loop for ever, so a run is given a bound on its turns. Reaching it is a way to stop of
its own (`Stop.turnLimit`), apart from every trap.

However a run ends, short of a panic, the frames that are still open are closed and the operand
stack is cut back to the height that it had. A panic leaves everything as it is, for whoever
recovers from it.
-/

namespace MeteredSandbox

namespace Machine

variable {σ : Type}

open Exec

/-- The next instruction. The position of its frame moves past it. -/
def fetch (s : Setting σ) : Exec σ Instr := do
  let f ← frame
  match s.program.body? f.func with
  | none => trap (.malformed .frameWithoutBody)
  | some body =>
    match body.code[f.position]? with
    | none => trap (.malformed .pastTheEnd)
    | some instr =>
      modifyFrame fun f => { f with position := f.position + 1 }
      return instr

/-- One turn: the next instruction is paid for and carried out. -/
def turn (s : Setting σ) : Exec σ Unit := do
  let instr ← fetch s
  onAccount (s.checkpoint.charge (s.pricing.cost instr))
  step s instr

/-- Takes turns, at most `limit`, until no frame is open. -/
def takeTurns (s : Setting σ) (limit : Nat) : Exec σ Unit := do
  if (← get).frames.isEmpty then return ()
  match limit with
  | 0 => throw .turnLimit
  | limit + 1 =>
    turn s
    takeTurns s limit

/-- Takes the result of the call off the operand stack. -/
def takeResult (s : Setting σ) (type : FuncType) : Exec σ (Option Value) := do
  match type.results.head? with
  | none => return none
  | some expected =>
    let v ← pop s.floor
    if v.type = expected then return some v
    else trap (.typeConflict .invocationResult)

/-- Calls `func` with `args` and runs until it returns. -/
def run (s : Setting σ) (limit func : Nat) (args : List Value) : Exec σ (Option Value) := do
  match s.program.funcType? func with
  | none => trap (.malformed .functionOutOfRange)
  | some type =>
    if args.map Value.type = type.params then
      modify fun m => { m with operands := m.operands.pushAll args }
      call s func
      takeTurns s limit
      takeResult s type
    else trap (.typeConflict .invocationArguments)

/-- Closes the frames that are still open. -/
def unwind (s : Setting σ) (m : Machine σ) : Machine σ :=
  { m with
    frames := .empty
    account := m.frames.items.foldl (fun a _ => s.checkpoint.leaveFrame a) m.account
    operands := m.operands.truncate s.floor }

end Machine

/-- What is left of a run. -/
structure Invocation (σ : Type) where
  outcome : Except Stop (Option Value)
  store : Store
  operands : OperandStack
  account : σ

namespace Machine

variable {σ : Type}

/-- A run on a store, an operand stack and an account, with what is left of it. -/
def invoke (s : Setting σ) (limit func : Nat) (args : List Value) (store : Store)
    (operands : OperandStack) (account : σ) : Invocation σ :=
  let initial : Machine σ := { store, operands, frames := .empty, liveLocals := 0, account }
  match run s limit func args initial with
  | .ok result m =>
    let m := unwind s m
    { outcome := .ok result, store := m.store, operands := m.operands, account := m.account }
  | .error (.panic p) m =>
    { outcome := .error (.panic p), store := m.store, operands := m.operands, account := m.account }
  | .error stop m =>
    let m := unwind s m
    { outcome := .error stop, store := m.store, operands := m.operands, account := m.account }

end Machine

end MeteredSandbox
