import MeteredSandbox.Machine.Access
import MeteredSandbox.Machine.Cell
import MeteredSandbox.Machine.Checkpoint
import MeteredSandbox.Machine.Numeric
import MeteredSandbox.Machine.Pricing
import MeteredSandbox.Machine.Table
import MeteredSandbox.Program

/-!
# The machine

The machine runs the flat code of a program. Its frames live on a stack of their own, so that guest
recursion is data, and all frames share one operand stack: a frame starts at the height that the
stack has when its arguments have been taken, its **base**, and nothing below that is ever touched.

`Machine.step` carries out one instruction. Instructions are not trusted to be well typed: each one
checks what it takes, and traps.
-/

namespace MeteredSandbox

/-- A host function: what it makes of its arguments. -/
inductive HostReply where
  | value (result : Option Value)
  | trap (trap : Trap)
  | panic (panic : Panic)

/-- A host function that a guest may call. -/
abbrev HostFunc := List Value → HostReply

/-- What belongs to one instance and may change: memory, table and globals. -/
structure Store where
  memory : Option Memory
  table : Option Table
  globals : Array GlobalCell

/-- A construct that is being executed. -/
structure Label where
  /-- How many values a branch to the construct carries. -/
  arity : Nat
  /-- The height of the operand stack when the construct was entered. -/
  height : Nat
  /-- The position where a branch to the construct goes on. -/
  target : Nat
  deriving DecidableEq

/-- A function that is being executed. -/
structure Frame where
  func : Nat
  /-- The position of the next instruction. -/
  position : Nat
  locals : Array Value
  /-- The constructs that are being executed, innermost first. -/
  labels : List Label
  base : Nat
  result : Option ValType

/-- The most frames that may be open at once, whatever the checkpoint says. -/
def maxFrames : Nat := 100000

/-- The most locals, parameters included, that all open frames may hold together. -/
def maxLiveLocals : Nat := 0x10_0000

/-- The state of a run. -/
structure Machine (σ : Type) where
  store : Store
  operands : OperandStack
  frames : Stack Frame
  /-- How many locals the open frames hold. -/
  liveLocals : Nat
  /-- The state of the checkpoint. -/
  account : σ

/-- What a run is given and does not change. -/
structure Setting (σ : Type) where
  program : Program
  /-- The imported functions. -/
  host : Array HostFunc
  pricing : Pricing
  checkpoint : Checkpoint σ
  /-- The height of the operand stack when the run began. -/
  floor : Nat

/-- An action of the machine, which may stop the run. -/
abbrev Exec (σ : Type) := EStateM Stop (Machine σ)

namespace Exec

variable {σ α : Type}

/-- Stops the run with a trap. -/
@[inline] def trap (t : Trap) : Exec σ α := throw (.trap t)

/-- An action on the operand stack. -/
@[inline] def onOperands (action : Operands α) : Exec σ α := fun m =>
  match action m.operands with
  | .ok a operands => .ok a { m with operands }
  | .error t operands => .error (.trap t) { m with operands }

/-- A question to the checkpoint. -/
@[inline] def onAccount (question : EStateM Trap σ α) : Exec σ α := fun m =>
  match question m.account with
  | .ok a account => .ok a { m with account }
  | .error t account => .error (.trap t) { m with account }

/-- Puts a value on the operand stack. -/
@[inline] def push (v : Value) : Exec σ Unit := onOperands (Operands.push v)

/-- Puts a value on the operand stack, if there is one. -/
@[inline] def pushOption (v : Option Value) : Exec σ Unit :=
  match v with
  | some v => push v
  | none => pure ()

/-- Takes the top value above a floor. -/
@[inline] def pop (floor : Nat) : Exec σ Value := onOperands (Operands.pop floor)

/-- Takes a 32-bit integer above a floor. -/
@[inline] def popI32 (floor : Nat) : Exec σ (BitVec 32) := onOperands (Operands.popInt .w32 floor)

/-- Cuts the operand stack back to a height. -/
@[inline] def truncate (height : Nat) : Exec σ Unit :=
  modify fun m => { m with operands := m.operands.truncate height }

/-- The current frame. -/
@[inline] def frame : Exec σ Frame := fun m =>
  match m.frames.top? with
  | some f => .ok f m
  | none => .error (.trap (.malformed .noFrame)) m

/-- Changes the current frame. -/
@[inline] def modifyFrame (f : Frame → Frame) : Exec σ Unit := fun m =>
  match m with
  | ⟨store, operands, frames, liveLocals, account⟩ =>
    if frames.isEmpty then
      .error (.trap (.malformed .noFrame)) ⟨store, operands, frames, liveLocals, account⟩
    else .ok () ⟨store, operands, frames.modifyTop f, liveLocals, account⟩

/-- Goes on at another position of the current function. -/
@[inline] def jump (position : Nat) : Exec σ Unit := modifyFrame fun f => { f with position }

/-- Enters a construct: a branch to it carries `arity` values and goes on at `target`. -/
@[inline] def pushLabel (arity target : Nat) : Exec σ Unit := do
  let height := (← get).operands.height
  modifyFrame fun f => { f with labels := { arity, height, target } :: f.labels }

/-- Reads the memory. -/
@[inline] def readMemory (read : Memory → Except Trap α) : Exec σ α := fun m =>
  match m.store.memory with
  | none => .error (.trap (.malformed .noMemory)) m
  | some memory =>
    match read memory with
    | .ok a => .ok a m
    | .error t => .error (.trap t) m

/-- An action on the memory. -/
@[inline] def onMemory (action : EStateM Trap Memory α) : Exec σ α := fun m =>
  match m with
  | ⟨⟨none, table, globals⟩, operands, frames, liveLocals, account⟩ =>
    .error (.trap (.malformed .noMemory))
      ⟨⟨none, table, globals⟩, operands, frames, liveLocals, account⟩
  | ⟨⟨some memory, table, globals⟩, operands, frames, liveLocals, account⟩ =>
    match action memory with
    | .ok a memory =>
      .ok a ⟨⟨some memory, table, globals⟩, operands, frames, liveLocals, account⟩
    | .error t memory =>
      .error (.trap t) ⟨⟨some memory, table, globals⟩, operands, frames, liveLocals, account⟩

end Exec

namespace Machine

variable {σ : Type}

/-- The floor of the current frame, or that of the run when no frame is open. -/
def floor (s : Setting σ) (m : Machine σ) : Nat :=
  match m.frames.top? with
  | some f => f.base
  | none => s.floor

open Exec

/-- Closes the current frame. Its result, if it has one, is all that stays of its part of the
operand stack. -/
def returnFromFrame (s : Setting σ) : Exec σ Unit := do
  let m ← get
  match m.frames.pop? with
  | none => trap (.malformed .returnWithoutFrame)
  | some (f, frames) =>
    -- the frame is closed whether or not it has the result that it should have
    set { m with
      frames
      account := s.checkpoint.leaveFrame m.account
      liveLocals := m.liveLocals - f.locals.size }
    match f.result with
    | none => truncate f.base
    | some expected =>
      let v ← pop f.base
      if v.type = expected then
        truncate f.base
        push v
      else trap (.typeConflict .functionResult)

/-- Leaves `depth` constructs and goes to the next one out, or returns when there is none. -/
def branch (s : Setting σ) (depth : Nat) : Exec σ Unit := do
  let m ← get
  match m.frames.top? with
  | none => trap (.malformed .branchWithoutFrame)
  | some f =>
    if depth = f.labels.length then returnFromFrame s
    else
      match f.labels.drop depth with
      | [] => trap (.malformed .branchDepth)
      | label :: outer =>
        -- a construct has one result at most
        if label.arity = 0 then truncate label.height
        else
          let v ← pop label.height
          truncate label.height
          push v
        modifyFrame fun f => { f with labels := outer, position := label.target }

/-- Calls an imported function. -/
def callHost (s : Setting σ) (func : Nat) (type : FuncType) : Exec σ Unit := do
  match s.host[func]? with
  | none => trap (.malformed .unresolvedHost)
  | some host =>
    let floor := Machine.floor s (← get)
    let args ← onOperands (Operands.popArgs type.params floor)
    match host args with
    | .trap t => trap t
    | .panic p => throw (.panic p)
    | .value result =>
      if result.map Value.type = type.results.head? then pushOption result
      else trap (.typeConflict .hostResult)

/-- Opens a frame for a function of the program's own. Declared locals are paid for first. -/
def callGuest (s : Setting σ) (func : Nat) (type : FuncType) (body : FuncBody) : Exec σ Unit := do
  let floor := Machine.floor s (← get)
  let args ← onOperands (Operands.popArgs type.params floor)
  let size := args.length + body.locals.size
  let m ← get
  -- what goes over a cap is not paid for
  if maxFrames ≤ m.frames.height ∨ maxLiveLocals < m.liveLocals + size then trap .stackExhausted
  else
    if body.locals.size ≠ 0 then
      onAccount (s.checkpoint.charge (s.pricing.localsCost body.locals.size))
    onAccount s.checkpoint.enterFrame
    modify fun m =>
      { m with
        liveLocals := m.liveLocals + size
        frames := m.frames.push {
          func
          position := 0
          locals := args.toArray ++ body.locals.map ValType.zero
          labels := []
          base := m.operands.height
          result := type.results.head? } }

/-- Calls a function. -/
def call (s : Setting σ) (func : Nat) : Exec σ Unit :=
  match s.program.funcType? func with
  | none => trap (.malformed .callTargetOutOfRange)
  | some type =>
    if func < s.program.imported then callHost s func type
    else
      match s.program.body? func with
      | none => trap (.malformed .callTargetWithoutBody)
      | some body => callGuest s func type body

/-- Calls the function in a slot of the table, which must have the given signature. -/
def callIndirect (s : Setting σ) (type slot : Nat) : Exec σ Unit := do
  match (← get).store.table with
  | none => trap (.undefinedElement slot)
  | some table =>
    match table.get slot with
    | .error t => trap t
    | .ok func =>
      let expected := s.program.source.types[type]?
      if expected.isSome ∧ expected = s.program.funcType? func then call s func
      else trap .indirectCallType

/-- Sets a local of the current frame to a value of its type. -/
def setLocal (index : Nat) (v : Value) : Exec σ Unit := do
  let f ← frame
  match f.locals[index]? with
  | none => trap (.malformed .localOutOfRange)
  | some old =>
    if old.type = v.type then
      modifyFrame fun f => { f with locals := f.locals.setIfInBounds index v }
    else trap (.typeConflict .localOperand)

/-- Sets a global. -/
def setGlobal (index : Nat) (v : Value) : Exec σ Unit := do
  let m ← get
  match m.store.globals[index]? with
  | none => trap (.malformed .globalOutOfRange)
  | some cell =>
    match cell.set v with
    | .error t => trap t
    | .ok cell =>
      set { m with
        store := { m.store with globals := m.store.globals.setIfInBounds index cell } }

/-- The address of an access: an unsigned operand and the offset of the instruction. -/
def popAddress (floor offset : Nat) : Exec σ Nat := do
  let a ← popI32 floor
  return a.toNat + offset

/-- Carries out an instruction without structure. -/
def stepOp (s : Setting σ) (floor : Nat) : Op → Exec σ Unit
  | .unreachable => trap .unreachable
  | .illegal opcode => trap (.illegalOpcode opcode)
  | .nop => pure ()
  | .br depth => branch s depth
  | .brIf depth => do
    let condition ← popI32 floor
    if condition ≠ 0 then branch s depth
  | .brTable depths default => do
    let i ← popI32 floor
    branch s (depths[i.toNat]?.getD default)
  | .ret => returnFromFrame s
  | .call func => call s func
  | .callIndirect type => do
    let slot ← popI32 floor
    callIndirect s type slot.toNat
  | .drop => do
    let _ ← pop floor
  | .select => do
    let condition ← popI32 floor
    let b ← pop floor
    let a ← pop floor
    if a.type = b.type then push (if condition ≠ 0 then a else b)
    else trap (.typeConflict .selectOperands)
  | .localGet i => do
    match (← frame).locals[i]? with
    | some v => push v
    | none => trap (.malformed .localOutOfRange)
  | .localSet i => do
    let v ← pop floor
    setLocal i v
  | .localTee i => do
    let v ← pop floor
    setLocal i v
    push v
  | .globalGet i => do
    match (← get).store.globals[i]? with
    | some cell => push cell.value
    | none => trap (.malformed .globalOutOfRange)
  | .globalSet i => do
    let v ← pop floor
    setGlobal i v
  | .load op offset => do
    let address ← popAddress floor offset
    let v ← readMemory fun memory => memory.load op address
    push v
  | .store op offset => do
    let v ← pop floor
    let address ← popAddress floor offset
    onMemory (Memory.store op address v)
  | .memorySize => do
    let pages ← readMemory fun memory => .ok memory.pages
    push (.i32 (.ofNat 32 pages))
  | .memoryGrow => do
    let delta ← popI32 floor
    let previous ← onMemory (Memory.grow delta.toNat)
    push (.i32 ((previous.map (BitVec.ofNat 32)).getD (-1)))
  | .const v => push v
  | .numeric op => onOperands (op.execute floor)

/-- Carries out an instruction of the current frame, whose position is already past it. -/
def step (s : Setting σ) (instr : Instr) : Exec σ Unit := do
  let floor := Machine.floor s (← get)
  match instr with
  | .op o => stepOp s floor o
  | .block arity endAt => pushLabel arity (endAt + 1)
  -- a branch to a loop carries nothing and comes back to this instruction
  | .loop => pushLabel 0 ((← frame).position - 1)
  | .ifThen arity elseAt endAt =>
    let condition ← popI32 floor
    if condition ≠ 0 then pushLabel arity (endAt + 1)
    else
      match elseAt with
      | some elseAt =>
        pushLabel arity (endAt + 1)
        jump (elseAt + 1)
      | none => jump (endAt + 1)
  | .elseJump endAt => jump endAt
  | .endMark =>
    match (← frame).labels with
    | [] => returnFromFrame s
    | _ :: outer => modifyFrame fun f => { f with labels := outer }

end Machine

end MeteredSandbox
