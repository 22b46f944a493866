import MeteredSandbox.Machine.Run
import MeteredSandbox.Proofs.Following

/-!
# Readings of machines

The machine carries things that most of its instructions never look at: what lies at the bottom of
the operand stack, the frames under the current one, the position and the open constructs of the
current frame, and the state of the checkpoint. A **reading** replaces them. It puts a stack beneath
the operands, changes the current frame in everything but its locals, replaces the frames below it,
and maps the account.

An instruction that neither jumps nor calls (`Op.IsPlain`) is followed along every reading by itself
with its floor raised (`Machine.stepOp_follows`). Readings are general enough that this one fact
carries two arguments:

* that a run does not depend on the operands below its floor, where the reading shifts every height;
* that flat and structured control agree on plain instructions, where it places the current frame at
  a position and replaces the frames below.
-/

namespace MeteredSandbox

variable {σ τ α β : Type}

attribute [ext (iff := false)] Machine

/-- A way to read a machine as another one that computes the same. -/
structure Reading (σ τ : Type) where
  /-- What is put beneath the operand stack. -/
  under : OperandStack
  /-- What becomes of the current frame. -/
  top : Frame → Frame
  /-- What becomes of the frames below the current one. -/
  below : List Frame → List Frame
  /-- What becomes of the state of the checkpoint. -/
  account : σ → τ
  /-- The current frame keeps its locals. -/
  top_locals : ∀ f, (top f).locals = f.locals
  /-- Whether a local is set before or after the frame is changed makes no difference. -/
  top_withLocals : ∀ f locals, top { f with locals } = { top f with locals }

namespace Reading

/-- The open frames of the machine that is read, the current one first. -/
def frames (r : Reading σ τ) : List Frame → List Frame
  | [] => []
  | f :: fs => r.top f :: r.below fs

/-- The machine as it is read. -/
def machine (r : Reading σ τ) (m : Machine σ) : Machine τ where
  store := m.store
  operands := r.under.beneath m.operands
  frames := .ofItems (r.frames m.frames.items)
  liveLocals := m.liveLocals
  account := r.account m.account

variable (r : Reading σ τ) (m : Machine σ)

@[simp] theorem machine_store : (r.machine m).store = m.store := rfl

@[simp] theorem machine_operands :
    (r.machine m).operands = r.under.beneath m.operands := rfl

@[simp] theorem machine_items :
    (r.machine m).frames.items = r.frames m.frames.items := rfl

@[simp] theorem machine_liveLocals : (r.machine m).liveLocals = m.liveLocals := rfl

@[simp] theorem machine_account : (r.machine m).account = r.account m.account := rfl

theorem machine_top? : (r.machine m).frames.top? = m.frames.top?.map r.top := by
  change (r.frames m.frames.items).head? = m.frames.items.head?.map r.top
  cases m.frames.items with
  | nil => rfl
  | cons f fs => rfl

theorem machine_isEmpty : (r.machine m).frames.isEmpty = m.frames.isEmpty := by
  change (r.frames m.frames.items).isEmpty = m.frames.items.isEmpty
  cases m.frames.items with
  | nil => rfl
  | cons f fs => rfl

/-- Changing the current frame of the machine that is read. -/
theorem machine_modifyTop {g g' : Frame → Frame} (h : ∀ f, r.top (g f) = g' (r.top f)) :
    { r.machine m with frames := (r.machine m).frames.modifyTop g' }
      = r.machine { m with frames := m.frames.modifyTop g } := by
  have hframes : (r.machine m).frames.modifyTop g'
      = .ofItems (r.frames (m.frames.modifyTop g).items) := by
    apply Stack.ext
    rw [Stack.items_modifyTop, machine_items, Stack.items_ofItems, Stack.items_modifyTop]
    -- the frames below the current one are not touched by either change
    cases m.frames.items with
    | nil => rfl
    | cons f fs =>
      simp only [frames, List.modifyHead_cons]
      rw [h f]
  exact Machine.ext rfl rfl hframes rfl rfl

/-- A reading that leaves bases alone leaves the floor alone. -/
theorem floor_machine {r : Reading σ σ} (h : ∀ f, (r.top f).base = f.base) (s : Setting σ)
    (m : Machine σ) : Machine.floor s (r.machine m) = Machine.floor s m := by
  unfold Machine.floor
  rw [machine_top?]
  cases m.frames.top? with
  | none => rfl
  | some f => exact h f

end Reading

/-! ### The parts of instructions -/

namespace Exec

theorem modifyFrame_apply (g : Frame → Frame) (m : Machine σ) :
    modifyFrame g m =
      if m.frames.isEmpty then .error (.trap (.malformed .noFrame)) m
      else .ok () { m with frames := m.frames.modifyTop g } := rfl

theorem onMemory_apply (action : EStateM Trap Memory α) (m : Machine σ) :
    onMemory action m = match m.store.memory with
      | none => .error (.trap (.malformed .noMemory)) m
      | some memory =>
        match action memory with
        | .ok x memory => .ok x { m with store := { m.store with memory := some memory } }
        | .error t memory =>
          .error (.trap t) { m with store := { m.store with memory := some memory } } := by
  -- the memory of the machine is a field of a field, and has to be in sight to be taken apart
  obtain ⟨⟨memory, table, globals⟩, operands, frames, liveLocals, account⟩ := m
  cases memory with
  | none => rfl
  | some memory => rfl

theorem setGlobal_apply (index : Nat) (v : Value) (m : Machine σ) :
    Machine.setGlobal index v m = match m.store.globals[index]? with
      | none => .error (.trap (.malformed .globalOutOfRange)) m
      | some cell =>
        match cell.set v with
        | .error t => .error (.trap t) m
        | .ok cell => .ok () { m with
            store := { m.store with globals := m.store.globals.setIfInBounds index cell } } := by
  unfold Machine.setGlobal
  rw [get_bind_apply]
  cases m.store.globals[index]? with
  | none => rfl
  | some cell =>
    dsimp only
    cases cell.set v with
    | error t => rfl
    | ok cell => rfl

theorem onOperands_of_ok {action : Operands α} {m : Machine σ} {operands : OperandStack} {x : α}
    (h : action m.operands = .ok x operands) :
    onOperands action m = .ok x { m with operands } := by
  unfold onOperands
  rw [h]

theorem onOperands_of_error {action : Operands α} {m : Machine σ} {operands : OperandStack}
    {t : Trap} (h : action m.operands = .error t operands) :
    onOperands action m = .error (.trap t) { m with operands } := by
  unfold onOperands
  rw [h]

theorem onAccount_of_ok {question : EStateM Trap σ α} {m : Machine σ} {account : σ} {x : α}
    (h : question m.account = .ok x account) :
    onAccount question m = .ok x { m with account } := by
  unfold onAccount
  rw [h]

theorem onAccount_of_error {question : EStateM Trap σ α} {m : Machine σ} {account : σ} {t : Trap}
    (h : question m.account = .error t account) :
    onAccount question m = .error (.trap t) { m with account } := by
  unfold onAccount
  rw [h]

theorem onOperands_eq_ok {action : Operands α} {m m' : Machine σ} {x : α}
    (h : onOperands action m = .ok x m') :
    ∃ operands, action m.operands = .ok x operands ∧ m' = { m with operands } := by
  unfold onOperands at h
  split at h
  next y operands hr =>
    cases h
    exact ⟨operands, hr, rfl⟩
  next => cases h

theorem onAccount_eq_ok {question : EStateM Trap σ α} {m m' : Machine σ} {x : α}
    (h : onAccount question m = .ok x m') :
    ∃ account, question m.account = .ok x account ∧ m' = { m with account } := by
  unfold onAccount at h
  split at h
  next y account hr =>
    cases h
    exact ⟨account, hr, rfl⟩
  next => cases h

/-- Actions on the operands alone, along any map that leaves the operands as they are. -/
theorem onOperands_along {f : Machine σ → Machine τ} (hsame : ∀ m, (f m).operands = m.operands)
    (hset : ∀ m operands, f { m with operands } = { f m with operands }) (action : Operands α) :
    Follows f (onOperands action) (onOperands action) := by
  intro m
  unfold onOperands
  rw [hsame m]
  cases action m.operands with
  | ok x operands => exact congrArg (EStateM.Result.ok x) (hset m operands).symm
  | error t operands =>
    exact congrArg (EStateM.Result.error (Stop.trap t)) (hset m operands).symm

variable (r : Reading σ τ)

theorem onOperands_follows {a b : Operands α} (h : Follows r.under.beneath a b) :
    Follows r.machine (onOperands (σ := σ) a) (onOperands b) := by
  intro m
  unfold onOperands
  rw [Reading.machine_operands, h m.operands]
  cases a m.operands with
  | ok x operands => rfl
  | error t operands => rfl

theorem onAccount_follows {q : EStateM Trap σ α} {q' : EStateM Trap τ α}
    (h : Follows r.account q q') : Follows r.machine (onAccount q) (onAccount q') := by
  intro m
  unfold onAccount
  rw [Reading.machine_account, h m.account]
  cases q m.account with
  | ok x account => rfl
  | error t account => rfl

theorem trap_follows (t : Trap) : Follows r.machine (trap t : Exec σ α) (trap t) := .throw _

theorem push_follows (v : Value) : Follows r.machine (push v) (push v) :=
  onOperands_follows r (Operands.push_follows r.under v)

theorem pushOption_follows (v : Option Value) :
    Follows r.machine (pushOption v) (pushOption v) := by
  cases v with
  | none => exact .pure ()
  | some v => exact push_follows r v

theorem pop_follows (floor : Nat) :
    Follows r.machine (pop floor) (pop (floor + r.under.height)) :=
  onOperands_follows r (Operands.pop_follows r.under floor)

theorem popI32_follows (floor : Nat) :
    Follows r.machine (popI32 floor) (popI32 (floor + r.under.height)) :=
  onOperands_follows r (Operands.popInt_follows r.under .w32 floor)

theorem truncate_follows (height : Nat) :
    Follows r.machine (truncate height) (truncate (height + r.under.height)) := by
  refine .modify fun m => ?_
  rw [Reading.machine_operands, Stack.truncate_beneath]
  rfl

/-- The current frame, and what is done with it. -/
theorem frame_bind_follows {k : Frame → Exec σ β} {l : Frame → Exec τ β}
    (h : ∀ f, Follows r.machine (k f) (l (r.top f))) :
    Follows r.machine (frame >>= k) (frame >>= l) := by
  intro m
  rw [bind_apply, bind_apply]
  unfold frame
  rw [Reading.machine_top?]
  cases m.frames.top? with
  | none => rfl
  | some f => exact h f m

theorem modifyFrame_follows {g g' : Frame → Frame} (h : ∀ f, r.top (g f) = g' (r.top f)) :
    Follows r.machine (modifyFrame g) (modifyFrame g') := by
  intro m
  rw [modifyFrame_apply, modifyFrame_apply, Reading.machine_isEmpty]
  split
  · rfl
  · rw [Reading.machine_modifyTop r m h]
    rfl

theorem readMemory_follows (read : Memory → Except Trap α) :
    Follows r.machine (readMemory (σ := σ) read) (readMemory read) := by
  intro m
  unfold readMemory
  rw [Reading.machine_store]
  split
  · rfl
  · split
    · rfl
    · rfl

theorem onMemory_follows (action : EStateM Trap Memory α) :
    Follows r.machine (onMemory (σ := σ) action) (onMemory action) := by
  intro m
  rw [onMemory_apply, onMemory_apply, Reading.machine_store]
  split
  · rfl
  · split
    · rfl
    · rfl

end Exec

/-! ### Plain instructions -/

/-- An instruction is **plain** if it neither jumps nor calls. -/
def Op.IsPlain : Op → Prop
  | .br _ | .brIf _ | .brTable .. | .ret | .call _ | .callIndirect _ => False
  | _ => True

namespace Machine

open Exec

variable (r : Reading σ τ)

theorem setLocal_follows (index : Nat) (v : Value) :
    Follows r.machine (setLocal index v) (setLocal index v) := by
  refine frame_bind_follows r fun f => ?_
  rw [r.top_locals f]
  cases f.locals[index]? with
  | none => exact trap_follows r _
  | some old =>
    refine .ite (modifyFrame_follows r fun g => ?_) (trap_follows r _)
    rw [r.top_withLocals, r.top_locals]

theorem setGlobal_follows (index : Nat) (v : Value) :
    Follows r.machine (setGlobal (σ := σ) index v) (setGlobal index v) := by
  intro m
  rw [setGlobal_apply, setGlobal_apply, Reading.machine_store]
  split
  · rfl
  · split
    · rfl
    · rfl

theorem popAddress_follows (floor offset : Nat) :
    Follows r.machine (popAddress floor offset) (popAddress (floor + r.under.height) offset) :=
  (popI32_follows r floor).bind fun _ => .pure _

/-- **Plain instructions** do the same on a machine as it is read, with the floor raised by what has
been put beneath the operands. -/
theorem stepOp_follows (s : Setting σ) (s' : Setting τ) (floor : Nat) {o : Op} (h : o.IsPlain) :
    Follows r.machine (stepOp s floor o) (stepOp s' (floor + r.under.height) o) := by
  cases o with
  | br | brIf | brTable | ret | call | callIndirect => exact h.elim
  | unreachable | illegal => exact trap_follows r _
  | nop => exact .pure ()
  -- operands
  | drop => exact (pop_follows r floor).bind fun _ => .pure ()
  | select =>
    refine (popI32_follows r floor).bind fun condition =>
      (pop_follows r floor).bind fun b => (pop_follows r floor).bind fun a => ?_
    exact .ite (push_follows r _) (trap_follows r _)
  -- locals, of which a reading keeps the values
  | localGet i =>
    refine frame_bind_follows r fun f => ?_
    rw [r.top_locals f]
    cases f.locals[i]? with
    | none => exact trap_follows r _
    | some v => exact push_follows r v
  | localSet i => exact (pop_follows r floor).bind fun v => setLocal_follows r i v
  | localTee i =>
    exact (pop_follows r floor).bind fun v =>
      (setLocal_follows r i v).bind fun _ => push_follows r v
  -- globals and memory, which a reading leaves alone
  | globalGet i =>
    refine Follows.get_bind fun m => ?_
    rw [Reading.machine_store]
    cases m.store.globals[i]? with
    | none => exact trap_follows r _
    | some cell => exact push_follows r _
  | globalSet i => exact (pop_follows r floor).bind fun v => setGlobal_follows r i v
  | load op offset =>
    exact (popAddress_follows r floor offset).bind fun _ =>
      (readMemory_follows r _).bind fun v => push_follows r v
  | store op offset =>
    exact (pop_follows r floor).bind fun _ =>
      (popAddress_follows r floor offset).bind fun _ => onMemory_follows r _
  | memorySize => exact (readMemory_follows r _).bind fun _ => push_follows r _
  | memoryGrow =>
    exact (popI32_follows r floor).bind fun _ =>
      (onMemory_follows r _).bind fun _ => push_follows r _
  | const v => exact push_follows r v
  | numeric op => exact onOperands_follows r (op.execute_follows r.under floor)

end Machine

end MeteredSandbox
