import MeteredSandbox.Proofs.Bounding
import MeteredSandbox.Proofs.Protocol
import MeteredSandbox.Proofs.Watching

/-!
# Instances whose memory is capped

How much may a host bound the memory of a program before the program can tell? An instance is
**capped** (`Instance.capped`) if its memory may grow to fewer pages, and if its program is said to
come from another module, with the same signatures. Nothing else is different, so the only
instruction that can tell is the one that lets the memory grow, and that only if it succeeds and
leaves more pages than the cap allows (`Machine.GrowsTo`).

The proof compares two machines, of which the second is the first with its memory capped
(`Machine.cap`). All parts of instructions are followed along this map; for the growing of memory
there is a condition (`Memory.grow_cap`), which a turn inherits for the machine that takes it, and a
run for all machines that take its turns (`Machine.turn_cap`, `Machine.run_cap`). If the condition
holds throughout a sequence of calls, then every call has the same outcome and leaves the same
store, but for the cap (`Instance.perform_capped`), and exchanges the same events with the
checkpoint (`Instance.exchange_capped`).
-/

namespace MeteredSandbox

variable {ε σ τ α β : Type}

/-- Two actions and what comes after them, followed from one state. -/
theorem bind_mapState {f : σ → τ} {a : EStateM ε σ α} {b : EStateM ε τ α} {k : α → EStateM ε σ β}
    {l : α → EStateM ε τ β} {s : σ} (h : b (f s) = mapState f (a s))
    (hk : ∀ x s', a s = .ok x s' → l x (f s') = mapState f (k x s')) :
    (b >>= l) (f s) = mapState f ((a >>= k) s) := by
  rw [bind_apply, bind_apply, h]
  cases hr : a s with
  | ok x s' => exact hk x s' hr
  | error e s' => rfl

/-! ### Memories -/

/-- The memory with a cap on the number of its pages, if there is one. -/
def Memory.cap (bound : Option Nat) (memory : Memory) : Memory :=
  { memory with maxPages := bound.elim memory.maxPages (min memory.maxPages) }

namespace Memory

variable (bound : Option Nat)

theorem cap_none : cap none = id := rfl

@[simp] theorem cap_pages (memory : Memory) : (memory.cap bound).pages = memory.pages := rfl

theorem le_cap_maxPages {memory : Memory} {size : Nat} :
    size ≤ (memory.cap bound).maxPages ↔ size ≤ memory.maxPages ∧ ∀ n ∈ bound, size ≤ n := by
  cases bound with
  | none => exact ⟨fun h => ⟨h, fun n hn => by cases hn⟩, And.left⟩
  | some n =>
    refine Nat.le_min.trans (and_congr_right fun _ => ⟨fun h n' hn' => ?_, fun h => h n rfl⟩)
    cases hn'
    exact h

theorem write_cap (address : Nat) (bytes : List UInt8) :
    Follows (cap bound) (write address bytes) (write address bytes) := by
  intro memory
  unfold write
  change (if address + bytes.length ≤ memory.size then _ else _) = _
  split
  · rfl
  · rfl

theorem store_cap (op : StoreOp) (address : Nat) (v : Value) :
    Follows (cap bound) (store op address v) (store op address v) :=
  .ite (write_cap bound _ _) (.throw _)

/-- **Growing** cannot tell a cap that it does not exceed. -/
theorem grow_cap {memory : Memory} {delta : Nat}
    (h : memory.pages + delta ≤ memory.maxPages → ∀ n ∈ bound, memory.pages + delta ≤ n) :
    grow delta (memory.cap bound) = mapState (cap bound) (grow delta memory) := by
  unfold grow
  rw [cap_pages]
  by_cases hfits : memory.pages + delta ≤ memory.maxPages
  · rw [if_pos hfits, if_pos ((le_cap_maxPages bound).mpr ⟨hfits, h hfits⟩)]
    rfl
  · rw [if_neg hfits, if_neg fun hcap => hfits ((le_cap_maxPages bound).mp hcap).1]
    rfl

end Memory

/-- The store with its memory capped. It has the same bytes, the same table and the same globals. -/
def Store.cap (bound : Option Nat) (store : Store) : Store :=
  { store with memory := store.memory.map (Memory.cap bound) }

namespace Setting

/-- What is run is another program: the same functions, said to come from another module. -/
def withSource (s : Setting σ) (source : Module) : Setting σ :=
  { s with program := { s.program with source } }

variable (s : Setting σ) (source : Module)

@[simp] theorem withSource_source : (s.withSource source).program.source = source := rfl

@[simp] theorem withSource_imported :
    (s.withSource source).program.imported = s.program.imported := rfl

@[simp] theorem withSource_host : (s.withSource source).host = s.host := rfl

@[simp] theorem withSource_funcType? (func : Nat) :
    (s.withSource source).program.funcType? func = s.program.funcType? func := rfl

@[simp] theorem withSource_body? (func : Nat) :
    (s.withSource source).program.body? func = s.program.body? func := rfl

end Setting

namespace Machine

/-- The machine with its memory capped. -/
def cap (bound : Option Nat) (m : Machine σ) : Machine σ :=
  { m with store := m.store.cap bound }

variable (bound : Option Nat) (m : Machine σ)

@[simp] theorem cap_frames : (m.cap bound).frames = m.frames := rfl

@[simp] theorem cap_account : (m.cap bound).account = m.account := rfl

@[simp] theorem cap_memory :
    (m.cap bound).store.memory = m.store.memory.map (Memory.cap bound) := rfl

@[simp] theorem cap_table : (m.cap bound).store.table = m.store.table := rfl

@[simp] theorem cap_globals : (m.cap bound).store.globals = m.store.globals := rfl

end Machine

/-! ### The parts of instructions -/

namespace Exec

variable (bound : Option Nat)

theorem onOperands_cap (action : Operands α) :
    Follows (Machine.cap bound) (onOperands (σ := σ) action) (onOperands action) :=
  onOperands_along (f := Machine.cap bound) (fun _ => rfl) (fun _ _ => rfl) action

theorem push_cap (v : Value) : Follows (Machine.cap bound) (push (σ := σ) v) (push v) :=
  onOperands_cap bound (Operands.push v)

theorem onAccount_cap (question : EStateM Trap σ α) :
    Follows (Machine.cap bound) (onAccount question) (onAccount question) := by
  intro m
  unfold onAccount
  rw [Machine.cap_account]
  cases question m.account with
  | ok x account => rfl
  | error t account => rfl

theorem truncate_cap (height : Nat) :
    Follows (Machine.cap bound) (truncate (σ := σ) height) (truncate height) :=
  .modify fun _ => rfl

theorem frame_bind_cap {k l : Frame → Exec σ β} (h : ∀ f, Follows (Machine.cap bound) (k f) (l f)) :
    Follows (Machine.cap bound) (frame >>= k) (frame >>= l) := by
  intro m
  rw [bind_apply, bind_apply]
  unfold frame
  rw [Machine.cap_frames]
  cases m.frames.top? with
  | none => rfl
  | some f => exact h f m

theorem modifyFrame_cap (g : Frame → Frame) :
    Follows (Machine.cap bound) (modifyFrame (σ := σ) g) (modifyFrame g) := by
  intro m
  rw [modifyFrame_apply, modifyFrame_apply, Machine.cap_frames]
  split
  · rfl
  · rfl

theorem readMemory_cap {read : Memory → Except Trap α}
    (h : ∀ memory, read (memory.cap bound) = read memory) :
    Follows (Machine.cap bound) (readMemory (σ := σ) read) (readMemory read) := by
  intro m
  unfold readMemory
  rw [Machine.cap_memory]
  cases m.store.memory with
  | none => rfl
  | some memory =>
    rw [Option.map_some]
    dsimp only
    rw [h]
    cases read memory with
    | ok x => rfl
    | error t => rfl

/-- An action on the memory of a machine that follows it along the cap. -/
theorem onMemory_cap {action : EStateM Trap Memory α} {m : Machine σ}
    (h : ∀ memory, m.store.memory = some memory →
      action (memory.cap bound) = mapState (Memory.cap bound) (action memory)) :
    onMemory action (m.cap bound) = mapState (Machine.cap bound) (onMemory action m) := by
  rw [onMemory_apply, onMemory_apply, Machine.cap_memory]
  cases hmemory : m.store.memory with
  | none => rfl
  | some memory =>
    rw [Option.map_some]
    dsimp only
    rw [h memory hmemory]
    cases action memory with
    | ok x memory' => rfl
    | error t memory' => rfl

end Exec

/-! ### Instructions -/

namespace Machine

open Exec

variable (bound : Option Nat) (s : Setting σ) {source : Module}

theorem closeFrame_cap (f : Frame) (fs : List Frame) (m : Machine σ) :
    closeFrame (s.withSource source) f fs (m.cap bound) = (closeFrame s f fs m).cap bound := rfl

theorem handOver_cap (f : Frame) :
    Follows (Machine.cap bound) (handOver (σ := σ) f) (handOver f) := by
  unfold handOver
  cases f.result with
  | none => exact truncate_cap bound f.base
  | some expected =>
    refine (onOperands_cap bound _).bind fun v => .ite ?_ (.throw _)
    exact (truncate_cap bound f.base).bind fun _ => push_cap bound v

theorem returnFromFrame_cap :
    Follows (Machine.cap bound) (returnFromFrame s) (returnFromFrame (s.withSource source)) := by
  intro m
  cases hitems : m.frames.items with
  | nil =>
    rw [returnFromFrame_of_nil s hitems,
      returnFromFrame_of_nil (m := m.cap bound) (s.withSource source) hitems]
    rfl
  | cons f fs =>
    rw [returnFromFrame_of_cons s hitems,
      returnFromFrame_of_cons (m := m.cap bound) (s.withSource source) hitems, closeFrame_cap]
    exact handOver_cap bound f _

theorem branch_cap (depth : Nat) :
    Follows (Machine.cap bound) (branch s depth) (branch (s.withSource source) depth) := by
  refine .get_bind fun m => ?_
  rw [cap_frames]
  cases m.frames.top? with
  | none => exact .throw _
  | some f =>
    -- out of all constructs, out of some of them, or further than that
    refine .ite (returnFromFrame_cap bound s) ?_
    cases f.labels.drop depth with
    | nil => exact .throw _
    | cons label outer =>
      refine .ite ?_ ?_
      · exact (truncate_cap bound _).bind fun _ => modifyFrame_cap bound _
      · exact (onOperands_cap bound _).bind fun v => (truncate_cap bound _).bind fun _ =>
          (push_cap bound v).bind fun _ => modifyFrame_cap bound _

theorem callHost_cap (func : Nat) (type : FuncType) :
    Follows (Machine.cap bound) (callHost s func type)
      (callHost (s.withSource source) func type) := by
  unfold callHost
  rw [Setting.withSource_host]
  cases s.host[func]? with
  | none => exact .throw _
  | some host =>
    refine .get_bind fun m => (onOperands_cap bound _).bind fun args => ?_
    cases host args with
    | trap t => exact .throw _
    | panic p => exact .throw _
    | value result =>
      refine .ite ?_ (.throw _)
      cases result with
      | none => exact .pure ()
      | some v => exact push_cap bound v

theorem callGuest_cap (func : Nat) (type : FuncType) (body : FuncBody) :
    Follows (Machine.cap bound) (callGuest s func type body)
      (callGuest (s.withSource source) func type body) := by
  -- nothing that is asked or checked before the frame is opened has to do with the memory
  have hask : Follows (Machine.cap bound) (ask s body) (ask (s.withSource source) body) := by
    refine .ite ?_ (onAccount_cap bound _)
    exact (onAccount_cap bound _).bind fun _ => onAccount_cap bound _
  have hgrant : Follows (Machine.cap bound) (grant s type body)
      (grant (s.withSource source) type body) := by
    refine .get_bind fun m => (onOperands_cap bound _).bind fun args => .ite (.throw _) ?_
    exact hask.bind fun _ => .pure args
  rw [callGuest_eq, callGuest_eq]
  exact hgrant.bind fun args => .modify fun _ => rfl

theorem call_cap (func : Nat) :
    Follows (Machine.cap bound) (call s func) (call (s.withSource source) func) := by
  unfold call
  rw [Setting.withSource_funcType?, Setting.withSource_imported, Setting.withSource_body?]
  cases s.program.funcType? func with
  | none => exact .throw _
  | some type =>
    refine .ite (callHost_cap bound s func type) ?_
    cases s.program.body? func with
    | none => exact .throw _
    | some body => exact callGuest_cap bound s func type body

theorem setLocal_cap (index : Nat) (v : Value) :
    Follows (Machine.cap bound) (setLocal (σ := σ) index v) (setLocal index v) := by
  refine frame_bind_cap bound fun f => ?_
  cases f.locals[index]? with
  | none => exact .throw _
  | some old => exact .ite (modifyFrame_cap bound _) (.throw _)

theorem setGlobal_cap (index : Nat) (v : Value) :
    Follows (Machine.cap bound) (setGlobal (σ := σ) index v) (setGlobal index v) := by
  intro m
  rw [setGlobal_apply, setGlobal_apply, cap_globals]
  cases m.store.globals[index]? with
  | none => rfl
  | some cell =>
    dsimp only
    cases cell.set v with
    | error t => rfl
    | ok cell => rfl

section SameTypes

variable (hsource : source.types = s.program.source.types)
include hsource

/-- Signatures that indirect calls name are looked up in the module. -/
theorem callIndirect_cap (type slot : Nat) :
    Follows (Machine.cap bound) (callIndirect s type slot)
      (callIndirect (s.withSource source) type slot) := by
  have hresolve : Follows (Machine.cap bound) (resolve s type slot)
      (resolve (s.withSource source) type slot) := by
    refine .get_bind fun m => ?_
    rw [cap_table]
    cases m.store.table with
    | none => exact .throw _
    | some table =>
      dsimp only
      cases table.get slot with
      | error t => exact .throw _
      | ok func =>
        dsimp only
        rw [Setting.withSource_source, Setting.withSource_funcType?, hsource]
        exact .ite (.pure func) (.throw _)
  rw [callIndirect_eq, callIndirect_eq]
  exact hresolve.bind fun func => call_cap bound s func

/-- **Every instruction without structure**, but for the one that lets the memory grow. -/
theorem stepOp_cap (floor : Nat) {o : Op} (h : o ≠ .memoryGrow) :
    Follows (Machine.cap bound) (stepOp s floor o) (stepOp (s.withSource source) floor o) := by
  have haddress : ∀ offset, Follows (Machine.cap bound) (popAddress (σ := σ) floor offset)
      (popAddress floor offset) := fun _ => (onOperands_cap bound _).bind fun _ => .pure _
  cases o with
  | memoryGrow => exact absurd rfl h
  | unreachable | illegal => exact .throw _
  | nop => exact .pure ()
  -- control
  | br depth => exact branch_cap bound s depth
  | brIf depth =>
    exact (onOperands_cap bound _).bind fun _ => .ite (branch_cap bound s depth) (.pure ())
  | brTable depths default => exact (onOperands_cap bound _).bind fun _ => branch_cap bound s _
  | ret => exact returnFromFrame_cap bound s
  | call func => exact call_cap bound s func
  | callIndirect type =>
    exact (onOperands_cap bound _).bind fun _ => callIndirect_cap bound s hsource type _
  -- operands
  | drop => exact (onOperands_cap bound _).bind fun _ => .pure ()
  | select =>
    exact (onOperands_cap bound _).bind fun _ => (onOperands_cap bound _).bind fun _ =>
      (onOperands_cap bound _).bind fun _ => .ite (push_cap bound _) (.throw _)
  | const v => exact push_cap bound v
  | numeric op => exact onOperands_cap bound _
  -- locals and globals
  | localGet i =>
    refine frame_bind_cap bound fun f => ?_
    cases f.locals[i]? with
    | none => exact .throw _
    | some v => exact push_cap bound v
  | localSet i => exact (onOperands_cap bound _).bind fun v => setLocal_cap bound i v
  | localTee i =>
    exact (onOperands_cap bound _).bind fun v =>
      (setLocal_cap bound i v).bind fun _ => push_cap bound v
  | globalGet i =>
    refine .get_bind fun m => ?_
    rw [cap_globals]
    cases m.store.globals[i]? with
    | none => exact .throw _
    | some cell => exact push_cap bound _
  | globalSet i => exact (onOperands_cap bound _).bind fun v => setGlobal_cap bound i v
  -- memory
  | load op offset =>
    exact (haddress offset).bind fun _ =>
      (readMemory_cap bound fun _ => rfl).bind fun _ => push_cap bound _
  | store op offset =>
    exact (onOperands_cap bound _).bind fun v => (haddress offset).bind fun address _ =>
      onMemory_cap bound fun memory _ => Memory.store_cap bound op address v memory
  | memorySize => exact (readMemory_cap bound fun _ => rfl).bind fun _ => push_cap bound _

theorem step_cap {instr : Instr} (h : instr ≠ .op .memoryGrow) :
    Follows (Machine.cap bound) (step s instr) (step (s.withSource source) instr) := by
  have hlabel : ∀ arity target, Follows (Machine.cap bound) (pushLabel (σ := σ) arity target)
      (pushLabel arity target) := fun _ _ => .get_bind fun _ => modifyFrame_cap bound _
  refine .get_bind fun m => ?_
  cases instr with
  | op o => exact stepOp_cap bound s hsource _ fun ho => h (congrArg Instr.op ho)
  | block arity endAt => exact hlabel arity _
  | loop => exact frame_bind_cap bound fun f => hlabel 0 _
  | ifThen arity elseAt endAt =>
    refine (onOperands_cap bound _).bind fun _ => .ite (hlabel arity _) ?_
    cases elseAt with
    | none => exact modifyFrame_cap bound _
    | some elseAt => exact (hlabel arity _).bind fun _ => modifyFrame_cap bound _
  | elseJump endAt => exact modifyFrame_cap bound _
  | endMark =>
    refine frame_bind_cap bound fun f => ?_
    cases f.labels with
    | nil => exact returnFromFrame_cap bound s
    | cons label outer => exact modifyFrame_cap bound _

end SameTypes

/-! ### Turns -/

/-- **The memory grows** in the next turn of the machine: an instruction that lets it grow is next,
it is paid for, it finds a number of pages and a memory, the memory may grow by so many, and then it
has `size` pages. -/
inductive GrowsTo (s : Setting σ) (m : Machine σ) : (size : Nat) → Prop
  | intro {account : σ} {delta : BitVec 32} {operands : OperandStack} {memory memory' : Memory}
      {previous : Nat} (hnext : nextInstr? s m = some (.op .memoryGrow))
      (hpaid : s.checkpoint.charge (s.pricing.cost (.op .memoryGrow)) m.account = .ok () account)
      (hdelta : Operands.popInt .w32 (floor s m) m.operands = .ok delta operands)
      (hmemory : m.store.memory = some memory)
      (hgrow : Memory.grow delta.toNat memory = .ok (some previous) memory') :
      GrowsTo s m memory'.pages

/-- If the memory grows in the next turn of the machine, it does not exceed `n` pages. -/
def Within (s : Setting σ) (n : Nat) (m : Machine σ) : Prop := ∀ size, GrowsTo s m size → size ≤ n

theorem floor_advance (m : Machine σ) : floor s m.advance = floor s m := by
  obtain ⟨store, operands, ⟨items, height, h⟩, liveLocals, account⟩ := m
  cases items with
  | nil => rfl
  | cons f fs => rfl

theorem fetch_eq_ok {m m' : Machine σ} {instr : Instr} (h : fetch s m = .ok instr m') :
    nextInstr? s m = some instr ∧ m' = m.advance := by
  cases hnext : nextInstr? s m with
  | none =>
    obtain ⟨e, he⟩ := fetch_of_next_none s hnext
    rw [he] at h
    cases h
  | some instr' =>
    rw [fetch_of_next s hnext] at h
    cases h
    exact ⟨rfl, rfl⟩

theorem fetch_cap :
    Follows (Machine.cap bound) (fetch s) (fetch (s.withSource source)) := by
  refine frame_bind_cap bound fun f => ?_
  rw [Setting.withSource_body?]
  cases s.program.body? f.func with
  | none => exact .throw _
  | some body =>
    dsimp only
    cases body.code[f.position]? with
    | none => exact .throw _
    | some instr => exact (modifyFrame_cap bound _).bind fun _ => .pure instr

section Runs

variable {bound s} (hsource : source.types = s.program.source.types)
include hsource

/-- **A turn**, if the memory does not grow beyond the cap in it. -/
theorem turn_cap {m : Machine σ} (h : ∀ n ∈ bound, Within s n m) :
    turn (s.withSource source) (m.cap bound) = mapState (cap bound) (turn s m) := by
  refine bind_mapState (fetch_cap bound s m) fun instr m₁ hfetch => ?_
  refine bind_mapState (onAccount_cap bound _ m₁) fun _ m₂ hpaid => ?_
  by_cases hinstr : instr = .op .memoryGrow
  · subst hinstr
    obtain ⟨hnext, rfl⟩ := fetch_eq_ok s hfetch
    obtain ⟨account, hcharge, rfl⟩ := onAccount_eq_ok hpaid
    -- the instruction takes a number and lets the memory grow by so many pages
    change stepOp (s.withSource source) (floor s m.advance) .memoryGrow _
      = mapState _ (stepOp s (floor s m.advance) .memoryGrow _)
    rw [floor_advance]
    refine bind_mapState (onOperands_cap bound _ _) fun delta m₃ hdelta => ?_
    obtain ⟨operands, hpop, rfl⟩ := onOperands_eq_ok hdelta
    refine bind_mapState (onMemory_cap bound fun memory hmemory => ?_) fun _ m₄ _ =>
      push_cap bound _ m₄
    -- if it may, then the memory grows in this turn of the machine, and so not beyond the cap
    refine Memory.grow_cap bound fun hfits n hn => ?_
    have hgrow : Memory.grow delta.toNat memory = .ok (some memory.pages)
        { memory with bytes := memory.bytes ++ Memory.zeroPages delta.toNat } := if_pos hfits
    rw [← Memory.pages_grow hgrow]
    exact h n hn _ (.intro hnext hcharge hpop hmemory hgrow)
  · exact step_cap bound s hsource hinstr m₂

theorem takeTurns_cap {limit : Nat} {m : Machine σ}
    (h : ∀ n ∈ bound, ∀ x ∈ history s limit m, Within s n x) :
    takeTurns (s.withSource source) limit (m.cap bound)
      = mapState (cap bound) (takeTurns s limit m) := by
  induction limit generalizing m with
  | zero =>
    unfold takeTurns
    rw [get_bind_apply, get_bind_apply, cap_frames]
    split
    · rfl
    · rfl
  | succ limit ih =>
    unfold takeTurns
    rw [get_bind_apply, get_bind_apply, cap_frames]
    by_cases hempty : m.frames.isEmpty = true
    · rw [if_pos hempty, if_pos hempty]
      rfl
    · rw [history, if_neg hempty] at h
      rw [if_neg hempty, if_neg hempty]
      have hhead : ∀ n ∈ bound, Within s n m := fun n hn => h n hn m List.mem_cons_self
      refine bind_mapState (turn_cap hsource hhead) fun _ m' hturn => ih fun n hn x hx => ?_
      -- the turns after this one are turns of the whole
      rw [hturn] at h
      exact h n hn x (List.mem_cons_of_mem _ hx)

/-- **A run**, if the memory does not grow beyond the cap in any of its turns. -/
theorem run_cap {limit func : Nat} {args : List Value} {m : Machine σ}
    (h : ∀ n ∈ bound, ∀ x ∈ runHistory s limit func args m, Within s n x) :
    run (s.withSource source) limit func args (m.cap bound)
      = mapState (cap bound) (run s limit func args m) := by
  unfold runHistory opening? at h
  unfold run
  rw [Setting.withSource_funcType?]
  cases htype : s.program.funcType? func with
  | none => rfl
  | some type =>
    rw [htype] at h
    dsimp only at h ⊢
    by_cases hargs : args.map Value.type = type.params
    · rw [if_pos hargs] at h
      rw [if_pos hargs, if_pos hargs]
      refine bind_mapState rfl fun _ m₁ hm₁ => ?_
      cases hm₁
      refine bind_mapState (call_cap bound s func _) fun _ m₂ hcall => ?_
      dsimp only at h
      unfold callHistory at h
      rw [hcall] at h
      refine bind_mapState (takeTurns_cap hsource h) fun _ m₃ _ => ?_
      unfold takeResult
      cases type.results.head? with
      | none => rfl
      | some expected =>
        exact ((onOperands_cap bound _).bind fun v => .ite (.pure (some v)) (.throw _)) m₃
    · rw [if_neg hargs, if_neg hargs]
      rfl

end Runs

end Machine

/-- What is left of a call, with the memory capped. -/
def Invocation.cap (bound : Option Nat) (r : Invocation σ) : Invocation σ :=
  { r with store := r.store.cap bound }

theorem Machine.settle_cap (bound : Option Nat) (s : Setting σ) (source : Module)
    (r : EStateM.Result Stop (Machine σ) (Option Value)) :
    settle (s.withSource source) (mapState (cap bound) r) = (settle s r).cap bound := by
  cases r with
  | ok result m => rfl
  | error stop m =>
    cases stop with
    | panic p => rfl
    | trap | turnLimit => rfl

/-! ### Turns of a recorded call -/

namespace Machine

section Raised

variable (s : Setting σ) (under : OperandStack) {account : σ → τ} {d : Checkpoint τ}

theorem nextInstr?_raised (m : Machine σ) :
    nextInstr? (s.raise under d) ((Reading.raised under account).machine m) = nextInstr? s m := by
  unfold nextInstr?
  rw [Reading.machine_top?]
  cases m.frames.top? with
  | none => rfl
  | some f => rfl

theorem opening?_raised (func : Nat) (args : List Value) (m : Machine σ) :
    opening? (s.raise under d) func args ((Reading.raised under account).machine m)
      = (opening? s func args m).map (Reading.raised under account).machine := by
  unfold opening?
  rw [Setting.raise_program, Reading.machine_operands, Stack.pushAll_beneath]
  cases s.program.funcType? func with
  | none => rfl
  | some type =>
    dsimp only
    split
    · rfl
    · rfl

variable {s under} (h : s.checkpoint.FollowsAlong account d)
include h

/-- On a raised machine the memory grows as it does on the machine. -/
theorem GrowsTo.raised {m : Machine σ} {size : Nat} (hm : GrowsTo s m size) :
    GrowsTo (s.raise under d) ((Reading.raised under account).machine m) size := by
  obtain ⟨hnext, hpaid, hdelta, hmemory, hgrow⟩ := hm
  have hpaid' := (h.charge _ m.account).trans (congrArg (mapState account) hpaid)
  have hdelta' := (Operands.popInt_follows under .w32 (floor s m) m.operands).trans
    (congrArg (mapState under.beneath) hdelta)
  have hfloor : floor (s.raise under d) ((Reading.raised under account).machine m)
      = floor s m + under.height := floor_raised s under m
  rw [← hfloor] at hdelta'
  exact .intro ((nextInstr?_raised s under m).trans hnext) hpaid' hdelta' hmemory hgrow

theorem history_raised (limit : Nat) (m : Machine σ) :
    history (s.raise under d) limit ((Reading.raised under account).machine m)
      = (history s limit m).map (Reading.raised under account).machine := by
  induction limit generalizing m with
  | zero => rfl
  | succ limit ih =>
    rw [history, history, Reading.machine_isEmpty, turn_raised s under h m]
    split
    · rfl
    · rw [List.map_cons]
      cases turn s m with
      | ok u m' => exact congrArg (List.cons _) (ih m')
      | error e m' => rfl

/-- **The turns of a raised run** begin in the states in which the turns of the run begin,
raised. -/
theorem runHistory_raised (limit func : Nat) (args : List Value) (m : Machine σ) :
    runHistory (s.raise under d) limit func args ((Reading.raised under account).machine m)
      = (runHistory s limit func args m).map (Reading.raised under account).machine := by
  unfold runHistory
  rw [opening?_raised]
  cases opening? s func args m with
  | none => rfl
  | some m' =>
    rw [Option.map_some]
    dsimp only
    unfold callHistory
    rw [call_raised s under h func m']
    cases call s func m' with
    | ok u m'' => exact history_raised h limit m''
    | error e m'' => rfl

end Raised

end Machine

/-! ### Calls -/

/-- The call with a record of all events. -/
def Call.recorded (c : Call) : Call where
  σ := c.σ × List Event
  checkpoint := c.checkpoint.recorded
  pricing := c.pricing
  limit := c.limit
  func := c.func
  args := c.args
  operands := c.operands
  account := (c.account, [])

namespace Instance

/-- Everything that passes between the machine and the checkpoint in a call, in order. -/
def exchange (i : Instance) (c : Call) : List Event :=
  i.events c.checkpoint c.pricing c.limit c.func c.args c.operands c.account

/-- The states in which the turns of a call begin. -/
def turns (i : Instance) (c : Call) : List (Machine c.σ) :=
  Machine.runHistory (i.setting c.checkpoint c.pricing c.operands.height) c.limit c.func c.args
    (Machine.start i.store c.operands c.account)

/-- If the memory grows in a turn of the call, it does not exceed `n` pages. -/
def CallWithin (i : Instance) (n : Nat) (c : Call) : Prop :=
  ∀ m ∈ i.turns c, Machine.Within (i.setting c.checkpoint c.pricing c.operands.height) n m

/-- **The memory stays within** `n` pages during a sequence of calls: no growing succeeds and leaves
more. -/
def GrowsWithin (i : Instance) (n : Nat) : List Call → Prop
  | [] => True
  | c :: calls => i.CallWithin n c ∧ (i.after c).GrowsWithin n calls

/-- A record makes no difference to the memory. -/
theorem CallWithin.recorded {i : Instance} {n : Nat} {c : Call} (h : i.CallWithin n c) :
    i.CallWithin n c.recorded := by
  obtain ⟨σ, checkpoint, pricing, limit, func, args, operands, account⟩ := c
  let s : Setting (σ × List Event) := i.setting checkpoint.recorded pricing operands.height
  let forget : Reading (σ × List Event) σ := .raised .empty Prod.fst
  have hfollows : s.checkpoint.FollowsAlong Prod.fst checkpoint := checkpoint.recorded_follows
  intro m hm size hgrows
  -- the turns of the call are those of the recorded call, without the record
  have hstart : forget.machine (Machine.start i.store operands (account, []))
      = Machine.start i.store operands account :=
    Machine.ext rfl (Stack.empty_beneath operands) rfl rfl rfl
  have hturns : Machine.runHistory (s.raise .empty checkpoint) limit func args
        (Machine.start i.store operands account)
      = (Machine.runHistory s limit func args
          (Machine.start i.store operands (account, []))).map forget.machine := by
    rw [← hstart]
    exact Machine.runHistory_raised hfollows limit func args _
  have hforget : forget.machine m ∈ Machine.runHistory (s.raise .empty checkpoint) limit func args
      (Machine.start i.store operands account) := hturns ▸ List.mem_map_of_mem hm
  have hgrows : Machine.GrowsTo (s.raise .empty checkpoint) (forget.machine m) size :=
    Machine.GrowsTo.raised hfollows hgrows
  exact h _ hforget size hgrows

/-- **The capped instance**: its memory may grow to fewer pages, and its program comes from another
module. -/
def capped (bound : Option Nat) (source : Module) (i : Instance) : Instance where
  program := { i.program with source }
  host := i.host
  store := i.store.cap bound

section Capped

variable {bound : Option Nat} {source : Module} {i : Instance}
  (hsource : source.types = i.program.source.types)
include hsource

/-- **A call of a capped instance** leaves what the call of the instance leaves, capped. -/
theorem perform_capped {c : Call} (h : ∀ n ∈ bound, i.CallWithin n c) :
    (i.capped bound source).perform c = (i.perform c).cap bound := by
  have hrun := Machine.run_cap (s := i.setting c.checkpoint c.pricing c.operands.height) hsource h
  unfold perform
  rw [invoke_eq, invoke_eq, ← Machine.settle_cap bound _ source, ← hrun]
  rfl

theorem after_capped {c : Call} (h : ∀ n ∈ bound, i.CallWithin n c) :
    (i.capped bound source).after c = (i.after c).capped bound source := by
  unfold after
  rw [perform_capped hsource h]
  rfl

/-- A capped instance exchanges the same events with the checkpoint. -/
theorem exchange_capped {c : Call} (h : ∀ n ∈ bound, i.CallWithin n c) :
    (i.capped bound source).exchange c = i.exchange c := by
  have hrecorded := perform_capped (c := c.recorded) hsource fun n hn => (h n hn).recorded
  exact congrArg (fun r => r.account.2) hrecorded

/-- **Any number of calls** of a capped instance. -/
theorem afterAll_capped {calls : List Call} (h : ∀ n ∈ bound, i.GrowsWithin n calls) :
    (i.capped bound source).afterAll calls = (i.afterAll calls).capped bound source := by
  induction calls generalizing i with
  | nil => rfl
  | cons c calls ih =>
    rw [afterAll_cons, afterAll_cons, after_capped hsource fun n hn => (h n hn).1]
    exact ih hsource fun n hn => (h n hn).2

end Capped

/-- After any number of calls, the memory stays within its bounds in those that follow. -/
theorem growsWithin_append {i : Instance} {n : Nat} {calls calls' : List Call} :
    i.GrowsWithin n (calls ++ calls') ↔
      i.GrowsWithin n calls ∧ (i.afterAll calls).GrowsWithin n calls' := by
  induction calls generalizing i with
  | nil => exact (and_iff_right trivial).symm
  | cons c calls ih =>
    rw [List.cons_append, GrowsWithin, GrowsWithin, ih, and_assoc]
    rfl

end Instance

end MeteredSandbox
