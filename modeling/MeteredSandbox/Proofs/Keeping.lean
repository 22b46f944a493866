import MeteredSandbox.Machine.Run
import MeteredSandbox.Proofs.Control
import MeteredSandbox.Proofs.Following
import MeteredSandbox.Proofs.Reading

/-!
# What actions keep, and how they stop

`Keeps I E a` says two things of an action `a` that starts where `I` holds: what it leaves satisfies
`I`, whether it returns or stops, and if it stops then for a reason that satisfies `E`. Like
`Follows` it is closed under everything that actions are put together with. `Leads` is the same for
actions that lead from one place to another, and says nothing of what is left when they stop.

The traps of the machine fall into classes. A trap is **internal** if it says that machine, program
and instance do not fit together; it is the business of compilation and instantiation that none of
them is ever raised. The trap of an illegal opcode belongs to the one instruction that stands for
it, and no instruction raises the trap of exhausted ink, which is left to the checkpoint. All others
are **ordinary**: any code may run into them.

A plain instruction touches the operands, the memory, the globals and the locals of the current
frame, each in a way that leaves its shape as it is (`Steady`). So it keeps whatever is insensitive
to that, and beyond ordinary traps it stops only for what `Op.Excused` lists
(`Machine.stepOp_keeps`). A host function and the checkpoint see even less.

Whole runs preserve what does not look at the contents of memory and globals (`Store.Endures`). They
stop for traps of the machine's own, at the bound on turns, and for what host functions and the
checkpoint answer (`Setting.Stops`), and for nothing else (`Machine.run_stops`).
-/

namespace MeteredSandbox

variable {ε σ α β : Type}

/-! ### Keeping -/

/-- **Keeping.** From where `I` holds, the action leads to where `I` holds, and if it stops then for
a reason in `E`. -/
def Keeps (I : σ → Prop) (E : ε → Prop) (a : EStateM ε σ α) : Prop :=
  ∀ s, I s → match a s with
    | .ok _ s' => I s'
    | .error e s' => I s' ∧ E e

namespace Keeps

variable {I : σ → Prop} {E : ε → Prop}

theorem pure (x : α) : Keeps I E (pure x : EStateM ε σ α) := fun _ hs => hs

theorem throw {e : ε} (he : E e) : Keeps I E (throw e : EStateM ε σ α) := fun _ hs => ⟨hs, he⟩

theorem bind {a : EStateM ε σ α} {k : α → EStateM ε σ β} (h : Keeps I E a)
    (hk : ∀ x, Keeps I E (k x)) : Keeps I E (a >>= k) := by
  intro s hs
  have ha := h s hs
  rw [bind_apply]
  cases hr : a s with
  | ok x s' =>
    rw [hr] at ha
    exact hk x s' ha
  | error e s' =>
    rw [hr] at ha
    exact ha

theorem get_bind {k : σ → EStateM ε σ β} (h : ∀ s, I s → Keeps I E (k s)) :
    Keeps I E (get >>= k) := fun s hs => h s hs s hs

theorem modify {g : σ → σ} (h : ∀ s, I s → I (g s)) : Keeps I E (modify g : EStateM ε σ PUnit) :=
  fun s hs => h s hs

theorem ite {p : Prop} [Decidable p] {a a' : EStateM ε σ α} (h : p → Keeps I E a)
    (h' : ¬ p → Keeps I E a') : Keeps I E (if p then a else a') := by
  split
  next hp => exact h hp
  next hp => exact h' hp

/-- Two predicates that are kept are kept together. -/
theorem and {J : σ → Prop} {F : ε → Prop} {a : EStateM ε σ α} (h : Keeps I E a)
    (h' : Keeps J F a) : Keeps (fun s => I s ∧ J s) E a := by
  intro s hs
  have ha := h s hs.1
  have ha' := h' s hs.2
  cases hr : a s with
  | ok x s' =>
    rw [hr] at ha ha'
    exact ⟨ha, ha'⟩
  | error e s' =>
    rw [hr] at ha ha'
    exact ⟨⟨ha.1, ha'.1⟩, ha.2⟩

theorem of_ok {a : EStateM ε σ α} (h : Keeps I E a) {s s' : σ} {x : α} (hs : I s)
    (hr : a s = .ok x s') : I s' := by
  have ha := h s hs
  rw [hr] at ha
  exact ha

end Keeps

/-- **Leading.** From where `I` holds, the action leads to where `J` holds of what it returns, and
if it stops then for a reason in `E`. -/
def Leads (I : σ → Prop) (E : ε → Prop) (a : EStateM ε σ α) (J : α → σ → Prop) : Prop :=
  ∀ s, I s → match a s with
    | .ok x s' => J x s'
    | .error e _ => E e

theorem Keeps.leads {I : σ → Prop} {E : ε → Prop} {a : EStateM ε σ α} (h : Keeps I E a) :
    Leads I E a fun _ => I := by
  intro s hs
  have ha := h s hs
  cases hr : a s with
  | ok x s' =>
    rw [hr] at ha
    exact ha
  | error e s' =>
    rw [hr] at ha
    exact ha.2

namespace Leads

variable {I : σ → Prop} {E : ε → Prop} {J : α → σ → Prop} {L : β → σ → Prop}

theorem pure {x : α} (h : ∀ s, I s → J x s) : Leads I E (pure x : EStateM ε σ α) J := h

theorem throw {e : ε} (he : E e) : Leads I E (throw e : EStateM ε σ α) J := fun _ _ => he

/-- Where an action leads may be said with less. -/
theorem mono {a : EStateM ε σ α} {J' : α → σ → Prop} (h : Leads I E a J)
    (hJ : ∀ x s, J x s → J' x s) : Leads I E a J' := by
  intro s hs
  have ha := h s hs
  cases hr : a s with
  | ok x s' =>
    rw [hr] at ha
    exact hJ x s' ha
  | error e s' =>
    rw [hr] at ha
    exact ha

/-- Every action leads somewhere or stops. -/
theorem anywhere (a : EStateM ε σ α) : Leads I (fun _ => True) a fun _ _ => True := by
  intro s _
  cases a s with
  | ok x s' => trivial
  | error e s' => trivial

theorem bind {a : EStateM ε σ α} {k : α → EStateM ε σ β} (h : Leads I E a J)
    (hk : ∀ x, Leads (J x) E (k x) L) : Leads I E (a >>= k) L := by
  intro s hs
  have ha := h s hs
  rw [bind_apply]
  cases hr : a s with
  | ok x s' =>
    rw [hr] at ha
    exact hk x s' ha
  | error e s' =>
    rw [hr] at ha
    exact ha

theorem get_bind {k : σ → EStateM ε σ β} (h : ∀ s, I s → Leads I E (k s) L) :
    Leads I E (get >>= k) L := fun s hs => h s hs s hs

theorem ite {p : Prop} [Decidable p] {a a' : EStateM ε σ α} (h : p → Leads I E a J)
    (h' : ¬ p → Leads I E a' J) : Leads I E (if p then a else a') J := by
  split
  next hp => exact h hp
  next hp => exact h' hp

theorem of_ok {a : EStateM ε σ α} (h : Leads I E a J) {s s' : σ} {x : α} (hs : I s)
    (hr : a s = .ok x s') : J x s' := by
  have ha := h s hs
  rw [hr] at ha
  exact ha

end Leads

/-! ### Classes of traps -/

/-- The flaws that cannot be blamed on the code of one instruction. -/
def CodeFlaw.isInternal : CodeFlaw → Bool
  | functionOutOfRange | frameWithoutBody | pastTheEnd | noFrame | noMemory | callTargetOutOfRange
  | callTargetWithoutBody | unresolvedHost | returnWithoutFrame | branchWithoutFrame
  | globalOutOfRange => true
  | _ => false

/-- An **internal** trap: machine, program and instance do not fit together. -/
def Trap.isInternal : Trap → Bool
  | malformed flaw => flaw.isInternal
  | typeConflict .invocationResult => true
  | _ => false

/-- An **ordinary** trap: any code may run into it. -/
def Trap.IsOrdinary : Trap → Prop
  | illegalOpcode _ | inkExhausted => False
  | t => t.isInternal = false

theorem Trap.IsOrdinary.isInternal_eq_false {t : Trap} (h : t.IsOrdinary) :
    t.isInternal = false := by
  cases t with
  | illegalOpcode | inkExhausted => exact h.elim
  | _ => exact h

theorem Trap.IsOrdinary.ne_inkExhausted {t : Trap} (h : t.IsOrdinary) : t ≠ .inkExhausted := by
  rintro rfl
  exact h

/-! ### The operand stack -/

namespace Operands

/-- An action on the operand stack that stops for ordinary reasons only. -/
abbrev Ordinary (a : Operands α) : Prop := Keeps (fun _ => True) Trap.IsOrdinary a

theorem push_ordinary (v : Value) : Ordinary (push v) := fun _ _ => trivial

theorem pop_ordinary (floor : Nat) : Ordinary (pop floor) := by
  intro s _
  unfold pop
  by_cases hfloor : s.height ≤ floor
  · rw [if_pos hfloor]
    exact ⟨trivial, rfl⟩
  · rw [if_neg hfloor]
    cases s.pop? with
    | none => exact ⟨trivial, rfl⟩
    | some p => trivial

theorem popInt_ordinary (w : Width) (floor : Nat) : Ordinary (popInt w floor) := by
  refine (pop_ordinary floor).bind fun v => ?_
  cases v.int? w with
  | some bits => exact .pure bits
  | none => exact .throw rfl

theorem popFloat_ordinary (w : Width) (floor : Nat) : Ordinary (popFloat w floor) := by
  refine (pop_ordinary floor).bind fun v => ?_
  cases v.float? w with
  | some bits => exact .pure bits
  | none => exact .throw rfl

theorem popArgs_ordinary (types : List ValType) (floor : Nat) : Ordinary (popArgs types floor) := by
  intro s _
  unfold popArgs
  by_cases hfloor : s.height < floor + types.length
  · rw [if_pos hfloor]
    exact ⟨trivial, rfl⟩
  · rw [if_neg hfloor]
    dsimp only
    by_cases htypes : (s.items.take types.length).reverse.map Value.type = types
    · rw [if_pos htypes]
      trivial
    · rw [if_neg htypes]
      exact ⟨trivial, rfl⟩

end Operands

section Numeric

open Operands

theorem IntArith.apply_ordinary {n : Nat} (op : IntArith) (a b : BitVec n) {t : Trap}
    (h : op.apply a b = .error t) : t.IsOrdinary := by
  unfold apply at h
  cases op <;> dsimp only at h
  -- only divisions stop: by zero, or where the quotient does not fit
  case divSigned =>
    split at h
    · cases h
      rfl
    · split at h
      · cases h
        rfl
      · cases h
  case divUnsigned | remSigned | remUnsigned =>
    split at h
    · cases h
      rfl
    · cases h
  all_goals cases h

theorem Conversion.toInteger_ordinary {target : Width} {signed : Bool} {x : Float} {t : Trap}
    (h : toInteger target signed x = .error t) : t.IsOrdinary := by
  unfold toInteger at h
  dsimp only at h
  split at h
  · cases h
  · cases h
    rfl

theorem Conversion.execute_ordinary (floor : Nat) (c : Conversion) :
    Ordinary (c.execute floor) := by
  cases c with
  | truncate target source signed =>
    refine (popFloat_ordinary _ floor).bind fun a => ?_
    cases hr : toInteger target signed (widen source a) with
    | ok bits => exact push_ordinary _
    | error t => exact .throw (toInteger_ordinary hr)
  | wrap | extend | convert | ofBits =>
    exact (popInt_ordinary _ floor).bind fun _ => push_ordinary _
  | demote | promote | floatBits =>
    exact (popFloat_ordinary _ floor).bind fun _ => push_ordinary _

/-- **Numeric instructions** stop for ordinary reasons only. -/
theorem NumericOp.execute_ordinary (floor : Nat) (op : NumericOp) :
    Ordinary (op.execute floor) := by
  cases op with
  | intIsZero | intCount => exact (popInt_ordinary _ floor).bind fun _ => push_ordinary _
  | intCompare =>
    exact (popInt_ordinary _ floor).bind fun _ =>
      (popInt_ordinary _ floor).bind fun _ => push_ordinary _
  | floatUnary => exact (popFloat_ordinary _ floor).bind fun _ => push_ordinary _
  | floatCompare | floatArith =>
    exact (popFloat_ordinary _ floor).bind fun _ =>
      (popFloat_ordinary _ floor).bind fun _ => push_ordinary _
  | intArith w op =>
    refine (popInt_ordinary _ floor).bind fun b => (popInt_ordinary _ floor).bind fun a => ?_
    cases hr : op.apply a b with
    | ok bits => exact push_ordinary _
    | error t => exact .throw (op.apply_ordinary a b hr)
  | conversion c => exact c.execute_ordinary floor

end Numeric

/-! ### Memory, globals and table -/

theorem Memory.load_ordinary {memory : Memory} {op : LoadOp} {address : Nat} {t : Trap}
    (h : memory.load op address = .error t) : t.IsOrdinary := by
  unfold load at h
  cases hr : memory.read address op.byteCount with
  | ok bytes =>
    rw [hr] at h
    cases h
  | error t' =>
    rw [hr] at h
    cases h
    unfold read at hr
    split at hr
    · cases hr
    · cases hr
      rfl

theorem Memory.store_ordinary (op : StoreOp) (address : Nat) (v : Value) :
    Keeps (fun _ => True) Trap.IsOrdinary (Memory.store op address v) := by
  unfold store
  by_cases htype : v.type = op.type
  · rw [if_pos htype]
    intro memory _
    unfold write
    split
    next hr =>
      trivial
    next hr =>
      split at hr
      · cases hr
      · cases hr
        exact ⟨trivial, rfl⟩
  · rw [if_neg htype]
    exact .throw rfl

theorem Memory.grow_ordinary (delta : Nat) :
    Keeps (fun _ => True) Trap.IsOrdinary (Memory.grow delta) := by
  intro memory _
  unfold grow
  by_cases hfits : memory.pages + delta ≤ memory.maxPages
  · rw [if_pos hfits]
    trivial
  · rw [if_neg hfits]
    trivial

theorem GlobalCell.set_ordinary {cell : GlobalCell} {v : Value} {t : Trap}
    (h : cell.set v = .error t) : t.IsOrdinary := by
  unfold set at h
  split at h
  · cases h
    rfl
  · split at h
    · cases h
      rfl
    · cases h

theorem Table.get_ordinary {table : Table} {slot : Nat} {t : Trap}
    (h : table.get slot = .error t) : t.IsOrdinary := by
  unfold get at h
  split at h
  · cases h
  · cases h
    rfl

/-! ### Plain instructions -/

/-- A predicate of machines that does not look at the operands, and a set of reasons to stop that
has all ordinary traps. -/
structure Indifferent (I : Machine σ → Prop) (E : Stop → Prop) : Prop where
  ordinary : ∀ t : Trap, t.IsOrdinary → E (.trap t)
  operands : ∀ m operands, I m → I { m with operands }

/-- A predicate of machines and a set of reasons to stop that plain instructions cannot upset: the
predicate does not look at the content of memory, globals and locals either. -/
structure Steady (I : Machine σ → Prop) (E : Stop → Prop) : Prop extends Indifferent I E where
  memory : ∀ m memory, I m → m.store.memory.isSome →
    I { m with store := { m.store with memory := some memory } }
  globals : ∀ m index cell, I m →
    I { m with store := { m.store with globals := m.store.globals.setIfInBounds index cell } }
  locals : ∀ m index v, I m →
    I { m with frames := m.frames.modifyTop fun f =>
      { f with locals := f.locals.setIfInBounds index v } }

/-- Whether an instruction needs a memory. -/
def Op.NeedsMemory : Op → Prop
  | .load .. | .store .. | .memorySize | .memoryGrow => True
  | _ => False

/-- The global that an instruction names. -/
def Op.global? : Op → Option Nat
  | .globalGet i | .globalSet i => some i
  | _ => none

/-- The reasons to stop beyond ordinary traps that a plain instruction may have where `I` holds are
in `E`. -/
structure Op.Excused (o : Op) (I : Machine σ → Prop) (E : Stop → Prop) : Prop where
  illegal : ∀ opcode, o = .illegal opcode → E (.trap (.illegalOpcode opcode))
  frame : ∀ m, I m → m.frames.top? = none → E (.trap (.malformed .noFrame))
  memory : o.NeedsMemory → ∀ m, I m → m.store.memory = none → E (.trap (.malformed .noMemory))
  global : ∀ i, o.global? = some i → ∀ m, I m → m.store.globals[i]? = none →
    E (.trap (.malformed .globalOutOfRange))

/-- Where every trap that the machine itself raises is a reason to stop, nothing needs to be known
of the instruction. -/
theorem Op.Excused.of_own {I : Machine σ → Prop} {E : Stop → Prop}
    (h : ∀ t : Trap, t ≠ .inkExhausted → E (.trap t)) (o : Op) : o.Excused I E where
  illegal _ _ := h _ Trap.noConfusion
  frame _ _ _ := h _ Trap.noConfusion
  memory _ _ _ _ := h _ Trap.noConfusion
  global _ _ _ _ _ := h _ Trap.noConfusion

theorem Op.Excused.of_trap {I : Machine σ → Prop} {E : Stop → Prop} (h : ∀ t, E (.trap t))
    (o : Op) : o.Excused I E := .of_own (fun t _ => h t) o

namespace Exec

variable {I : Machine σ → Prop} {E : Stop → Prop}

theorem trap_keeps {t : Trap} (ht : E (.trap t)) : Keeps I E (trap t : Exec σ α) := .throw ht

theorem frame_keeps (h : ∀ m, I m → m.frames.top? = none → E (.trap (.malformed .noFrame))) :
    Keeps I E (frame : Exec σ Frame) := by
  intro m hm
  unfold frame
  cases htop : m.frames.top? with
  | none => exact ⟨hm, h m hm htop⟩
  | some f => exact hm

theorem readMemory_keeps {read : Memory → Except Trap α}
    (hmem : ∀ m, I m → m.store.memory = none → E (.trap (.malformed .noMemory)))
    (hread : ∀ memory t, read memory = .error t → E (.trap t)) :
    Keeps I E (readMemory read : Exec σ α) := by
  intro m hm
  unfold readMemory
  cases hmemory : m.store.memory with
  | none => exact ⟨hm, hmem m hm hmemory⟩
  | some memory =>
    dsimp only
    cases hr : read memory with
    | ok x => exact hm
    | error t => exact ⟨hm, hread memory t hr⟩

section Operands

variable (hs : Indifferent I E)
include hs

theorem onOperands_keeps {a : Operands α} (h : Operands.Ordinary a) :
    Keeps I E (onOperands a : Exec σ α) := by
  intro m hm
  have ha := h m.operands trivial
  unfold onOperands
  cases hr : a m.operands with
  | ok x operands => exact hs.operands m operands hm
  | error t operands =>
    rw [hr] at ha
    exact ⟨hs.operands m operands hm, hs.ordinary t ha.2⟩

theorem push_keeps (v : Value) : Keeps I E (push v : Exec σ Unit) :=
  onOperands_keeps hs (Operands.push_ordinary v)

theorem pushOption_keeps (v : Option Value) : Keeps I E (pushOption v : Exec σ Unit) := by
  cases v with
  | none => exact .pure ()
  | some v => exact push_keeps hs v

theorem pop_keeps (floor : Nat) : Keeps I E (pop floor : Exec σ Value) :=
  onOperands_keeps hs (Operands.pop_ordinary floor)

theorem popI32_keeps (floor : Nat) : Keeps I E (popI32 floor : Exec σ (BitVec 32)) :=
  onOperands_keeps hs (Operands.popInt_ordinary .w32 floor)

theorem truncate_keeps (height : Nat) : Keeps I E (truncate height : Exec σ Unit) :=
  .modify fun m hm => hs.operands m _ hm

theorem carry_keeps (arity height : Nat) :
    Keeps I E (Machine.carry arity height : Exec σ Unit) := by
  refine .ite (fun _ => truncate_keeps hs height) fun _ => ?_
  exact (pop_keeps hs height).bind fun v => (truncate_keeps hs height).bind fun _ => push_keeps hs v

theorem handOver_keeps (f : Frame) : Keeps I E (Machine.handOver f : Exec σ Unit) := by
  unfold Machine.handOver
  cases f.result with
  | none => exact truncate_keeps hs f.base
  | some expected =>
    refine (pop_keeps hs f.base).bind fun v => .ite (fun _ => ?_) fun _ =>
      trap_keeps (hs.ordinary _ rfl)
    exact (truncate_keeps hs f.base).bind fun _ => push_keeps hs v

end Operands

theorem onMemory_keeps (hs : Steady I E) {action : EStateM Trap Memory α}
    (hmem : ∀ m, I m → m.store.memory = none → E (.trap (.malformed .noMemory)))
    (h : Keeps (fun _ => True) Trap.IsOrdinary action) :
    Keeps I E (onMemory action : Exec σ α) := by
  intro m hm
  rw [onMemory_apply]
  cases hmemory : m.store.memory with
  | none => exact ⟨hm, hmem m hm hmemory⟩
  | some memory =>
    have ha := h memory trivial
    have hsome : m.store.memory.isSome := by rw [hmemory]; rfl
    dsimp only
    cases hr : action memory with
    | ok x memory' => exact hs.memory m memory' hm hsome
    | error t memory' =>
      rw [hr] at ha
      exact ⟨hs.memory m memory' hm hsome, hs.ordinary t ha.2⟩

end Exec

namespace Machine

open Exec

variable {I : Machine σ → Prop} {E : Stop → Prop} (hs : Steady I E)
include hs

theorem setLocal_keeps (hframe : ∀ m, I m → m.frames.top? = none → E (.trap (.malformed .noFrame)))
    (index : Nat) (v : Value) : Keeps I E (setLocal index v : Exec σ Unit) := by
  refine (frame_keeps hframe).bind fun f => ?_
  cases f.locals[index]? with
  | none => exact trap_keeps (hs.ordinary _ rfl)
  | some old =>
    refine .ite (fun _ m hm => ?_) fun _ => trap_keeps (hs.ordinary _ rfl)
    rw [modifyFrame_apply]
    by_cases hempty : m.frames.isEmpty = true
    · -- a frame has just been read, so this cannot be, but it is excused in any case
      rw [if_pos hempty]
      exact ⟨hm, hframe m hm (List.head?_eq_none_iff.mpr (List.isEmpty_iff.mp hempty))⟩
    · rw [if_neg hempty]
      exact hs.locals m index v hm

theorem setGlobal_keeps {index : Nat}
    (hglobal : ∀ m, I m → m.store.globals[index]? = none → E (.trap (.malformed .globalOutOfRange)))
    (v : Value) : Keeps I E (setGlobal index v : Exec σ Unit) := by
  intro m hm
  rw [setGlobal_apply]
  cases hcell : m.store.globals[index]? with
  | none => exact ⟨hm, hglobal m hm hcell⟩
  | some cell =>
    dsimp only
    cases hset : cell.set v with
    | error t => exact ⟨hm, hs.ordinary t (GlobalCell.set_ordinary hset)⟩
    | ok cell' => exact hs.globals m index cell' hm

theorem popAddress_keeps (floor offset : Nat) :
    Keeps I E (popAddress floor offset : Exec σ Nat) :=
  (popI32_keeps hs.toIndifferent floor).bind fun _ => .pure _

/-- **Plain instructions** keep whatever cannot be upset by them, and stop only for ordinary traps
and for what they are excused. -/
theorem stepOp_keeps (s : Setting σ) (floor : Nat) {o : Op} (h : o.IsPlain)
    (ho : o.Excused I E) : Keeps I E (stepOp s floor o) := by
  have ordinary : ∀ t : Trap, t.IsOrdinary → E (.trap t) := hs.ordinary
  have hi : Indifferent I E := hs.toIndifferent
  -- an instruction is excused for the one part of it that needs something to be there
  cases o with
  | br | brIf | brTable | ret | call | callIndirect => exact h.elim
  | unreachable => exact trap_keeps (ordinary _ rfl)
  | illegal opcode => exact trap_keeps (ho.illegal opcode rfl)
  | nop => exact .pure ()
  | drop => exact (pop_keeps hi floor).bind fun _ => .pure ()
  | select =>
    refine (popI32_keeps hi floor).bind fun condition =>
      (pop_keeps hi floor).bind fun b => (pop_keeps hi floor).bind fun a => ?_
    exact .ite (fun _ => push_keeps hi _) fun _ => trap_keeps (ordinary _ rfl)
  | localGet i =>
    refine (frame_keeps ho.frame).bind fun f => ?_
    cases f.locals[i]? with
    | none => exact trap_keeps (ordinary _ rfl)
    | some v => exact push_keeps hi v
  | localSet i => exact (pop_keeps hi floor).bind fun v => setLocal_keeps hs ho.frame i v
  | localTee i =>
    exact (pop_keeps hi floor).bind fun v =>
      (setLocal_keeps hs ho.frame i v).bind fun _ => push_keeps hi v
  | globalGet i =>
    refine .get_bind fun m hm => ?_
    cases hcell : m.store.globals[i]? with
    | none => exact trap_keeps (ho.global i rfl m hm hcell)
    | some cell => exact push_keeps hi _
  | globalSet i => exact (pop_keeps hi floor).bind fun v => setGlobal_keeps hs (ho.global i rfl) v
  | load op offset =>
    refine (popAddress_keeps hs floor offset).bind fun _ =>
      (readMemory_keeps (ho.memory trivial) fun memory t ht => ?_).bind fun v => push_keeps hi v
    exact ordinary t (Memory.load_ordinary ht)
  | store op offset =>
    exact (pop_keeps hi floor).bind fun _ => (popAddress_keeps hs floor offset).bind fun _ =>
      onMemory_keeps hs (ho.memory trivial) (Memory.store_ordinary op _ _)
  | memorySize =>
    refine (readMemory_keeps (ho.memory trivial) fun memory t ht => ?_).bind fun _ =>
      push_keeps hi _
    cases ht
  | memoryGrow =>
    exact (popI32_keeps hi floor).bind fun _ =>
      (onMemory_keeps hs (ho.memory trivial) (Memory.grow_ordinary _)).bind fun _ =>
        push_keeps hi _
  | const v => exact push_keeps hi v
  | numeric op => exact onOperands_keeps hi (op.execute_ordinary floor)

end Machine

/-! ### Calls -/

namespace Machine

open Exec

section Calls

variable {I : Machine σ → Prop} {E : Stop → Prop}

theorem onAccount_keeps (ha : ∀ m a, I m → I { m with account := a }) {question : EStateM Trap σ α}
    (h : ∀ a t a', question a = .error t a' → E (.trap t)) : Keeps I E (onAccount question) := by
  intro m hm
  unfold onAccount
  cases hr : question m.account with
  | ok x a => exact ha m a hm
  | error t a => exact ⟨ha m a hm, h m.account t a hr⟩

variable (s : Setting σ) (hi : Indifferent I E)
include hi

/-- A call is granted without a change to anything but operands and account. -/
theorem grant_keeps (ha : ∀ m a, I m → I { m with account := a })
    (hcharge : ∀ cost a t a', s.checkpoint.charge cost a = .error t a' → E (.trap t))
    (henter : ∀ a t a', s.checkpoint.enterFrame a = .error t a' → E (.trap t)) (type : FuncType)
    (body : FuncBody) : Keeps I E (grant s type body) := by
  have hask : Keeps I E (ask s body) :=
    .ite (fun _ => (onAccount_keeps ha (hcharge _)).bind fun _ => onAccount_keeps ha henter)
      fun _ => onAccount_keeps ha henter
  exact .get_bind fun _ _ => (onOperands_keeps hi (Operands.popArgs_ordinary _ _)).bind fun _ =>
    .ite (fun _ => trap_keeps (hi.ordinary _ rfl)) fun _ => hask.bind fun _ => .pure _

/-- A host function sees and changes nothing but its arguments and its result. -/
theorem callHost_keeps {func : Nat}
    (hnone : s.host[func]? = none → E (.trap (.malformed .unresolvedHost)))
    (htrap : ∀ f ∈ s.host, ∀ args t, f args = .trap t → E (.trap t))
    (hpanic : ∀ f ∈ s.host, ∀ args p, f args = .panic p → E (.panic p)) (type : FuncType) :
    Keeps I E (callHost s func type) := by
  unfold callHost
  cases hf : s.host[func]? with
  | none => exact trap_keeps (hnone hf)
  | some host =>
    have hmem : host ∈ s.host := Array.mem_of_getElem? hf
    refine .get_bind fun m _ =>
      (onOperands_keeps hi (Operands.popArgs_ordinary _ _)).bind fun args => ?_
    cases hr : host args with
    | trap t => exact trap_keeps (htrap host hmem args t hr)
    | panic p => exact .throw (hpanic host hmem args p hr)
    | value result =>
      exact .ite (fun _ => pushOption_keeps hi result) fun _ => trap_keeps (hi.ordinary _ rfl)

omit hi in
/-- The function of an indirect call is found without a change to anything. -/
theorem resolve_keeps (hord : ∀ t : Trap, t.IsOrdinary → E (.trap t)) (type slot : Nat) :
    Keeps I E (resolve s type slot) := by
  refine .get_bind fun m _ => ?_
  cases m.store.table with
  | none => exact trap_keeps (hord _ rfl)
  | some table =>
    dsimp only
    cases hr : table.get slot with
    | error t => exact trap_keeps (hord t (Table.get_ordinary hr))
    | ok func => exact .ite (fun _ => .pure func) fun _ => trap_keeps (hord _ rfl)

end Calls

end Machine

/-! ### Whole runs -/

/-- A predicate of stores that **endures**: it does not look at the contents of memory and
globals. -/
structure Store.Endures (K : Store → Prop) : Prop where
  memory : ∀ store memory, K store → store.memory.isSome → K { store with memory := some memory }
  globals : ∀ store index cell, K store →
    K { store with globals := store.globals.setIfInBounds index cell }

theorem Store.endures_true : Store.Endures fun _ => True where
  memory _ _ _ _ := trivial
  globals _ _ _ _ := trivial

/-- **What may stop a turn** is in `E`: traps of the machine's own, of which exhausted ink is none,
what the checkpoint refuses with, and what host functions answer. -/
structure Setting.StopsTurns (s : Setting σ) (E : Stop → Prop) : Prop where
  own : ∀ t : Trap, t ≠ .inkExhausted → E (.trap t)
  charge : ∀ cost a t a', s.checkpoint.charge cost a = .error t a' → E (.trap t)
  enterFrame : ∀ a t a', s.checkpoint.enterFrame a = .error t a' → E (.trap t)
  hostTrap : ∀ f ∈ s.host, ∀ args t, f args = .trap t → E (.trap t)
  hostPanic : ∀ f ∈ s.host, ∀ args p, f args = .panic p → E (.panic p)

/-- **What may stop a run** is in `E`: what may stop a turn, and the bound on turns. -/
structure Setting.Stops (s : Setting σ) (E : Stop → Prop) : Prop extends s.StopsTurns E where
  turnLimit : E .turnLimit

/-- Where every trap may stop a run, checkpoint and traps of host functions do not matter. -/
theorem Setting.Stops.of_trap {s : Setting σ} {E : Stop → Prop} (htrap : ∀ t, E (.trap t))
    (hhost : ∀ f ∈ s.host, ∀ args p, f args = .panic p → E (.panic p)) (hlimit : E .turnLimit) :
    s.Stops E where
  own t _ := htrap t
  charge _ _ t _ _ := htrap t
  enterFrame _ t _ _ := htrap t
  hostTrap _ _ _ t _ := htrap t
  hostPanic := hhost
  turnLimit := hlimit

namespace Machine

open Exec

section Runs

variable {I : Machine σ → Prop} {E : Stop → Prop} {s : Setting σ}

theorem takeTurns_keeps (hturn : Keeps I E (turn s)) (hlimit : E .turnLimit) (limit : Nat) :
    Keeps I E (takeTurns s limit) := by
  induction limit with
  | zero =>
    unfold takeTurns
    exact .get_bind fun m _ => .ite (fun _ => .pure ()) fun _ => .throw hlimit
  | succ limit ih =>
    unfold takeTurns
    exact .get_bind fun m _ => .ite (fun _ => .pure ()) fun _ => hturn.bind fun _ => ih

variable (hi : Indifferent I E) (hown : ∀ t : Trap, t ≠ .inkExhausted → E (.trap t))
include hi hown

theorem takeResult_keeps (type : FuncType) : Keeps I E (takeResult s type) := by
  unfold takeResult
  cases type.results.head? with
  | none => exact .pure none
  | some expected =>
    exact (pop_keeps hi s.floor).bind fun v =>
      .ite (fun _ => .pure (some v)) fun _ => trap_keeps (hown _ Trap.noConfusion)

/-- A run keeps what calls and turns keep. -/
theorem run_keeps (hcall : ∀ func, Keeps I E (call s func)) (hturn : Keeps I E (turn s))
    (hlimit : E .turnLimit) (limit func : Nat) (args : List Value) :
    Keeps I E (run s limit func args) := by
  unfold run
  cases s.program.funcType? func with
  | none => exact trap_keeps (hown _ Trap.noConfusion)
  | some type =>
    refine .ite (fun _ => ?_) fun _ => trap_keeps (hown _ Trap.noConfusion)
    exact Keeps.bind (.modify fun m hm => hi.operands m _ hm) fun _ => (hcall func).bind fun _ =>
      (takeTurns_keeps hturn hlimit limit).bind fun _ => takeResult_keeps hi hown type

end Runs

/-- The action **preserves** what `K` says of the store, and stops for reasons in `E`. -/
abbrev Preserves (K : Store → Prop) (E : Stop → Prop) (a : Exec σ α) : Prop :=
  Keeps (fun m => K m.store) E a

section Own

variable {K : Store → Prop} {E : Stop → Prop} (hK : Store.Endures K)
  (hown : ∀ t : Trap, t ≠ .inkExhausted → E (.trap t))

include hown in
theorem indifferent_of_own : Indifferent (fun m : Machine σ => K m.store) E where
  ordinary t ht := hown t ht.ne_inkExhausted
  operands _ _ h := h

include hK hown in
theorem steady_of_own : Steady (fun m : Machine σ => K m.store) E where
  toIndifferent := indifferent_of_own hown
  memory m memory h hsome := hK.memory m.store memory h hsome
  globals m index cell h := hK.globals m.store index cell h
  locals _ _ _ h := h

include hown

theorem frame_preserves : Preserves K E (frame : Exec σ Frame) :=
  frame_keeps fun _ _ _ => hown _ Trap.noConfusion

theorem modifyFrame_preserves (g : Frame → Frame) :
    Preserves K E (modifyFrame g : Exec σ Unit) := by
  intro m hm
  rw [modifyFrame_apply]
  by_cases hempty : m.frames.isEmpty = true
  · rw [if_pos hempty]
    exact ⟨hm, hown _ Trap.noConfusion⟩
  · rw [if_neg hempty]
    exact hm

variable (s : Setting σ)

theorem returnFromFrame_preserves : Preserves K E (returnFromFrame s) := by
  intro m hm
  cases hitems : m.frames.items with
  | nil =>
    rw [returnFromFrame_of_nil s hitems]
    exact ⟨hm, hown _ Trap.noConfusion⟩
  | cons f fs =>
    rw [returnFromFrame_of_cons s hitems]
    exact handOver_keeps (indifferent_of_own hown) f _ hm

theorem branch_preserves (depth : Nat) : Preserves K E (branch s depth) := by
  intro m hm
  cases htop : m.frames.top? with
  | none =>
    rw [branch_of_none s htop]
    exact ⟨hm, hown _ Trap.noConfusion⟩
  | some f =>
    -- a branch carries a result, returns, or makes no sense, and reaches no store
    rcases branch_cases f.labels depth with ⟨label, outer, hdrop⟩ | heq | hgt
    · rw [branch_of_drop s htop hdrop]
      exact (carry_keeps (indifferent_of_own hown) _ _).bind
        (fun _ => modifyFrame_preserves hown _) m hm
    · rw [branch_of_length s htop heq]
      exact returnFromFrame_preserves hown s m hm
    · rw [branch_of_gt s htop hgt]
      exact ⟨hm, hown _ Trap.noConfusion⟩

end Own

section Stops

variable {K : Store → Prop} {E : Stop → Prop} {s : Setting σ}

section Turns

variable (hs : s.StopsTurns E)
include hs

theorem charge_preserves (cost : Nat) : Preserves K E (onAccount (s.checkpoint.charge cost)) :=
  onAccount_keeps (fun _ _ h => h) (hs.charge cost)

theorem call_preserves (func : Nat) : Preserves K E (call s func) := by
  have hi : Indifferent (fun m : Machine σ => K m.store) E := indifferent_of_own hs.own
  unfold call
  cases s.program.funcType? func with
  | none => exact trap_keeps (hs.own _ Trap.noConfusion)
  | some type =>
    refine .ite (fun _ => callHost_keeps s hi (fun _ => hs.own _ Trap.noConfusion) hs.hostTrap
      hs.hostPanic type) fun _ => ?_
    cases s.program.body? func with
    | none => exact trap_keeps (hs.own _ Trap.noConfusion)
    | some body =>
      dsimp only
      rw [callGuest_eq]
      exact (grant_keeps s hi (fun _ _ h => h) hs.charge hs.enterFrame type body).bind fun _ =>
        .modify fun _ h => h

variable (hK : Store.Endures K)
include hK

theorem stepOp_preserves (floor : Nat) (o : Op) : Preserves K E (stepOp s floor o) := by
  have hi : Indifferent (fun m : Machine σ => K m.store) E := indifferent_of_own hs.own
  cases o with
  | br depth => exact branch_preserves hs.own s depth
  | brIf depth =>
    exact (popI32_keeps hi floor).bind fun _ =>
      .ite (fun _ => branch_preserves hs.own s depth) fun _ => .pure ()
  | brTable depths default =>
    exact (popI32_keeps hi floor).bind fun _ => branch_preserves hs.own s _
  | ret => exact returnFromFrame_preserves hs.own s
  | call func => exact call_preserves hs func
  | callIndirect type =>
    refine (popI32_keeps hi floor).bind fun slot => ?_
    rw [callIndirect_eq]
    exact (resolve_keeps s hi.ordinary type slot.toNat).bind fun func => call_preserves hs func
  | _ => exact stepOp_keeps (steady_of_own hK hs.own) s floor trivial (.of_own hs.own _)

theorem step_preserves (instr : Instr) : Preserves K E (step s instr) := by
  have hlabel : ∀ arity target, Preserves K E (pushLabel arity target : Exec σ Unit) :=
    fun _ _ => .get_bind fun _ _ => modifyFrame_preserves hs.own _
  have hjump : ∀ position, Preserves K E (jump position : Exec σ Unit) :=
    fun _ => modifyFrame_preserves hs.own _
  refine .get_bind fun m _ => ?_
  cases instr with
  | op o => exact stepOp_preserves hs hK _ o
  | block arity endAt => exact hlabel arity _
  | loop => exact (frame_preserves hs.own).bind fun _ => hlabel 0 _
  | ifThen arity elseAt endAt =>
    refine (popI32_keeps (indifferent_of_own hs.own) _).bind fun _ =>
      .ite (fun _ => hlabel arity _) ?_
    cases elseAt with
    | none => exact fun _ => hjump _
    | some elseAt => exact fun _ => (hlabel arity _).bind fun _ => hjump _
  | elseJump endAt => exact hjump endAt
  | endMark =>
    refine (frame_preserves hs.own).bind fun f => ?_
    cases f.labels with
    | nil => exact returnFromFrame_preserves hs.own s
    | cons label outer => exact modifyFrame_preserves hs.own _

theorem turn_preserves : Preserves K E (turn s) := by
  refine Keeps.bind ?_ fun instr => (charge_preserves hs _).bind fun _ => step_preserves hs hK instr
  refine (frame_preserves hs.own).bind fun f => ?_
  cases s.program.body? f.func with
  | none => exact trap_keeps (hs.own _ Trap.noConfusion)
  | some body =>
    dsimp only
    cases body.code[f.position]? with
    | none => exact trap_keeps (hs.own _ Trap.noConfusion)
    | some instr => exact (modifyFrame_preserves hs.own _).bind fun _ => .pure instr

omit hK in
theorem takeResult_preserves (type : FuncType) : Preserves K E (takeResult s type) :=
  takeResult_keeps (indifferent_of_own hs.own) hs.own type

end Turns

variable (hs : s.Stops E) (hK : Store.Endures K)
include hs hK

/-- **A run** preserves what endures, and stops for nothing but what may stop it. -/
theorem run_stops (limit func : Nat) (args : List Value) :
    Preserves K E (run s limit func args) :=
  run_keeps (indifferent_of_own hs.own) hs.own (call_preserves hs.toStopsTurns)
    (turn_preserves hs.toStopsTurns hK) hs.turnLimit limit func args

end Stops

/-- Where every trap may stop it, a run stops otherwise only at the bound on its turns or because a
host function panics. -/
theorem run_preserves {K : Store → Prop} {E : Stop → Prop} (hK : Store.Endures K)
    (htrap : ∀ t, E (.trap t)) (s : Setting σ)
    (hhost : ∀ f ∈ s.host, ∀ args p, f args = .panic p → E (.panic p)) (hlimit : E .turnLimit)
    (limit func : Nat) (args : List Value) : Preserves K E (run s limit func args) :=
  run_stops (.of_trap htrap hhost hlimit) hK limit func args

end Machine

end MeteredSandbox
