import MeteredSandbox.Proofs.Keeping

/-!
# What a machine does to itself

`Change` lists everything that the machine may do to its state, with what it has checked before: a
frame is opened for arguments of the right types, a local and a global are replaced by values of
their types, the memory is written where it is and grown as far as it may be. The rest of an
instruction is a matter of operands, of the account, and of positions and open constructs.

To a change the account is anything. `Deed` says in addition what has become of it: a charge is
granted or refused, and a frame is opened together with the leave to open it, so that the number of
open frames and the account go together.

Every instruction, and so every turn, is a sequence of deeds, wherever it stops. A predicate that is
**firm**, which is to say kept by every single deed, is therefore kept by turns
(`Machine.turn_firm`) and by the call that begins a run (`Machine.call_firm`). A predicate that is
**stable**, kept by every single change, is firm, since each deed is one change or two. No invariant
has to look at instructions again.
-/

namespace MeteredSandbox

variable {σ α : Type}

/-- Arguments that were taken are of the right types. -/
theorem Operands.popArgs_eq_ok {types : List ValType} {floor : Nat}
    {operands operands' : OperandStack} {args : List Value}
    (h : popArgs types floor operands = .ok args operands') : args.map Value.type = types := by
  unfold popArgs at h
  split at h
  · cases h
  · dsimp only at h
    split at h
    next htypes =>
      cases h
      exact htypes
    next => cases h

/-- Arguments that were taken lay on top, above the floor. -/
theorem Operands.popArgs_height {types : List ValType} {floor : Nat}
    {operands operands' : OperandStack} {args : List Value}
    (h : popArgs types floor operands = .ok args operands') :
    floor ≤ operands'.height ∧ operands'.height + types.length = operands.height := by
  unfold popArgs at h
  split at h
  · cases h
  · dsimp only at h
    split at h
    next =>
      cases h
      rw [Stack.height_truncate]
      omega
    next => cases h

namespace Machine

/-- **One change** of a machine. -/
inductive Change (s : Setting σ) (m : Machine σ) : Machine σ → Prop
  | operands (operands : OperandStack) : Change s m { m with operands }
  | account (account : σ) : Change s m { m with account }
  | write {memory memory' : Memory} {address : Nat} {bytes : List UInt8}
      (hmemory : m.store.memory = some memory)
      (hwrite : Memory.write address bytes memory = .ok () memory') :
      Change s m { m with store := { m.store with memory := some memory' } }
  | grow {memory memory' : Memory} {delta previous : Nat} (hmemory : m.store.memory = some memory)
      (hgrow : Memory.grow delta memory = .ok (some previous) memory') :
      Change s m { m with store := { m.store with memory := some memory' } }
  | setGlobal {index : Nat} {v : Value} {cell cell' : GlobalCell}
      (hcell : m.store.globals[index]? = some cell) (hset : cell.set v = .ok cell') :
      Change s m { m with
        store := { m.store with globals := m.store.globals.setIfInBounds index cell' } }
  | setLocal {f : Frame} {index : Nat} {v old : Value} (htop : m.frames.top? = some f)
      (hold : f.locals[index]? = some old) (htype : old.type = v.type) :
      Change s m { m with frames := m.frames.modifyTop fun f =>
        { f with locals := f.locals.setIfInBounds index v } }
  /-- The current frame goes on somewhere else, inside other constructs. -/
  | move {g : Frame → Frame} (hg : ∀ f, ∃ position labels, g f = { f with position, labels }) :
      Change s m { m with frames := m.frames.modifyTop g }
  | enter {func : Nat} {type : FuncType} {body : FuncBody} {args : List Value}
      (htype : s.program.funcType? func = some type) (hbody : s.program.body? func = some body)
      (hargs : args.map Value.type = type.params)
      (hcaps : ¬ m.Exhausted (args.length + body.locals.size)) :
      Change s m (openFrame func type body args m)
  | leave {f : Frame} {fs : List Frame} (hitems : m.frames.items = f :: fs) :
      Change s m (closeFrame s f fs m)

/-- A predicate is **stable** if no change can upset it. -/
def Stable (s : Setting σ) (I : Machine σ → Prop) : Prop :=
  ∀ m m', Change s m m' → I m → I m'

/-- **One deed** of a machine: a change, and what the checkpoint has to do with it. -/
inductive Deed (s : Setting σ) (m : Machine σ) : Machine σ → Prop
  /-- A change that opens and closes no frame and that the checkpoint does not hear of. -/
  | quiet {m' : Machine σ} (hchange : Change s m m') (haccount : m'.account = m.account)
      (hheight : m'.frames.height = m.frames.height) : Deed s m m'
  | charge {cost : Nat} {account : σ}
      (hgranted : s.checkpoint.charge cost m.account = .ok () account) :
      Deed s m { m with account }
  | refuseCharge {cost : Nat} {t : Trap} {account : σ}
      (hrefused : s.checkpoint.charge cost m.account = .error t account) :
      Deed s m { m with account }
  | refuseFrame {t : Trap} {account : σ}
      (hrefused : s.checkpoint.enterFrame m.account = .error t account) :
      Deed s m { m with account }
  | enter {func : Nat} {type : FuncType} {body : FuncBody} {args : List Value} {account : σ}
      (htype : s.program.funcType? func = some type) (hbody : s.program.body? func = some body)
      (hargs : args.map Value.type = type.params)
      (hcaps : ¬ m.Exhausted (args.length + body.locals.size))
      (hgranted : s.checkpoint.enterFrame m.account = .ok () account) :
      Deed s m (openFrame func type body args { m with account })
  | leave {f : Frame} {fs : List Frame} (hitems : m.frames.items = f :: fs) :
      Deed s m (closeFrame s f fs m)

/-- A predicate is **firm** if no deed can upset it. -/
def Firm (s : Setting σ) (I : Machine σ → Prop) : Prop :=
  ∀ m m', Deed s m m' → I m → I m'

/-- A frame is opened by two changes, one of them of the account. All other deeds are changes. -/
theorem Stable.firm {s : Setting σ} {I : Machine σ → Prop} (hI : Stable s I) : Firm s I := by
  intro m m' hdeed hm
  cases hdeed with
  | quiet hchange => exact hI m m' hchange hm
  | charge | refuseCharge | refuseFrame => exact hI m _ (.account _) hm
  | enter htype hbody hargs hcaps =>
    exact hI _ _ (.enter htype hbody hargs hcaps) (hI m _ (.account _) hm)
  | leave hitems => exact hI m _ (.leave hitems) hm

/-- The action keeps the predicate, wherever it stops. -/
abbrev Respects (I : Machine σ → Prop) (a : Exec σ α) : Prop := Keeps I (fun _ => True) a

section Firm

open Exec

variable {s : Setting σ} {I : Machine σ → Prop} (hI : Firm s I)
include hI

/-- Operands are changed as one likes. -/
theorem Firm.indifferent : Indifferent I fun _ => True where
  ordinary _ _ := trivial
  operands m operands hm := hI m _ (.quiet (.operands operands) rfl rfl) hm

theorem charge_firm (cost : Nat) : Respects I (onAccount (s.checkpoint.charge cost)) := by
  intro m hm
  cases hr : s.checkpoint.charge cost m.account with
  | ok u account =>
    rw [onAccount_of_ok hr]
    exact hI m _ (.charge hr) hm
  | error t account =>
    rw [onAccount_of_error hr]
    exact ⟨hI m _ (.refuseCharge hr) hm, trivial⟩

/-! ### The current frame -/

theorem modifyFrame_firm {g : Frame → Frame}
    (hg : ∀ f, ∃ position labels, g f = { f with position, labels }) :
    Respects I (modifyFrame g : Exec σ Unit) := by
  intro m hm
  rw [modifyFrame_apply]
  by_cases hempty : m.frames.isEmpty = true
  · rw [if_pos hempty]
    exact ⟨hm, trivial⟩
  · rw [if_neg hempty]
    exact hI m _ (.quiet (.move hg) rfl (Stack.height_modifyTop ..)) hm

theorem jump_firm (position : Nat) : Respects I (jump position : Exec σ Unit) :=
  modifyFrame_firm hI fun f => ⟨position, f.labels, rfl⟩

theorem pushLabel_firm (arity target : Nat) : Respects I (pushLabel arity target : Exec σ Unit) :=
  .get_bind fun m _ => modifyFrame_firm hI fun f =>
    ⟨f.position, { arity, height := m.operands.height, target } :: f.labels, rfl⟩

theorem setLocal_firm (index : Nat) (v : Value) :
    Respects I (setLocal index v : Exec σ Unit) := by
  intro m hm
  unfold setLocal
  cases htop : m.frames.top? with
  | none =>
    have hframe : frame m = .error (.trap (.malformed .noFrame)) m := by
      unfold frame
      rw [htop]
    rw [bind_of_error hframe]
    exact ⟨hm, trivial⟩
  | some f =>
    have hframe : frame m = .ok f m := by
      unfold frame
      rw [htop]
    rw [bind_of_ok hframe]
    cases hold : f.locals[index]? with
    | none => exact ⟨hm, trivial⟩
    | some old =>
      dsimp only
      by_cases htype : old.type = v.type
      · rw [if_pos htype, modifyFrame_apply]
        by_cases hempty : m.frames.isEmpty = true
        · rw [if_pos hempty]
          exact ⟨hm, trivial⟩
        · rw [if_neg hempty]
          exact hI m _ (.quiet (.setLocal htop hold htype) rfl (Stack.height_modifyTop ..)) hm
      · rw [if_neg htype]
        exact ⟨hm, trivial⟩

/-! ### Globals and memory -/

theorem setGlobal_firm (index : Nat) (v : Value) :
    Respects I (setGlobal index v : Exec σ Unit) := by
  intro m hm
  rw [setGlobal_apply]
  cases hcell : m.store.globals[index]? with
  | none => exact ⟨hm, trivial⟩
  | some cell =>
    dsimp only
    cases hset : cell.set v with
    | error t => exact ⟨hm, trivial⟩
    | ok cell' => exact hI m _ (.quiet (.setGlobal hcell hset) rfl rfl) hm

/-- An action on the memory that changes it as the machine may, or not at all. -/
theorem onMemory_firm {action : EStateM Trap Memory α}
    (h : ∀ (m : Machine σ) (memory : Memory), m.store.memory = some memory →
      match action memory with
      | .ok _ memory' =>
        memory' = memory ∨ Change s m { m with store := { m.store with memory := some memory' } }
      | .error _ memory' => memory' = memory) :
    Respects I (onMemory action : Exec σ α) := by
  intro m hm
  -- putting back what is there changes nothing
  have hsame : ∀ memory, m.store.memory = some memory →
      ({ m with store := { m.store with memory := some memory } } : Machine σ) = m := by
    intro memory hmemory
    rw [← hmemory]
  rw [onMemory_apply]
  cases hmemory : m.store.memory with
  | none => exact ⟨hm, trivial⟩
  | some memory =>
    have hchange := h m memory hmemory
    dsimp only
    cases hr : action memory with
    | ok x memory' =>
      rw [hr] at hchange
      rcases hchange with rfl | hchange
      · change I { m with store := { m.store with memory := some memory' } }
        rw [hsame memory' hmemory]
        exact hm
      · exact hI m _ (.quiet hchange rfl rfl) hm
    | error t memory' =>
      rw [hr] at hchange
      subst hchange
      refine ⟨?_, trivial⟩
      rw [hsame memory' hmemory]
      exact hm

theorem store_firm (op : StoreOp) (address : Nat) (v : Value) :
    Respects I (onMemory (Memory.store op address v) : Exec σ Unit) := by
  refine onMemory_firm hI fun m memory hmemory => ?_
  unfold Memory.store
  by_cases htype : v.type = op.type
  · rw [if_pos htype]
    cases hwrite : Memory.write address (LittleEndian.ofNat op.byteCount v.bits) memory with
    | ok u memory' => exact .inr (.write hmemory hwrite)
    | error t memory' =>
      unfold Memory.write at hwrite
      split at hwrite
      · cases hwrite
      · cases hwrite
        rfl
  · rw [if_neg htype]
    rfl

theorem grow_firm (delta : Nat) : Respects I (onMemory (Memory.grow delta) : Exec σ _) := by
  refine onMemory_firm hI fun m memory hmemory => ?_
  cases hgrow : Memory.grow delta memory with
  | ok previous memory' =>
    cases previous with
    | some previous => exact .inr (.grow hmemory hgrow)
    | none =>
      unfold Memory.grow at hgrow
      split at hgrow
      · cases hgrow
      · cases hgrow
        exact .inl rfl
  | error t memory' =>
    unfold Memory.grow at hgrow
    split at hgrow <;> cases hgrow

/-! ### Calls and returns -/

/-- What a call asks for is granted, as the account has it, or refused. -/
theorem ask_firm (body : FuncBody) {size : Nat} {m : Machine σ} (hm : I m)
    (hcaps : ¬ m.Exhausted size) :
    match ask s body m with
    | .ok _ m' => ∃ (m'' : Machine σ) (account : σ), I m'' ∧ ¬ m''.Exhausted size ∧
        s.checkpoint.enterFrame m''.account = .ok () account ∧ m' = { m'' with account }
    | .error _ m' => I m' := by
  have henter : ∀ m : Machine σ, I m → ¬ m.Exhausted size →
      match onAccount s.checkpoint.enterFrame m with
      | .ok _ m' => ∃ (m'' : Machine σ) (account : σ), I m'' ∧ ¬ m''.Exhausted size ∧
          s.checkpoint.enterFrame m''.account = .ok () account ∧ m' = { m'' with account }
      | .error _ m' => I m' := by
    intro m hm hcaps
    cases hr : s.checkpoint.enterFrame m.account with
    | ok u account =>
      rw [onAccount_of_ok hr]
      exact ⟨m, account, hm, hcaps, hr, rfl⟩
    | error t account =>
      rw [onAccount_of_error hr]
      exact hI m _ (.refuseFrame hr) hm
  unfold ask
  by_cases hlocals : body.locals.size ≠ 0
  · rw [if_pos hlocals]
    cases hr : s.checkpoint.charge (s.pricing.localsCost body.locals.size) m.account with
    | ok u account =>
      rw [bind_of_ok (onAccount_of_ok hr)]
      exact henter _ (hI m _ (.charge hr) hm) hcaps
    | error t account =>
      rw [bind_of_error (onAccount_of_error hr)]
      exact hI m _ (.refuseCharge hr) hm
  · rw [if_neg hlocals]
    exact henter m hm hcaps

theorem callGuest_firm {func : Nat} {type : FuncType} {body : FuncBody}
    (htype : s.program.funcType? func = some type) (hbody : s.program.body? func = some body) :
    Respects I (callGuest s func type body) := by
  intro m hm
  rw [callGuest_eq, bind_apply]
  unfold grant
  rw [get_bind_apply, bind_apply]
  cases hr : Operands.popArgs type.params (floor s m) m.operands with
  | error t operands =>
    rw [onOperands_of_error hr]
    exact ⟨hI.indifferent.operands m operands hm, trivial⟩
  | ok args operands =>
    have hpopped : I { m with operands } := hI.indifferent.operands m operands hm
    rw [onOperands_of_ok hr]
    dsimp only
    by_cases hcaps : m.Exhausted (args.length + body.locals.size)
    · rw [if_pos hcaps]
      exact ⟨hpopped, trivial⟩
    · rw [if_neg hcaps, bind_apply]
      have hasked := ask_firm hI body hpopped hcaps
      cases hr' : ask s body { m with operands } with
      | error e m' =>
        rw [hr'] at hasked
        exact ⟨hasked, trivial⟩
      | ok u m' =>
        rw [hr'] at hasked
        obtain ⟨m'', account, hm'', hcaps'', hgranted, rfl⟩ := hasked
        exact hI m'' _ (.enter htype hbody (Operands.popArgs_eq_ok hr) hcaps'' hgranted) hm''

/-- **A call**, of whichever function. -/
theorem call_firm (func : Nat) : Respects I (call s func) := by
  unfold call
  cases htype : s.program.funcType? func with
  | none => exact trap_keeps trivial
  | some type =>
    refine .ite (fun _ => callHost_keeps s hI.indifferent (fun _ => trivial)
      (fun _ _ _ _ _ => trivial) (fun _ _ _ _ _ => trivial) type) fun _ => ?_
    cases hbody : s.program.body? func with
    | none => exact trap_keeps trivial
    | some body => exact callGuest_firm hI htype hbody

theorem returnFromFrame_firm : Respects I (returnFromFrame s) := by
  intro m hm
  cases hitems : m.frames.items with
  | nil =>
    rw [returnFromFrame_of_nil s hitems]
    exact ⟨hm, trivial⟩
  | cons f fs =>
    rw [returnFromFrame_of_cons s hitems]
    exact handOver_keeps hI.indifferent f _ (hI m _ (.leave hitems) hm)

theorem branch_firm (depth : Nat) : Respects I (branch s depth) := by
  intro m hm
  cases htop : m.frames.top? with
  | none =>
    rw [branch_of_none s htop]
    exact ⟨hm, trivial⟩
  | some f =>
    rcases branch_cases f.labels depth with ⟨label, outer, hdrop⟩ | heq | hgt
    · rw [branch_of_drop s htop hdrop]
      exact (carry_keeps hI.indifferent _ _).bind
        (fun _ => modifyFrame_firm hI fun _ => ⟨label.target, outer, rfl⟩) m hm
    · rw [branch_of_length s htop heq]
      exact returnFromFrame_firm hI m hm
    · rw [branch_of_gt s htop hgt]
      exact ⟨hm, trivial⟩

/-! ### Instructions and turns -/

/-- Every instruction without structure. -/
theorem stepOp_firm (floor : Nat) (o : Op) : Respects I (stepOp s floor o) := by
  have hi := hI.indifferent
  have hframe : Respects I (frame : Exec σ Frame) := frame_keeps fun _ _ _ => trivial
  have hread : ∀ {α : Type} (read : Memory → Except Trap α),
      Respects I (readMemory read : Exec σ α) := fun _ =>
    readMemory_keeps (fun _ _ _ => trivial) fun _ _ _ => trivial
  have haddress : ∀ offset, Respects I (popAddress floor offset : Exec σ Nat) := fun _ =>
    (popI32_keeps hi floor).bind fun _ => .pure _
  cases o with
  | unreachable | illegal => exact trap_keeps trivial
  | nop => exact .pure ()
  -- control
  | br depth => exact branch_firm hI depth
  | brIf depth =>
    exact (popI32_keeps hi floor).bind fun _ =>
      .ite (fun _ => branch_firm hI depth) fun _ => .pure ()
  | brTable depths default => exact (popI32_keeps hi floor).bind fun _ => branch_firm hI _
  | ret => exact returnFromFrame_firm hI
  | call func => exact call_firm hI func
  | callIndirect type =>
    refine (popI32_keeps hi floor).bind fun slot => ?_
    rw [callIndirect_eq]
    exact (resolve_keeps s (fun _ _ => trivial) type slot.toNat).bind fun func =>
      call_firm hI func
  -- operands
  | drop => exact (pop_keeps hi floor).bind fun _ => .pure ()
  | select =>
    exact (popI32_keeps hi floor).bind fun _ => (pop_keeps hi floor).bind fun _ =>
      (pop_keeps hi floor).bind fun _ => .ite (fun _ => push_keeps hi _) fun _ => trap_keeps trivial
  | const v => exact push_keeps hi v
  | numeric op => exact onOperands_keeps hi (op.execute_ordinary floor)
  -- locals and globals
  | localGet i =>
    refine hframe.bind fun f => ?_
    cases f.locals[i]? with
    | none => exact trap_keeps trivial
    | some v => exact push_keeps hi v
  | localSet i => exact (pop_keeps hi floor).bind fun v => setLocal_firm hI i v
  | localTee i =>
    exact (pop_keeps hi floor).bind fun v =>
      (setLocal_firm hI i v).bind fun _ => push_keeps hi v
  | globalGet i =>
    refine .get_bind fun m _ => ?_
    cases m.store.globals[i]? with
    | none => exact trap_keeps trivial
    | some cell => exact push_keeps hi _
  | globalSet i => exact (pop_keeps hi floor).bind fun v => setGlobal_firm hI i v
  -- memory
  | load op offset =>
    exact (haddress offset).bind fun _ => (hread _).bind fun v => push_keeps hi v
  | store op offset =>
    exact (pop_keeps hi floor).bind fun v => (haddress offset).bind fun address =>
      store_firm hI op address v
  | memorySize => exact (hread _).bind fun _ => push_keeps hi _
  | memoryGrow =>
    exact (popI32_keeps hi floor).bind fun delta =>
      (grow_firm hI delta.toNat).bind fun _ => push_keeps hi _

theorem step_firm (instr : Instr) : Respects I (step s instr) := by
  have hframe : Respects I (frame : Exec σ Frame) := frame_keeps fun _ _ _ => trivial
  refine .get_bind fun m _ => ?_
  cases instr with
  | op o => exact stepOp_firm hI _ o
  | block arity endAt => exact pushLabel_firm hI arity _
  | loop => exact hframe.bind fun _ => pushLabel_firm hI 0 _
  | ifThen arity elseAt endAt =>
    refine (popI32_keeps hI.indifferent _).bind fun _ =>
      .ite (fun _ => pushLabel_firm hI arity _) fun _ => ?_
    cases elseAt with
    | none => exact jump_firm hI _
    | some elseAt => exact (pushLabel_firm hI arity _).bind fun _ => jump_firm hI _
  | elseJump endAt => exact jump_firm hI endAt
  | endMark =>
    refine hframe.bind fun f => ?_
    cases f.labels with
    | nil => exact returnFromFrame_firm hI
    | cons label outer => exact modifyFrame_firm hI fun f => ⟨f.position, outer, rfl⟩

/-- **A turn** keeps whatever is firm, and so does what is left of it when it stops. -/
theorem turn_firm : Respects I (turn s) := by
  refine Keeps.bind ?_ fun instr =>
    (charge_firm hI _).bind fun _ => step_firm hI instr
  refine (frame_keeps fun _ _ _ => trivial).bind fun f => ?_
  cases s.program.body? f.func with
  | none => exact trap_keeps trivial
  | some body =>
    dsimp only
    cases body.code[f.position]? with
    | none => exact trap_keeps trivial
    | some instr =>
      exact (modifyFrame_firm hI fun f => ⟨f.position + 1, f.labels, rfl⟩).bind fun _ =>
        .pure instr

end Firm

end Machine

end MeteredSandbox
