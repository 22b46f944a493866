import Mathlib
import MeteredSandbox.Instance.Basic
import MeteredSandbox.Proofs.Control
import MeteredSandbox.Proofs.Keeping
import MeteredSandbox.Proofs.Reading
import MeteredSandbox.Proofs.Recording

/-!
# Calls on top of other values

Host and guest share one operand stack, and bodies are not checked for types, so code may try to
take more values than it has put there, may branch with too few, and may leave too many. That none
of this reaches the values of whoever called is the **frame rule** of `Instance.invoke`.

The argument compares two runs. One works on operands `t`, the other on the same operands with a
stack `under` beneath them; its floor, the base of each of its frames and the height in each of its
labels are greater by the height of `under` (`Reading.raised`). Every action of the first is
followed by the second: the primitive parts by the lemmas on readings, calls, returns and branches
because the heights that they compare and cut to are all raised by the same amount
(`Machine.step_raised`), and runs by induction on the number of turns (`Machine.takeTurns_raised`).
So a call on any stack is a call on the empty stack with the stack beneath it
(`Instance.invoke_beneath`), and unwinding cuts back to just that stack.

The same comparison with nothing beneath shows that a record of the checkpoint changes nothing else
(`Instance.invoke_recorded`).
-/

namespace MeteredSandbox

variable {σ τ α : Type}

/-! ### Raised machines -/

/-- The frame with all its marks into the operand stack raised. -/
def Frame.raise (height : Nat) (f : Frame) : Frame :=
  { f with
    base := f.base + height
    labels := f.labels.map fun l => { l with height := l.height + height } }

/-- The reading that puts a stack beneath the operands, raises all frames accordingly, and maps the
account. -/
def Reading.raised (under : OperandStack) (account : σ → τ) : Reading σ τ where
  under
  top := Frame.raise under.height
  below := List.map (Frame.raise under.height)
  account
  top_locals _ := rfl
  top_withLocals _ _ := rfl

@[simp] theorem Reading.raised_func (under : OperandStack) (account : σ → τ) (f : Frame) :
    ((Reading.raised under account).top f).func = f.func := rfl

@[simp] theorem Reading.raised_position (under : OperandStack) (account : σ → τ) (f : Frame) :
    ((Reading.raised under account).top f).position = f.position := rfl

/-- What a run on the raised machine is given. -/
def Setting.raise (s : Setting σ) (under : OperandStack) (checkpoint : Checkpoint τ) :
    Setting τ where
  program := s.program
  host := s.host
  pricing := s.pricing
  checkpoint
  floor := s.floor + under.height

@[simp] theorem Setting.raise_program (s : Setting σ) (under : OperandStack) (d : Checkpoint τ) :
    (s.raise under d).program = s.program := rfl

namespace Machine

open Exec

section Raised

variable (s : Setting σ) (under : OperandStack) {account : σ → τ} {d : Checkpoint τ}

theorem frames_raised (fs : List Frame) :
    (Reading.raised under account).frames fs = fs.map (Frame.raise under.height) := by
  cases fs with
  | nil => rfl
  | cons f fs => rfl

theorem floor_raised (m : Machine σ) :
    floor (s.raise under d) ((Reading.raised under account).machine m)
      = floor s m + under.height := by
  unfold floor
  rw [Reading.machine_top?]
  cases m.frames.top? with
  | none => rfl
  | some f => rfl

/-! ### Returns and branches -/

variable (h : s.checkpoint.FollowsAlong account d)
include h

theorem closeFrame_raised (f : Frame) (fs : List Frame) (m : Machine σ) :
    closeFrame (s.raise under d) (f.raise under.height) (fs.map (Frame.raise under.height))
        ((Reading.raised under account).machine m)
      = (Reading.raised under account).machine (closeFrame s f fs m) := by
  have hframes : Stack.ofItems (fs.map (Frame.raise under.height))
      = .ofItems ((Reading.raised under account).frames fs) := by
    rw [frames_raised]
  exact Machine.ext rfl rfl hframes rfl (h.leaveFrame m.account)

theorem returnFromFrame_raised :
    Follows (Reading.raised under account).machine (returnFromFrame s)
      (returnFromFrame (s.raise under d)) := by
  intro m
  have hframes : ((Reading.raised under account).machine m).frames.items
      = m.frames.items.map (Frame.raise under.height) := frames_raised under m.frames.items
  -- both machines have a frame to close or neither has
  cases hitems : m.frames.items with
  | nil =>
    rw [hitems] at hframes
    rw [returnFromFrame_of_nil s hitems, returnFromFrame_of_nil _ hframes]
    rfl
  | cons f fs =>
    rw [hitems] at hframes
    rw [returnFromFrame_of_cons s hitems, returnFromFrame_of_cons _ hframes,
      closeFrame_raised s under h]
    exact handOver_follows (Reading.raised under account) (f := f) (g := f.raise under.height)
      rfl rfl _

theorem branch_raised (depth : Nat) :
    Follows (Reading.raised under account).machine (branch s depth)
      (branch (s.raise under d) depth) := by
  intro m
  have htop' := (Reading.raised under account).machine_top? m
  cases htop : m.frames.top? with
  | none =>
    rw [htop] at htop'
    rw [branch_of_none s htop, branch_of_none _ htop']
    rfl
  | some f =>
    rw [htop] at htop'
    have hlength : (f.raise under.height).labels.length = f.labels.length := List.length_map ..
    rcases branch_cases f.labels depth with ⟨label, outer, hdrop⟩ | heq | hgt
    · -- a construct of the frame, whose label is raised with it
      have hdrop' : (f.raise under.height).labels.drop depth
          = { label with height := label.height + under.height }
            :: outer.map fun l => { l with height := l.height + under.height } := by
        change (f.labels.map _).drop depth = _
        rw [← List.map_drop, hdrop, List.map_cons]
      rw [branch_of_drop s htop hdrop, branch_of_drop _ htop' hdrop']
      refine ((carry_follows (Reading.raised under account) _ _).bind fun _ =>
        modifyFrame_follows _ ?_) m
      intro f
      rfl
    · -- raising keeps the number of labels, so both branches return
      rw [branch_of_length s htop heq, branch_of_length _ htop' (heq.trans hlength.symm)]
      exact returnFromFrame_raised s under h m
    · rw [branch_of_gt s htop hgt, branch_of_gt _ htop' (hlength.symm ▸ hgt)]
      rfl

/-! ### Calls -/

theorem ask_raised (body : FuncBody) :
    Follows (Reading.raised under account).machine (ask s body) (ask (s.raise under d) body) := by
  have henter := onAccount_follows (Reading.raised under account) h.enterFrame
  have hcharge := onAccount_follows (Reading.raised under account)
    (h.charge (s.pricing.localsCost body.locals.size))
  refine .ite ?_ henter
  exact hcharge.bind fun _ => henter

theorem grant_raised (type : FuncType) (body : FuncBody) :
    Follows (Reading.raised under account).machine (grant s type body)
      (grant (s.raise under d) type body) := by
  intro m
  refine grant_follows s _ _ (floor_raised s under m) (ask_raised s under h) ?_ type body
  -- the caps count frames, and raising adds none
  rw [Stack.height_eq, Stack.height_eq, Reading.machine_items, frames_raised, List.length_map]

omit h in
theorem openFrame_raised (func : Nat) (type : FuncType) (body : FuncBody) (args : List Value)
    (m : Machine σ) :
    openFrame func type body args ((Reading.raised under account).machine m)
      = (Reading.raised under account).machine (openFrame func type body args m) := by
  have hframes : ((Reading.raised under account).machine m).frames.push
        (newFrame func type body args (m.operands.height + under.height))
      = .ofItems ((Reading.raised under account).frames
          (m.frames.push (newFrame func type body args m.operands.height)).items) := by
    apply Stack.ext
    rw [Stack.items_push, Reading.machine_items, Stack.items_ofItems, Stack.items_push,
      frames_raised, frames_raised, List.map_cons]
    rfl
  exact Machine.ext rfl rfl hframes rfl rfl

theorem callGuest_raised (func : Nat) (type : FuncType) (body : FuncBody) :
    Follows (Reading.raised under account).machine (callGuest s func type body)
      (callGuest (s.raise under d) func type body) := by
  rw [callGuest_eq, callGuest_eq]
  exact (grant_raised s under h type body).bind fun args =>
    .modify (openFrame_raised under func type body args)

theorem call_raised (func : Nat) :
    Follows (Reading.raised under account).machine (call s func)
      (call (s.raise under d) func) := by
  unfold call
  rw [Setting.raise_program]
  cases s.program.funcType? func with
  | none => exact trap_follows _ _
  | some type =>
    refine .ite (fun m => callHost_follows s (Reading.raised under account) (s.raise under d)
      (floor_raised s under m) rfl func type) ?_
    cases s.program.body? func with
    | none => exact trap_follows _ _
    | some body => exact callGuest_raised s under h func type body

theorem callIndirect_raised (type slot : Nat) :
    Follows (Reading.raised under account).machine (callIndirect s type slot)
      (callIndirect (s.raise under d) type slot) := by
  rw [callIndirect_eq, callIndirect_eq]
  exact (resolve_follows s _ (s.raise under d) rfl type slot).bind fun func =>
    call_raised s under h func

/-! ### Steps and turns -/

/-- Every instruction without structure, those that jump and call included. -/
theorem stepOp_raised (floor : Nat) (o : Op) :
    Follows (Reading.raised under account).machine (stepOp s floor o)
      (stepOp (s.raise under d) (floor + under.height) o) := by
  cases o with
  | br depth => exact branch_raised s under h depth
  | brIf depth =>
    exact (popI32_follows _ floor).bind fun _ => .ite (branch_raised s under h depth) (.pure ())
  | brTable depths default =>
    exact (popI32_follows _ floor).bind fun _ => branch_raised s under h _
  | ret => exact returnFromFrame_raised s under h
  | call func => exact call_raised s under h func
  | callIndirect type =>
    exact (popI32_follows _ floor).bind fun _ => callIndirect_raised s under h type _
  | _ => exact stepOp_follows _ s _ floor trivial

omit h in
theorem pushLabel_raised (arity target : Nat) :
    Follows (Reading.raised under account).machine (pushLabel arity target)
      (pushLabel arity target) := by
  refine .get_bind fun m => modifyFrame_follows _ ?_
  intro f
  rfl

omit h in
theorem jump_raised (position : Nat) :
    Follows (Reading.raised under account).machine (jump position) (jump position) := by
  refine modifyFrame_follows _ ?_
  intro f
  rfl

theorem step_raised (instr : Instr) :
    Follows (Reading.raised under account).machine (step s instr)
      (step (s.raise under d) instr) := by
  refine .get_bind fun m => ?_
  rw [floor_raised]
  cases instr with
  | op o => exact stepOp_raised s under h _ o
  | block arity endAt => exact pushLabel_raised under arity _
  | loop => exact frame_bind_follows _ fun f => pushLabel_raised under 0 _
  | ifThen arity elseAt endAt =>
    refine (popI32_follows _ _).bind fun _ => .ite (pushLabel_raised under arity _) ?_
    cases elseAt with
    | none => exact jump_raised under _
    | some elseAt => exact (pushLabel_raised under arity _).bind fun _ => jump_raised under _
  | elseJump endAt => exact jump_raised under endAt
  | endMark =>
    refine frame_bind_follows _ fun f => ?_
    obtain ⟨func, position, locals, labels, base, result⟩ := f
    cases labels with
    | nil => exact returnFromFrame_raised s under h
    | cons label outer =>
      refine modifyFrame_follows _ ?_
      intro g
      rfl

omit h in
theorem fetch_raised :
    Follows (Reading.raised under account).machine (fetch s) (fetch (s.raise under d)) := by
  refine frame_bind_follows _ fun f => ?_
  rw [Setting.raise_program, Reading.raised_func, Reading.raised_position]
  cases s.program.body? f.func with
  | none => exact trap_follows _ _
  | some body =>
    dsimp only
    cases body.code[f.position]? with
    | none => exact trap_follows _ _
    | some instr =>
      refine (modifyFrame_follows _ ?_).bind fun _ => .pure instr
      intro g
      rfl

theorem turn_raised :
    Follows (Reading.raised under account).machine (turn s) (turn (s.raise under d)) :=
  (fetch_raised s under).bind fun instr =>
    (onAccount_follows _ (h.charge _)).bind fun _ => step_raised s under h instr

theorem takeTurns_raised (limit : Nat) :
    Follows (Reading.raised under account).machine (takeTurns s limit)
      (takeTurns (s.raise under d) limit) := by
  induction limit with
  | zero =>
    unfold takeTurns
    refine .get_bind fun m => ?_
    rw [Reading.machine_isEmpty]
    exact .ite (.pure ()) (.throw _)
  | succ limit ih =>
    unfold takeTurns
    refine .get_bind fun m => ?_
    rw [Reading.machine_isEmpty]
    exact .ite (.pure ()) ((turn_raised s under h).bind fun _ => ih)

/-! ### Whole runs -/

omit h in
theorem takeResult_raised (type : FuncType) :
    Follows (Reading.raised under account).machine (takeResult s type)
      (takeResult (s.raise under d) type) := by
  unfold takeResult
  cases type.results.head? with
  | none => exact .pure none
  | some expected =>
    exact (pop_follows _ s.floor).bind fun v => .ite (.pure (some v)) (trap_follows _ _)

theorem run_raised (limit func : Nat) (args : List Value) :
    Follows (Reading.raised under account).machine (run s limit func args)
      (run (s.raise under d) limit func args) := by
  unfold run
  rw [Setting.raise_program]
  cases s.program.funcType? func with
  | none => exact trap_follows _ _
  | some type =>
    refine .ite ?_ (trap_follows _ _)
    refine Follows.bind (.modify fun m => ?_) fun _ => (call_raised s under h func).bind fun _ =>
      (takeTurns_raised s under h limit).bind fun _ => takeResult_raised s under type
    rw [Reading.machine_operands, Stack.pushAll_beneath]
    rfl

/-- Closing frames reports as many of them. -/
theorem foldl_leaveFrame (fs : List Frame) (g : Frame → Frame) (a : σ) :
    (fs.map g).foldl (fun a _ => d.leaveFrame a) (account a)
      = account (fs.foldl (fun a _ => s.checkpoint.leaveFrame a) a) := by
  induction fs generalizing a with
  | nil => rfl
  | cons f fs ih =>
    rw [List.map_cons, List.foldl_cons, List.foldl_cons, h.leaveFrame]
    exact ih (s.checkpoint.leaveFrame a)

theorem unwind_raised (m : Machine σ) :
    unwind (s.raise under d) ((Reading.raised under account).machine m)
      = (Reading.raised under account).machine (unwind s m) := by
  refine Machine.ext rfl (Stack.truncate_beneath under m.operands s.floor) rfl rfl ?_
  change ((Reading.raised under account).frames m.frames.items).foldl
    (fun a _ => d.leaveFrame a) (account m.account) = _
  rw [frames_raised]
  exact foldl_leaveFrame s h m.frames.items _ m.account

end Raised

end Machine

/-! ### Invocations -/

/-- What is left of a run when a stack is put beneath its operands and its account is mapped. -/
def Invocation.beneath (under : OperandStack) (account : σ → τ) (r : Invocation σ) :
    Invocation τ where
  outcome := r.outcome
  store := r.store
  operands := under.beneath r.operands
  account := account r.account

/-- **A run on raised operands** leaves what the run leaves, raised. -/
theorem Machine.invoke_raised (s : Setting σ) (under : OperandStack) {account : σ → τ}
    {d : Checkpoint τ} (h : s.checkpoint.FollowsAlong account d) (limit func : Nat)
    (args : List Value) (store : Store) (operands : OperandStack) (a : σ) :
    invoke (s.raise under d) limit func args store (under.beneath operands) (account a)
      = (invoke s limit func args store operands a).beneath under account := by
  have hrun := run_raised s under h limit func args (start store operands a)
  rw [invoke_eq, invoke_eq]
  change settle _ (run _ limit func args ((Reading.raised under account).machine
    (start store operands a))) = _
  rw [hrun]
  cases run s limit func args (start store operands a) with
  | ok result m =>
    rw [mapState_ok]
    unfold settle
    dsimp only
    rw [unwind_raised s under h]
    rfl
  | error stop m =>
    rw [mapState_error]
    cases stop with
    | panic p => rfl
    | trap | turnLimit =>
      unfold settle
      dsimp only
      rw [unwind_raised s under h]
      rfl

/-- A run that does not end in a panic cuts the operands back to its floor. -/
theorem Machine.invoke_height_le (s : Setting σ) (limit func : Nat) (args : List Value)
    (store : Store) (operands : OperandStack) (a : σ)
    (h : ∀ p, (invoke s limit func args store operands a).outcome ≠ .error (.panic p)) :
    (invoke s limit func args store operands a).operands.height ≤ s.floor := by
  -- whatever the run leaves, unwinding cuts it back
  have hcut : ∀ m : Machine σ, (unwind s m).operands.height ≤ s.floor := by
    intro m
    change (m.operands.truncate s.floor).height ≤ s.floor
    rw [Stack.height_truncate]
    exact Nat.min_le_right _ _
  rw [invoke_eq] at h ⊢
  cases hr : run s limit func args (start store operands a) with
  | ok result m => exact hcut m
  | error stop m =>
    rw [hr] at h
    cases stop with
    | panic p => exact absurd rfl (h p)
    | trap | turnLimit => exact hcut m

namespace Instance

variable (i : Instance) (c : Checkpoint σ) (pricing : Pricing) (limit func : Nat)
  (args : List Value)

/-- **A call on a stack** is a call on the empty stack with that stack beneath it. -/
theorem invoke_beneath {account : σ → τ} {d : Checkpoint τ} (h : c.FollowsAlong account d)
    (under : OperandStack) (a : σ) :
    i.invoke d pricing limit func args under (account a)
      = (i.invoke c pricing limit func args .empty a).beneath under account := by
  have hraised := Machine.invoke_raised (i.setting c pricing 0) under h limit func args i.store
    .empty a
  -- the setting of the call on the empty stack, raised, is that of the call on `under`
  have hsetting : (i.setting c pricing 0).raise under d = i.setting d pricing under.height := by
    unfold Setting.raise setting
    rw [Nat.zero_add]
  rw [Stack.beneath_empty, hsetting] at hraised
  exact hraised

/-- The record of a checkpoint changes nothing else. -/
theorem invoke_recorded (operands : OperandStack) (a : σ) :
    let r := i.invoke c.recorded pricing limit func args operands (a, [])
    i.invoke c pricing limit func args operands a
      = { outcome := r.outcome
          store := r.store
          operands := r.operands
          account := r.account.1 } := by
  have hforget := i.invoke_beneath c.recorded pricing limit func args c.recorded_follows operands
    (a, [])
  have hsame := i.invoke_beneath c.recorded pricing limit func args (.refl c.recorded) operands
    (a, [])
  -- on the empty stack the record can be forgotten, and it is put on `operands` in either case
  dsimp only [id] at hforget hsame ⊢
  rw [hforget, hsame]
  rfl

/-- Everything that passes between the machine and the checkpoint in a call, in order. -/
def events (operands : OperandStack) (a : σ) : List Event :=
  (i.invoke c.recorded pricing limit func args operands (a, [])).account.2

theorem events_beneath (under : OperandStack) (a : σ) :
    i.events c pricing limit func args under a = i.events c pricing limit func args .empty a := by
  unfold events
  have h := i.invoke_beneath c.recorded pricing limit func args (.refl c.recorded) under (a, [])
  dsimp only [id] at h
  rw [h]
  rfl

/-- A call panics only if a host function does. -/
theorem exists_host_of_panic {operands : OperandStack} {a : σ} {p : Panic}
    (h : (i.invoke c pricing limit func args operands a).outcome = .error (.panic p)) :
    ∃ f ∈ i.host, ∃ args, f args = .panic p := by
  have hrun := Machine.run_preserves
    (E := fun e => e = .panic p → ∃ f ∈ i.host, ∃ args, f args = .panic p) Store.endures_true
    (fun _ => nofun) (i.setting c pricing operands.height)
    (fun f hf args _ hpanic hp => ⟨f, hf, args, hpanic.trans (congrArg _ (Stop.panic.inj hp))⟩)
    nofun limit func args (Machine.start i.store operands a) trivial
  rw [invoke_eq, Machine.settle_outcome] at h
  cases hr : Machine.run (i.setting c pricing operands.height) limit func args
      (Machine.start i.store operands a) with
  | ok result m =>
    rw [hr] at h
    cases h
  | error stop m =>
    rw [hr] at h hrun
    exact hrun.2 (Except.error.inj h)

/-- A call whose host functions do not panic does not end in a panic. -/
theorem invoke_ne_panic (hhost : ∀ f ∈ i.host, ∀ args p, f args ≠ .panic p)
    (operands : OperandStack) (a : σ) (p : Panic) :
    (i.invoke c pricing limit func args operands a).outcome ≠ .error (.panic p) := by
  intro hpanic
  obtain ⟨f, hf, args', hreply⟩ := i.exists_host_of_panic c pricing limit func args hpanic
  exact hhost f hf args' p hreply

/-- **The frame rule.** What a call does and answers does not depend on the operands that it finds:
on any two stacks it has the same outcome, leaves the same store and the same account, and exchanges
the same events with the checkpoint. And it leaves the operands exactly as it found them, whether it
returns, traps or is refused. -/
theorem invoke_frame (hhost : ∀ f ∈ i.host, ∀ args p, f args ≠ .panic p) (P Q : OperandStack)
    (a : σ) :
    let onP := i.invoke c pricing limit func args P a
    let onQ := i.invoke c pricing limit func args Q a
    onP.outcome = onQ.outcome ∧ onP.store = onQ.store ∧ onP.account = onQ.account ∧
      i.events c pricing limit func args P a = i.events c pricing limit func args Q a ∧
      onP.operands = P ∧ onQ.operands = Q := by
  -- both are the call on the empty stack, which stays empty
  have hbeneath : ∀ under, i.invoke c pricing limit func args under a
      = (i.invoke c pricing limit func args .empty a).beneath under id :=
    fun under => i.invoke_beneath c pricing limit func args (.refl c) under a
  have hempty : (i.invoke c pricing limit func args .empty a).operands = .empty := by
    have hle := Machine.invoke_height_le (i.setting c pricing 0) limit func args i.store .empty a
      (i.invoke_ne_panic c pricing limit func args hhost .empty a)
    apply Stack.ext
    have hlength := (i.invoke c pricing limit func args .empty a).operands.height_eq
    exact List.eq_nil_of_length_eq_zero (hlength.symm.trans (Nat.le_zero.mp hle))
  have hoperands : ∀ under, (i.invoke c pricing limit func args under a).operands = under := by
    intro under
    -- what is left on top of `under` is what is left on the empty stack
    rw [hbeneath under]
    change under.beneath _ = under
    rw [hempty, Stack.beneath_empty]
  refine ⟨?_, ?_, ?_, ?_, hoperands P, hoperands Q⟩
  · rw [hbeneath P, hbeneath Q]
    rfl
  · rw [hbeneath P, hbeneath Q]
    rfl
  · rw [hbeneath P, hbeneath Q]
    rfl
  · rw [events_beneath, events_beneath i c pricing limit func args Q]

/-- An instance whose own function calls the host and then takes a value that it did not put
there. -/
def greedy : Instance where
  program :=
    { source := {}
      signatures := #[some { params := [], results := [] }, some { params := [], results := [] }]
      imported := 1
      bodies := #[{ locals := #[], code := #[.op (.call 0), .op .drop, .endMark] }] }
  host := #[fun _ => .value none]
  store := { memory := none, table := none, globals := #[] }

/-- The value of the caller is out of reach. -/
theorem greedy_invoke_frame :
    let P : OperandStack := .ofItems [.i32 7]
    let call := fun operands =>
      greedy.invoke Budget.checkpoint {} 10 1 [] operands { ink := 100, depth := 1 }
    (∀ f ∈ greedy.host, ∀ args p, f args ≠ .panic p) ∧
      (call P).outcome = (call .empty).outcome ∧ (call P).store = (call .empty).store ∧
      (call P).account = (call .empty).account ∧ (call P).operands = P ∧
      (call P).outcome = .error (.trap (.malformed .stackUnderflow)) := by
  have hhost : ∀ f ∈ greedy.host, ∀ args p, f args ≠ .panic p := by
    intro f hf args p
    rw [Array.mem_singleton.mp hf]
    exact HostReply.noConfusion
  obtain ⟨houtcome, hstore, haccount, -, hoperands, -⟩ := greedy.invoke_frame Budget.checkpoint {}
    10 1 [] hhost (.ofItems [.i32 7]) .empty { ink := 100, depth := 1 }
  exact ⟨hhost, houtcome, hstore, haccount, hoperands, by cbv⟩

end Instance

end MeteredSandbox
