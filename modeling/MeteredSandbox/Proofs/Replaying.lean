import MeteredSandbox.Proofs.Protocol

/-!
# Runs up to a refusal

A checkpoint takes no part in what a machine computes. It can stop a run by a refusal, and that is
all. So there is one **free run** of every call, under a checkpoint that grants everything, and the
run under any other checkpoint is the free run up to the first event that the other one refuses.

To find that event nothing has to be run again: the log of the free run is put before the
checkpoint, event by event (`Checkpoint.replay`). If all of it is granted, the call does what the
free run does (`Instance.invoke_of_granted`); if something is refused, the call ends with that
refusal (`Instance.invoke_of_refused`).

Two runs with different checkpoints have different accounts at every step. The proof avoids this by
a checkpoint whose account is its log, and which answers as `d` would after these events
(`Checkpoint.traced`). With it the two runs are on machines of one type, and are equal up to the
refusal: `Machine.Heeds`, closed under the ways in which actions are put together, and proved of
every action of the machine. That the state of `d` can be told from the log is a fact of its own
(`Instance.invoke_account`), and holds of calls that end in a panic too.
-/

namespace MeteredSandbox

variable {ε σ α β : Type}

/-! ### Accounts that are logs -/

/-- The state that is left behind. -/
def leftState : EStateM.Result ε σ α → σ
  | .ok _ s => s
  | .error _ s => s

/-- A question that is put to the state that a log leads to, with the answer written down in the
log. -/
def traceAnswer (state : List Event → σ) (event : Option Trap → Event)
    (question : EStateM Trap σ Unit) : EStateM Trap (List Event) Unit := fun log =>
  match question (state log) with
  | .ok _ _ => .ok () (log ++ [event none])
  | .error t _ => .error t (log ++ [event (some t)])

namespace Checkpoint

variable (d : Checkpoint σ)

/-- What the checkpoint does at an event. How the event was answered elsewhere does not matter. -/
def meet : Event → EStateM Trap σ Unit
  | .charge cost _ => d.charge cost
  | .enter _ => d.enterFrame
  | .leave => modify d.leaveFrame

/-- **Replaying a log**, up to the first event that is refused. -/
def replay : List Event → EStateM Trap σ Unit
  | [] => pure ()
  | e :: log => do
    d.meet e
    replay log

/-- The state of the checkpoint after a log. -/
def after (a : σ) (log : List Event) : σ := log.foldl (fun a e => leftState (d.meet e a)) a

/-- The checkpoint whose state is its log. It answers as `d` would, if `d` had started from `a`. -/
def traced (a : σ) : Checkpoint (List Event) where
  charge cost := traceAnswer (d.after a) (.charge cost) (d.charge cost)
  enterFrame := traceAnswer (d.after a) .enter d.enterFrame
  leaveFrame log := log ++ [.leave]

/-- The checkpoint that keeps a log and grants everything. -/
def free : Checkpoint (List Event) := unmetered.traced ()

theorem after_append (a : σ) (xs ys : List Event) :
    d.after a (xs ++ ys) = d.after (d.after a xs) ys := List.foldl_append

theorem after_concat (a : σ) (log : List Event) (e : Event) :
    d.after a (log ++ [e]) = leftState (d.meet e (d.after a log)) := d.after_append a log [e]

theorem replay_append (xs ys : List Event) :
    d.replay (xs ++ ys) = (d.replay xs >>= fun _ => d.replay ys) := by
  induction xs with
  | nil => rfl
  | cons e xs ih =>
    change (d.meet e >>= fun _ => d.replay (xs ++ ys))
      = ((d.meet e >>= fun _ => d.replay xs) >>= fun _ => d.replay ys)
    rw [bind_assoc, ih]

/-- A log that is granted leads to the state after it. -/
theorem after_of_replay {log : List Event} {a a' : σ} (h : d.replay log a = .ok () a') :
    d.after a log = a' := by
  induction log generalizing a with
  | nil =>
    cases h
    rfl
  | cons e log ih =>
    unfold replay at h
    rw [bind_apply] at h
    cases hr : d.meet e a with
    | ok x b =>
      rw [hr] at h
      change d.after (leftState (d.meet e a)) log = a'
      rw [hr]
      exact ih h
    | error t b =>
      rw [hr] at h
      cases h

/-- Reports of closed frames are not refused. -/
theorem replay_leaves (count : Nat) (a : σ) :
    d.replay (List.replicate count .leave) a = .ok () (d.leaveFrame^[count] a) := by
  induction count generalizing a with
  | zero => rfl
  | succ count ih => exact ih (d.leaveFrame a)

private theorem traceAnswer_follows {state : List Event → σ} {event : Option Trap → Event}
    {question : EStateM Trap σ Unit}
    (h : ∀ log answer, state (log ++ [event answer]) = leftState (question (state log))) :
    Follows (fun log => (state log, log)) (traceAnswer state event question)
      (recordAnswer event question) := by
  intro log
  have hstate := h log
  cases hr : question (state log) with
  | ok x b =>
    have htrace : traceAnswer state event question log = .ok () (log ++ [event none]) := by
      unfold traceAnswer
      rw [hr]
    rw [hr] at hstate
    rw [htrace, mapState_ok, hstate, recordAnswer_of_ok event hr]
    rfl
  | error t b =>
    have htrace : traceAnswer state event question log = .error t (log ++ [event (some t)]) := by
      unfold traceAnswer
      rw [hr]
    rw [hr] at hstate
    rw [htrace, mapState_error, hstate, recordAnswer_of_error event hr]
    rfl

/-- The state of the checkpoint follows its log. -/
theorem traced_follows (a : σ) :
    FollowsAlong (fun log => (d.after a log, log)) (d.traced a) d.recorded where
  charge _ := traceAnswer_follows fun log _ => d.after_concat a log _
  enterFrame := traceAnswer_follows fun log _ => d.after_concat a log _
  leaveFrame log := Prod.ext (d.after_concat a log .leave).symm rfl

end Checkpoint

/-- What the free run is given: the same, but for the checkpoint. -/
def Setting.freed (s : Setting (List Event)) : Setting (List Event) :=
  { s with checkpoint := .free }

theorem Setting.freed_program (s : Setting (List Event)) : s.freed.program = s.program := rfl

/-! ### Heeding -/

namespace Machine

open Exec

/-- **Heeding a checkpoint.** The action `b`, which is never refused, adds some events to the log.
If `d` grants them all, `a` does what `b` does; otherwise `a` stops with the first refusal, and the
state of `d` is the one that the refusal leaves. -/
def Heeds (d : Checkpoint σ) (init : σ) (a b : Exec (List Event) α) : Prop :=
  ∀ m, ∃ events, (stopped (b m)).account = m.account ++ events ∧
    match d.replay events (d.after init m.account) with
    | .ok _ _ => a m = b m
    | .error t last => ∃ m', a m = .error (.trap t) m' ∧ d.after init m'.account = last ∧
        ¬ Event.Clean m'.account

namespace Heeds

variable {d : Checkpoint σ} {init : σ}

/-- An action that has nothing to do with the account. -/
theorem of_keeps {a : Exec (List Event) α}
    (h : ∀ account, Keeps (fun m => m.account = account) (fun _ => True) a) :
    Heeds d init a a := by
  intro m
  refine ⟨[], ?_, rfl⟩
  have hm := h m.account m rfl
  rw [List.append_nil]
  cases hr : a m with
  | ok x m' =>
    rw [hr] at hm
    exact hm
  | error e m' =>
    rw [hr] at hm
    exact hm.1

theorem bind {a b : Exec (List Event) α} {k l : α → Exec (List Event) β} (h : Heeds d init a b)
    (hk : ∀ x, Heeds d init (k x) (l x)) : Heeds d init (a >>= k) (b >>= l) := by
  intro m
  obtain ⟨events, hevents, hm⟩ := h m
  rw [bind_apply, bind_apply]
  cases hb : b m with
  | error e m' =>
    -- nothing comes after `b`, so what it adds to the log is all
    rw [hb] at hevents hm
    refine ⟨events, hevents, ?_⟩
    cases hr : d.replay events (d.after init m.account) with
    | ok x last =>
      rw [hr] at hm
      dsimp only at hm ⊢
      rw [hm]
    | error t last =>
      rw [hr] at hm
      obtain ⟨m'', ha, hlast⟩ := hm
      exact ⟨m'', by rw [ha], hlast⟩
  | ok x m' =>
    rw [hb] at hevents hm
    obtain ⟨more, hmore, hm'⟩ := hk x m'
    have hm'account : m'.account = m.account ++ events := hevents
    refine ⟨events ++ more, ?_, ?_⟩
    · dsimp only
      rw [hmore, hm'account, List.append_assoc]
    rw [d.replay_append, bind_apply]
    cases hr : d.replay events (d.after init m.account) with
    | ok y last =>
      -- the second part starts where the first leaves the checkpoint
      have hlast : d.after init m'.account = last := by
        rw [hm'account, d.after_append, d.after_of_replay hr]
      rw [hr] at hm
      dsimp only at hm ⊢
      rw [hm]
      rw [hlast] at hm'
      exact hm'
    | error t last =>
      rw [hr] at hm
      obtain ⟨m'', ha, hlast⟩ := hm
      exact ⟨m'', by rw [ha], hlast⟩

theorem get_bind {k l : Machine (List Event) → Exec (List Event) β}
    (h : ∀ m, Heeds d init (k m) (l m)) : Heeds d init (get >>= k) (get >>= l) := fun m => h m m

theorem ite {p : Prop} [Decidable p] {a a' b b' : Exec (List Event) α} (h : Heeds d init a b)
    (h' : Heeds d init a' b') : Heeds d init (if p then a else a') (if p then b else b') := by
  split
  · exact h
  · exact h'

end Heeds

/-! ### Actions of the machine -/

section Actions

variable {d : Checkpoint σ} {init : σ}

private theorem steady_account (account : List Event) :
    Steady (fun m : Machine (List Event) => m.account = account) fun _ => True where
  ordinary _ _ := trivial
  operands _ _ h := h
  memory _ _ h _ := h
  globals _ _ _ h := h
  locals _ _ _ h := h

private theorem trap_heeds (t : Trap) : Heeds d init (trap t : Exec (List Event) α) (trap t) :=
  .of_keeps fun _ => trap_keeps trivial

private theorem pure_heeds (x : α) : Heeds d init (pure x : Exec (List Event) α) (pure x) :=
  .of_keeps fun _ => .pure x

private theorem pop_heeds (floor : Nat) : Heeds d init (pop floor) (pop floor) :=
  .of_keeps fun account => pop_keeps (steady_account account).toIndifferent floor

private theorem popI32_heeds (floor : Nat) : Heeds d init (popI32 floor) (popI32 floor) :=
  .of_keeps fun account => popI32_keeps (steady_account account).toIndifferent floor

private theorem frame_heeds : Heeds d init frame frame :=
  .of_keeps fun _ => frame_keeps fun _ _ _ => trivial

private theorem modifyFrame_heeds (g : Frame → Frame) :
    Heeds d init (modifyFrame g) (modifyFrame g) := by
  refine .of_keeps fun account m hm => ?_
  rw [modifyFrame_apply]
  by_cases hempty : m.frames.isEmpty = true
  · rw [if_pos hempty]
    exact ⟨hm, trivial⟩
  · rw [if_neg hempty]
    exact hm

/-- A question to the checkpoint. The free run writes down that it was granted, and the other run
gets the answer of `d`. -/
private theorem traceAnswer_heeds {question : EStateM Trap σ Unit} (event : Option Trap → Event)
    (hmeet : ∀ answer, d.meet (event answer) = question)
    (hrefusal : ∀ t, (event (some t)).refusal? = some t) :
    Heeds d init (onAccount (traceAnswer (d.after init) event question))
      (onAccount (traceAnswer (Checkpoint.unmetered.after ()) event (pure ()))) := by
  intro m
  have hreplay : d.replay [event none] (d.after init m.account)
      = question (d.after init m.account) := by
    change (d.meet (event none) >>= fun _ => pure ()) _ = _
    rw [hmeet, bind_apply]
    cases question (d.after init m.account) with
    | ok x a => rfl
    | error t a => rfl
  refine ⟨[event none], rfl, ?_⟩
  rw [hreplay]
  unfold onAccount traceAnswer
  cases hr : question (d.after init m.account) with
  | ok x a => rfl
  | error t a =>
    have hafter : d.after init (m.account ++ [event (some t)]) = a := by
      rw [d.after_concat, hmeet, hr]
      rfl
    have hmem : event (some t) ∈ m.account ++ [event (some t)] :=
      List.mem_append_right _ List.mem_cons_self
    refine ⟨_, rfl, hafter, fun hclean => ?_⟩
    cases (hrefusal t).symm.trans (hclean _ hmem)

variable {s : Setting (List Event)} (hs : s.checkpoint = d.traced init)
include hs

private theorem charge_heeds (cost : Nat) :
    Heeds d init (onAccount (s.checkpoint.charge cost))
      (onAccount (s.freed.checkpoint.charge cost)) := by
  rw [hs]
  exact traceAnswer_heeds (.charge cost) (fun _ => rfl) fun _ => rfl

theorem ask_heeds (body : FuncBody) : Heeds d init (ask s body) (ask s.freed body) := by
  have henter : Heeds d init (onAccount s.checkpoint.enterFrame)
      (onAccount s.freed.checkpoint.enterFrame) := by
    rw [hs]
    exact traceAnswer_heeds .enter (fun _ => rfl) fun _ => rfl
  refine .ite ?_ henter
  exact (charge_heeds hs _).bind fun _ => henter

theorem callGuest_heeds (func : Nat) (type : FuncType) (body : FuncBody) :
    Heeds d init (callGuest s func type body) (callGuest s.freed func type body) := by
  have hargs : ∀ floor, Heeds d init (onOperands (Operands.popArgs type.params floor))
      (onOperands (Operands.popArgs type.params floor)) := fun floor =>
    .of_keeps fun account => onOperands_keeps (steady_account account).toIndifferent
      (Operands.popArgs_ordinary _ floor)
  have hgrant : Heeds d init (grant s type body) (grant s.freed type body) :=
    .get_bind fun m => (hargs (floor s m)).bind fun args =>
      .ite (trap_heeds _) ((ask_heeds hs body).bind fun _ => pure_heeds args)
  rw [callGuest_eq, callGuest_eq]
  exact hgrant.bind fun args => .of_keeps fun _ => .modify fun _ h => h

theorem call_heeds (func : Nat) : Heeds d init (call s func) (call s.freed func) := by
  unfold call
  rw [Setting.freed_program]
  cases s.program.funcType? func with
  | none => exact trap_heeds _
  | some type =>
    -- a host function is not told of the checkpoint
    refine .ite (.of_keeps fun account => callHost_keeps s (steady_account account).toIndifferent
      (fun _ => trivial) (fun _ _ _ _ _ => trivial) (fun _ _ _ _ _ => trivial) type) ?_
    cases s.program.body? func with
    | none => exact trap_heeds _
    | some body => exact callGuest_heeds hs func type body

/-- A return reports the frame that it closes, and a report is not refused. -/
theorem returnFromFrame_heeds : Heeds d init (returnFromFrame s) (returnFromFrame s.freed) := by
  intro m
  cases hitems : m.frames.items with
  | nil =>
    rw [returnFromFrame_of_nil s hitems, returnFromFrame_of_nil _ hitems]
    exact ⟨[], (List.append_nil _).symm, rfl⟩
  | cons f fs =>
    have hclose : closeFrame s f fs m = closeFrame s.freed f fs m := by
      unfold closeFrame
      rw [hs]
      rfl
    have hhand : Keeps (fun m' : Machine (List Event) => m'.account = m.account ++ [.leave])
        (fun _ => True) (handOver f) := handOver_keeps (steady_account _).toIndifferent f
    rw [returnFromFrame_of_cons s hitems, returnFromFrame_of_cons _ hitems, hclose]
    refine ⟨[.leave], ?_, rfl⟩
    have hlog := hhand (closeFrame s.freed f fs m) rfl
    cases hr : handOver f (closeFrame s.freed f fs m) with
    | ok x m' =>
      rw [hr] at hlog
      exact hlog
    | error e m' =>
      rw [hr] at hlog
      exact hlog.1

theorem branch_heeds (depth : Nat) : Heeds d init (branch s depth) (branch s.freed depth) := by
  intro m
  cases htop : m.frames.top? with
  | none =>
    rw [branch_of_none s htop, branch_of_none _ htop]
    exact ⟨[], (List.append_nil _).symm, rfl⟩
  | some f =>
    rcases branch_cases f.labels depth with ⟨label, outer, hdrop⟩ | heq | hgt
    · rw [branch_of_drop s htop hdrop, branch_of_drop _ htop hdrop]
      have hcarry : Heeds d init (carry label.arity label.height)
          (carry label.arity label.height) :=
        .of_keeps fun account => carry_keeps (steady_account account).toIndifferent _ _
      exact hcarry.bind (fun _ => modifyFrame_heeds _) m
    · rw [branch_of_length s htop heq, branch_of_length _ htop heq]
      exact returnFromFrame_heeds hs m
    · rw [branch_of_gt s htop hgt, branch_of_gt _ htop hgt]
      exact ⟨[], (List.append_nil _).symm, rfl⟩

theorem stepOp_heeds (floor : Nat) (o : Op) :
    Heeds d init (stepOp s floor o) (stepOp s.freed floor o) := by
  cases o with
  | br depth => exact branch_heeds hs depth
  | brIf depth =>
    exact (popI32_heeds floor).bind fun _ => .ite (branch_heeds hs depth) (pure_heeds ())
  | brTable depths default => exact (popI32_heeds floor).bind fun _ => branch_heeds hs _
  | ret => exact returnFromFrame_heeds hs
  | call func => exact call_heeds hs func
  | callIndirect type =>
    refine (popI32_heeds floor).bind fun slot => ?_
    rw [callIndirect_eq, callIndirect_eq]
    have hresolve : Heeds d init (resolve s type slot.toNat) (resolve s.freed type slot.toNat) :=
      .of_keeps fun _ => resolve_keeps s (fun _ _ => trivial) type slot.toNat
    exact hresolve.bind fun func => call_heeds hs func
  | _ =>
    exact .of_keeps fun account =>
      stepOp_keeps (steady_account account) s floor trivial (.of_trap (fun _ => trivial) _)

theorem step_heeds (instr : Instr) : Heeds d init (step s instr) (step s.freed instr) := by
  have hlabel : ∀ arity target, Heeds d init (pushLabel arity target) (pushLabel arity target) :=
    fun _ _ => .get_bind fun _ => modifyFrame_heeds _
  have hjump : ∀ position, Heeds d init (jump position) (jump position) :=
    fun _ => modifyFrame_heeds _
  refine .get_bind fun m => ?_
  cases instr with
  | op o => exact stepOp_heeds hs _ o
  | block arity endAt => exact hlabel arity _
  | loop => exact frame_heeds.bind fun f => hlabel 0 _
  | ifThen arity elseAt endAt =>
    refine (popI32_heeds _).bind fun _ => .ite (hlabel arity _) ?_
    cases elseAt with
    | none => exact hjump _
    | some elseAt => exact (hlabel arity _).bind fun _ => hjump _
  | elseJump endAt => exact hjump endAt
  | endMark =>
    refine frame_heeds.bind fun f => ?_
    cases f.labels with
    | nil => exact returnFromFrame_heeds hs
    | cons label outer => exact modifyFrame_heeds _

theorem turn_heeds : Heeds d init (turn s) (turn s.freed) := by
  have hfetch : Heeds d init (fetch s) (fetch s.freed) := by
    refine frame_heeds.bind fun f => ?_
    rw [Setting.freed_program]
    cases s.program.body? f.func with
    | none => exact trap_heeds _
    | some body =>
      dsimp only
      cases body.code[f.position]? with
      | none => exact trap_heeds _
      | some instr => exact (modifyFrame_heeds _).bind fun _ => pure_heeds instr
  exact hfetch.bind fun instr => (charge_heeds hs _).bind fun _ => step_heeds hs instr

theorem takeTurns_heeds (limit : Nat) :
    Heeds d init (takeTurns s limit) (takeTurns s.freed limit) := by
  induction limit with
  | zero =>
    unfold takeTurns
    exact .get_bind fun m => .ite (pure_heeds ()) (.of_keeps fun _ => .throw trivial)
  | succ limit ih =>
    unfold takeTurns
    exact .get_bind fun m => .ite (pure_heeds ()) ((turn_heeds hs).bind fun _ => ih)

/-- **A run heeds the checkpoint**: it is the free run, up to the first refusal. -/
theorem run_heeds (limit func : Nat) (args : List Value) :
    Heeds d init (run s limit func args) (run s.freed limit func args) := by
  unfold run
  rw [Setting.freed_program]
  cases s.program.funcType? func with
  | none => exact trap_heeds _
  | some type =>
    refine .ite ?_ (trap_heeds _)
    refine Heeds.bind (.of_keeps fun _ => .modify fun _ h => h) fun _ =>
      (call_heeds hs func).bind fun _ => (takeTurns_heeds hs limit).bind fun _ => ?_
    unfold takeResult
    cases type.results.head? with
    | none => exact pure_heeds none
    | some expected =>
      exact (pop_heeds s.floor).bind fun v => .ite (pure_heeds (some v)) (trap_heeds _)

/-- Closing the frames that are still open is reported to either checkpoint in the same way. -/
theorem settle_freed (r : EStateM.Result Stop (Machine (List Event)) (Option Value)) :
    settle s r = settle s.freed r := by
  have hunwind : unwind s = unwind s.freed := by
    unfold unwind
    rw [hs]
    rfl
  unfold settle
  rw [hunwind]

theorem settle_account (r : EStateM.Result Stop (Machine (List Event)) (Option Value)) :
    ∃ count, (settle s r).account
      = (stopped r).account ++ List.replicate count .leave := by
  have hleave : ∀ log, s.checkpoint.leaveFrame log = log ++ [.leave] := by
    rw [hs]
    exact fun _ => rfl
  have hunwind : ∀ m : Machine (List Event), (unwind s m).account
      = m.account ++ List.replicate m.frames.items.length .leave := fun m =>
    foldl_leaveFrame_log id hleave m.frames.items m.account
  cases r with
  | ok result m => exact ⟨_, hunwind m⟩
  | error stop m =>
    cases stop with
    | panic p => exact ⟨0, (List.append_nil _).symm⟩
    | trap | turnLimit => exact ⟨_, hunwind m⟩

end Actions

end Machine

/-! ### Calls -/

namespace Instance

variable (i : Instance) (d : Checkpoint σ) (pricing : Pricing) (limit func : Nat)
  (args : List Value) (operands : OperandStack) (a : σ)

/-- A call is one whose account is its log, with the state of the checkpoint told from the log. -/
theorem invoke_traced :
    let r := i.invoke (d.traced a) pricing limit func args operands []
    i.invoke d.recorded pricing limit func args operands (a, [])
      = { outcome := r.outcome
          store := r.store
          operands := r.operands
          account := (d.after a r.account, r.account) } := by
  have hmap := i.invoke_beneath (d.traced a) pricing limit func args (d.traced_follows a) operands
    []
  have hsame := i.invoke_beneath (d.traced a) pricing limit func args (.refl (d.traced a)) operands
    []
  dsimp only [id] at hmap hsame ⊢
  rw [hsame]
  exact hmap

theorem events_traced : i.events d pricing limit func args operands a
    = (i.invoke (d.traced a) pricing limit func args operands []).account := by
  unfold events
  rw [invoke_traced]

theorem invoke_eq_traced :
    let r := i.invoke (d.traced a) pricing limit func args operands []
    i.invoke d pricing limit func args operands a
      = { outcome := r.outcome
          store := r.store
          operands := r.operands
          account := d.after a r.account } := by
  intro r
  rw [i.invoke_recorded, invoke_traced]

/-- **The state of the checkpoint** after a call can be told from the log. -/
theorem invoke_account : (i.invoke d pricing limit func args operands a).account
    = d.after a (i.events d pricing limit func args operands a) := by
  rw [invoke_eq_traced, events_traced]

/-- The call whose checkpoint keeps a log and grants everything. -/
def freeCall : Invocation (List Event) :=
  i.invoke .free pricing limit func args operands []

/-- The free call does the same on all stacks. -/
theorem freeCall_beneath (under : OperandStack) :
    i.freeCall pricing limit func args under
      = (i.freeCall pricing limit func args .empty).beneath under id :=
  i.invoke_beneath .free pricing limit func args (.refl .free) under []

/-- What passes between the free call and its checkpoint is the same on all stacks. -/
theorem freeCall_account (under : OperandStack) :
    (i.freeCall pricing limit func args under).account
      = (i.freeCall pricing limit func args .empty).account := by
  rw [freeCall_beneath]
  rfl

theorem freeCall_outcome (under : OperandStack) :
    (i.freeCall pricing limit func args under).outcome
      = (i.freeCall pricing limit func args .empty).outcome := by
  rw [freeCall_beneath]
  rfl

theorem freeCall_store (under : OperandStack) :
    (i.freeCall pricing limit func args under).store
      = (i.freeCall pricing limit func args .empty).store := by
  rw [freeCall_beneath]
  rfl

/-- How a call and the free call part, seen from the log of the free one. -/
private theorem invoke_traced_heeds :
    let free := i.freeCall pricing limit func args operands
    let traced := i.invoke (d.traced a) pricing limit func args operands []
    match d.replay free.account a with
    | .ok _ _ => traced = free
    | .error t last => traced.outcome = .error (.trap t) ∧ ¬ Event.Clean traced.account ∧
        ∃ count, d.after a traced.account = d.leaveFrame^[count] last := by
  intro free traced
  let s := i.setting (d.traced a) pricing operands.height
  have hs : s.checkpoint = d.traced a := rfl
  let m := Machine.start i.store operands ([] : List Event)
  obtain ⟨events, hevents, hrun⟩ := Machine.run_heeds hs limit func args m
  have htraced : traced = Machine.settle s (Machine.run s limit func args m) := rfl
  have hfree : free = Machine.settle s (Machine.run s.freed limit func args m) :=
    (Machine.settle_freed hs _).symm
  obtain ⟨count, hcount⟩ := Machine.settle_account hs (Machine.run s.freed limit func args m)
  have hlog : free.account = events ++ List.replicate count .leave := by
    rw [hfree, hcount, hevents]
    rfl
  change match d.replay events a with | .ok _ _ => _ | .error t last => _ at hrun
  cases hr : d.replay events a with
  | ok x a' =>
    have hgranted : d.replay free.account a = .ok () (d.leaveFrame^[count] a') := by
      rw [hlog, d.replay_append, bind_of_ok hr, d.replay_leaves]
    rw [hr] at hrun
    dsimp only at hrun
    rw [hgranted, htraced, hfree, hrun]
  | error t last =>
    have hrefused : d.replay free.account a = .error t last := by
      rw [hlog, d.replay_append, bind_of_error hr]
    rw [hr] at hrun
    obtain ⟨m', hm', hlast, hclean⟩ := hrun
    obtain ⟨count', hcount'⟩ := Machine.settle_account hs (Machine.run s limit func args m)
    rw [hm'] at htraced hcount'
    rw [hrefused, htraced]
    refine ⟨rfl, fun hall => hclean fun e he => hall e ?_, count', ?_⟩
    · rw [hcount']
      exact List.mem_append_left _ he
    · rw [hcount', d.after_append]
      change d.after (d.after a m'.account) _ = _
      rw [hlast]
      exact d.after_of_replay (d.replay_leaves count' last)

/-- **A call whose events are all granted** is the free call. -/
theorem invoke_of_granted {a' : σ}
    (h : d.replay (i.freeCall pricing limit func args operands).account a = .ok () a') :
    let free := i.freeCall pricing limit func args operands
    i.events d pricing limit func args operands a = free.account ∧
      i.invoke d pricing limit func args operands a
        = { outcome := free.outcome
            store := free.store
            operands := free.operands
            account := a' } := by
  have hparts := i.invoke_traced_heeds d pricing limit func args operands a
  dsimp only at hparts
  rw [h] at hparts
  dsimp only at hparts
  rw [events_traced, i.invoke_eq_traced d, hparts, d.after_of_replay h]
  exact ⟨rfl, rfl⟩

/-- **A call that is refused something** ends with the first refusal. The checkpoint is left as the
refusal leaves it, and is told that the open frames are closed. -/
theorem invoke_of_refused {t : Trap} {last : σ}
    (h : d.replay (i.freeCall pricing limit func args operands).account a = .error t last) :
    ¬ Event.Clean (i.events d pricing limit func args operands a) ∧
      (i.invoke d pricing limit func args operands a).outcome = .error (.trap t) ∧
      ∃ count, (i.invoke d pricing limit func args operands a).account
        = d.leaveFrame^[count] last := by
  have hparts := i.invoke_traced_heeds d pricing limit func args operands a
  dsimp only at hparts
  rw [h] at hparts
  rw [events_traced, i.invoke_eq_traced d]
  exact ⟨hparts.2.1, hparts.1, hparts.2.2⟩

/-- A call that is refused nothing grants all events of the free call. -/
theorem replay_of_clean
    (h : Event.Clean (i.events d pricing limit func args operands a)) :
    ∃ a', d.replay (i.freeCall pricing limit func args operands).account a = .ok () a' := by
  cases hr : d.replay (i.freeCall pricing limit func args operands).account a with
  | ok x a' => exact ⟨a', rfl⟩
  | error t last => exact absurd h (i.invoke_of_refused d pricing limit func args operands a hr).1

end Instance

end MeteredSandbox
