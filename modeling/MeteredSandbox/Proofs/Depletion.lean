import MeteredSandbox.Proofs.Budgets
import MeteredSandbox.Proofs.Entries
import MeteredSandbox.Proofs.Guarding

/-!
# Calls that run out of ink

The ink meter remembers that it has refused a charge. What a call does to this mark can be told from
its outcome: afterwards the meter is exhausted if it was so before, or if the call ran out of ink
(`LinkedProgram.call_status`). Once more no run has to be looked at. A refusal ends the call with
the trap that refuses, and nothing but a refusal ends a call with the trap of exhausted ink, because
the machine raises that trap nowhere and the free call is refused nothing
(`Instance.freeCall_ne_inkExhausted`).

A guest entry that is called on an exhausted meter does not get to its first instruction
(`LinkedProgram.call_of_exhausted`). The order of the requests decides what the embedder is told:
declared locals are paid for before the frame is opened, and that before the first instruction is
paid for. So the call runs out of ink, unless there are no locals to pay for and no frame can be
opened.
-/

namespace MeteredSandbox

variable {σ : Type}

/-! ### The mark on the meter -/

namespace Meters

/-- What becomes of the mark: a refusal for lack of ink sets it, and nothing else changes it. -/
def Marks (m : Meters) : EStateM.Result Trap Meters Unit → Prop
  | .ok _ m' => m'.ink.status = m.ink.status
  | .error t m' => t = .inkExhausted ∧ m'.ink.status = .exhausted ∨
      t = .stackExhausted ∧ m'.ink.status = m.ink.status

/-- A meter that is exhausted refuses every charge, whatever it costs. -/
theorem charge_of_exhausted {m : Meters} (h : m.ink.status = .exhausted) (cost : Nat) :
    charge cost m = .error .inkExhausted m := by
  unfold charge
  rw [InkMeter.charge_of_exhausted h]

theorem charge_marks (cost : Nat) (m : Meters) : m.Marks (charge cost m) := by
  cases hstatus : m.ink.status with
  | exhausted =>
    rw [charge_of_exhausted hstatus]
    exact .inl ⟨rfl, hstatus⟩
  | ready =>
    rcases le_or_gt ((min cost InkMeter.maxCharge : Nat) : Int) m.ink.remaining with hle | hlt
    · rw [charge_of_le hstatus hle]
      exact rfl
    · rw [charge_of_lt hstatus hlt]
      exact .inl ⟨rfl, rfl⟩

theorem enterFrame_marks (m : Meters) : m.Marks (enterFrame m) := by
  rcases Nat.eq_zero_or_pos m.depth.remaining with hzero | hpos
  · rw [enterFrame_of_zero hzero]
    exact .inr ⟨rfl, rfl⟩
  · rw [enterFrame_of_pos hpos]
    exact rfl

/-- **A log that is put before the meters** sets the mark if it is refused for lack of ink. -/
theorem replay_marks (log : List Event) (m : Meters) : m.Marks (checkpoint.replay log m) := by
  induction log generalizing m with
  | nil => exact rfl
  | cons e log ih =>
    have hmeet : m.Marks (checkpoint.meet e m) := by
      cases e with
      | charge cost answer => exact charge_marks cost m
      | enter answer => exact enterFrame_marks m
      | leave => exact rfl
    unfold Checkpoint.replay
    rw [bind_apply]
    cases hr : checkpoint.meet e m with
    | error t m' =>
      rw [hr] at hmeet
      exact hmeet
    | ok x m' =>
      -- the event has left the mark alone, so what follows starts with the same one
      rw [hr] at hmeet
      have hrest := ih m'
      unfold Marks at hmeet hrest
      rw [hmeet] at hrest
      exact hrest

end Meters

/-! ### What a call does to the mark -/

namespace Instance

variable (i : Instance) (hhost : ∀ f ∈ i.host, ∀ args, f args ≠ .trap .inkExhausted)
include hhost

/-- What may stop a free call is not that the ink is exhausted. -/
theorem free_stops (pricing : Pricing) (floor : Nat) :
    (i.setting .free pricing floor).Stops (· ≠ .trap .inkExhausted) where
  own t ht heq := ht (Stop.trap.inj heq)
  charge cost a t a' ht := by cases ht
  enterFrame a t a' ht := by cases ht
  hostTrap f hf args t ht heq := by
    cases heq
    exact hhost f hf args ht
  hostPanic _ _ _ _ _ := Stop.noConfusion
  turnLimit := Stop.noConfusion

/-- **The free call does not run out of ink**, if no host function says so. -/
theorem freeCall_ne_inkExhausted (pricing : Pricing) (limit func : Nat) (args : List Value)
    (operands : OperandStack) :
    (i.freeCall pricing limit func args operands).outcome ≠ .error (.trap .inkExhausted) := by
  intro hexhausted
  have hrun := Machine.run_stops (i.free_stops hhost pricing operands.height) Store.endures_true
    limit func args (Machine.start i.store operands []) trivial
  unfold freeCall at hexhausted
  rw [invoke_eq, Machine.settle_outcome] at hexhausted
  cases hr : Machine.run (i.setting .free pricing operands.height) limit func args
      (Machine.start i.store operands []) with
  | ok result m =>
    rw [hr] at hexhausted
    cases hexhausted
  | error stop m =>
    rw [hr] at hexhausted hrun
    exact hrun.2 (Except.error.inj hexhausted)

end Instance

theorem Outcome.ofResult_eq_inkExhausted {result : Except Stop (Option Value)} :
    ofResult result = .failure .inkExhausted ↔ result = .error (.trap .inkExhausted) := by
  constructor
  · intro h
    unfold ofResult at h
    split at h
    next => cases h
    next t =>
      -- no other trap amounts to the same fault
      cases t <;> cases h
      rfl
    next => cases h
    next => cases h
  · rintro rfl
    rfl

namespace LinkedProgram

/-- **The mark tells how calls have ended.** After a call the meter is exhausted if it was so
before, or if the call ran out of ink. -/
theorem call_status (p : LinkedProgram)
    (hhost : ∀ f ∈ p.guest.host, ∀ args, f args ≠ .trap .inkExhausted) (pricing : Pricing)
    (limit func : Nat) (operands : OperandStack) :
    (p.call pricing limit func operands).2.2.meters.ink.status = .exhausted ↔
      p.meters.ink.status = .exhausted ∨
        (p.call pricing limit func operands).1 = .failure .inkExhausted := by
  change (p.guest.invoke Meters.checkpoint pricing limit func [] operands
      p.meters).account.ink.status = .exhausted ↔ p.meters.ink.status = .exhausted ∨
    Outcome.ofResult (p.guest.invoke Meters.checkpoint pricing limit func [] operands
      p.meters).outcome = .failure .inkExhausted
  rw [Outcome.ofResult_eq_inkExhausted]
  have hmarks := Meters.replay_marks (p.guest.freeCall pricing limit func [] operands).account
    p.meters
  cases hr : Meters.checkpoint.replay (p.guest.freeCall pricing limit func [] operands).account
      p.meters with
  | ok x m' =>
    -- nothing is refused, so the call is the free one
    rw [hr] at hmarks
    rw [(p.guest.invoke_of_granted Meters.checkpoint pricing limit func [] operands p.meters hr).2]
    dsimp only
    rw [show m'.ink.status = p.meters.ink.status from hmarks]
    exact (or_iff_left
      (p.guest.freeCall_ne_inkExhausted hhost pricing limit func [] operands)).symm
  | error t last =>
    rw [hr] at hmarks
    obtain ⟨-, houtcome, count, haccount⟩ :=
      p.guest.invoke_of_refused Meters.checkpoint pricing limit func [] operands p.meters hr
    -- the frames that are closed after the refusal make no difference to the ink
    have hink : (Meters.checkpoint.leaveFrame^[count] last).ink = last.ink :=
      Meters.leaveFrame_iterate_ink count last
    rw [houtcome, haccount, hink]
    rcases hmarks with ⟨rfl, hexhausted⟩ | ⟨rfl, hsame⟩
    · exact iff_of_true hexhausted (.inr rfl)
    · rw [hsame]
      exact (or_iff_left fun h => Trap.noConfusion (Stop.trap.inj (Except.error.inj h))).symm

end LinkedProgram

/-! ### What a run carries out -/

namespace Machine

variable (s : Setting σ)

/-- **The instruction that a turn carries out**: the next one, unless its price is refused. -/
def granted? (m : Machine σ) : Option Instr :=
  (nextInstr? s m).bind fun instr =>
    match s.checkpoint.charge (s.pricing.cost instr) m.account with
    | .ok _ _ => some instr
    | .error _ _ => none

/-- The instructions that a run carries out, in order. -/
def executed (limit func : Nat) (args : List Value) (m : Machine σ) : List Instr :=
  (runHistory s limit func args m).filterMap (granted? s)

variable {s} {m : Machine σ} {instr : Instr}

section Refusal

variable (hnext : nextInstr? s m = some instr) {t : Trap} {account : σ}
  (hcharge : s.checkpoint.charge (s.pricing.cost instr) m.account = .error t account)
include hnext hcharge

theorem granted?_of_refused : granted? s m = none := by
  unfold granted?
  rw [hnext, Option.bind_some, hcharge]

/-- A turn that is refused the price of its instruction stops there. -/
theorem turn_of_refused : turn s m = .error (.trap t) { m.advance with account } := by
  have hrefused : Exec.onAccount (s.checkpoint.charge (s.pricing.cost instr)) m.advance
      = .error (.trap t) { m.advance with account } := Exec.onAccount_of_error hcharge
  rw [turn_of_next s hnext]
  exact bind_of_error hrefused _

end Refusal

/-- A turn whose price is paid carries out its instruction. -/
theorem turn_of_paid (hnext : nextInstr? s m = some instr) {account : σ}
    (hcharge : s.checkpoint.charge (s.pricing.cost instr) m.account = .ok () account) :
    turn s m = step s instr { m.advance with account } := by
  have hpaid : Exec.onAccount (s.checkpoint.charge (s.pricing.cost instr)) m.advance
      = .ok () { m.advance with account } := Exec.onAccount_of_ok hcharge
  rw [turn_of_next s hnext]
  exact bind_of_ok hpaid _

/-- **What a turn carries out**, if anything, is a step of the machine. Otherwise the turn stops,
and the store stays. -/
theorem turn_of_granted (s : Setting σ) (m : Machine σ) : match granted? s m with
    | some instr => ∃ account, turn s m = step s instr { m.advance with account }
    | none => ∃ e m', turn s m = .error e m' ∧ m'.store = m.store := by
  unfold granted?
  cases hnext : nextInstr? s m with
  | none =>
    obtain ⟨e, he⟩ := fetch_of_next_none s hnext
    exact ⟨e, m, bind_of_error he _, rfl⟩
  | some instr =>
    rw [Option.bind_some]
    cases hcharge : s.checkpoint.charge (s.pricing.cost instr) m.account with
    | error t account => exact ⟨_, _, turn_of_refused hnext hcharge, rfl⟩
    | ok x account => exact ⟨account, turn_of_paid hnext hcharge⟩

end Machine

/-! ### Guest entries on exhausted meters -/

namespace Machine

section Asking

variable {s : Setting Meters} (hs : s.checkpoint = Meters.checkpoint) {m : Machine Meters}
  {body : FuncBody}
include hs

/-- Locals are paid for, if there are any, and that is refused on an exhausted meter. -/
theorem ask_of_locals (hm : m.account.ink.status = .exhausted) (hlocals : body.locals.size ≠ 0) :
    ask s body m = .error (.trap .inkExhausted) m := by
  have hcharge : Exec.onAccount (s.checkpoint.charge (s.pricing.localsCost body.locals.size)) m
      = .error (.trap .inkExhausted) m := by
    rw [hs]
    exact Exec.onAccount_of_error (Meters.charge_of_exhausted hm _)
  unfold ask
  rw [if_pos hlocals]
  exact bind_of_error hcharge _

variable (hlocals : body.locals.size = 0)
include hlocals

/-- Without locals the first thing to be asked for is the frame. -/
theorem ask_of_no_depth (hdepth : m.account.depth.remaining = 0) :
    ask s body m = .error (.trap .stackExhausted) m := by
  unfold ask
  rw [if_neg (not_not.mpr hlocals), hs]
  exact Exec.onAccount_of_error (Meters.enterFrame_of_zero hdepth)

theorem ask_of_depth (hdepth : 0 < m.account.depth.remaining) : ask s body m
    = .ok () { m with account := m.account.withDepth (m.account.depth.remaining - 1) } := by
  unfold ask
  rw [if_neg (not_not.mpr hlocals), hs]
  exact Exec.onAccount_of_ok (Meters.enterFrame_of_pos hdepth)

end Asking

variable {s : Setting σ} {func : Nat} {type : FuncType} {body : FuncBody}
  (h : s.program.Entry func type body)
include h

/-- A guest entry has no arguments to be taken. -/
theorem opening?_of_entry (m : Machine σ) : opening? s func [] m = some m := by
  unfold opening?
  rw [h.signature]
  dsimp only
  rw [h.params, List.map_nil, if_pos rfl]
  rfl

/-- A run of a guest entry begins with its call. -/
theorem run_of_entry (m : Machine σ) : ∃ type : FuncType, ∀ limit, run s limit func [] m
    = ((call s func >>= fun _ => takeTurns s limit) >>= fun _ => takeResult s type) m :=
  run_of_opening s (opening?_of_entry h m)

/-- What a run of a guest entry carries out, the turns after its call do. -/
theorem executed_of_entry (limit : Nat) (m : Machine σ) : executed s limit func [] m
    = (callHistory s limit func m).filterMap (granted? s) := by
  unfold executed runHistory
  rw [opening?_of_entry h m]

/-- A guest entry that is called from outside asks the checkpoint, and then its frame is opened:
there are no arguments to be taken, and no cap is reached. -/
theorem call_of_entry {operands : OperandStack} (hfloor : s.floor = operands.height) (store : Store)
    (a : σ) : call s func (start store operands a)
      = (ask s body >>= fun _ => modify (openFrame func type body [])) (start store operands a) := by
  have hargs : Operands.popArgs type.params (floor s (start store operands a)) operands
      = .ok [] operands := by
    change Operands.popArgs type.params s.floor operands = _
    unfold Operands.popArgs
    rw [h.params, hfloor, List.length_nil, Nat.add_zero, if_neg (Nat.lt_irrefl _)]
    change EStateM.Result.ok [] (operands.truncate operands.height) = _
    rw [Stack.truncate, dif_pos (Nat.le_refl _)]
  have hcaps : ¬ (start store operands a).Exhausted (([] : List Value).length + body.locals.size) := by
    have hlocals : body.locals.size ≤ 50000 := h.locals
    change ¬ (100000 ≤ 0 ∨ 1048576 < 0 + (0 + body.locals.size))
    omega
  have hgrant : grant s type body (start store operands a)
      = (ask s body >>= fun _ => pure []) (start store operands a) := by
    unfold grant
    rw [get_bind_apply, bind_of_ok (Exec.onOperands_of_ok hargs)]
    exact congrFun (if_neg hcaps) _
  rw [call_of_body s h.signature h.own h.compiled, callGuest_eq, bind_apply, hgrant, ← bind_apply,
    bind_assoc]
  rfl

/-- A frame that has just been opened has an instruction before it. -/
theorem exists_nextInstr?_openFrame (args : List Value) (m : Machine σ) :
    ∃ instr, nextInstr? s (openFrame func type body args m) = some instr := by
  change ∃ instr, (s.program.body? func).bind (fun body => body.code[0]?) = some instr
  rw [h.compiled]
  exact ⟨_, Array.getElem?_eq_getElem h.code⟩

end Machine

namespace Instance

/-- The instructions that a call carries out, in order. -/
def executed (i : Instance) (c : Checkpoint σ) (pricing : Pricing) (limit func : Nat)
    (args : List Value) (operands : OperandStack) (a : σ) : List Instr :=
  Machine.executed (i.setting c pricing operands.height) limit func args
    (Machine.start i.store operands a)

/-- What is left of a call that ends before its first instruction. -/
structure Refused (i : Instance) (pricing : Pricing) (limit func : Nat) (operands : OperandStack)
    (m : Meters) (t : Trap) : Prop where
  outcome : (i.invoke Meters.checkpoint pricing limit func [] operands m).outcome
    = .error (.trap t)
  store : (i.invoke Meters.checkpoint pricing limit func [] operands m).store = i.store
  ink : (i.invoke Meters.checkpoint pricing limit func [] operands m).account.ink = m.ink
  executed : i.executed Meters.checkpoint pricing limit func [] operands m = []

section Refused

variable {i : Instance} {pricing : Pricing} {limit func : Nat} {operands : OperandStack} {m : Meters}

/-- A run that has stopped where neither store nor ink had changed. -/
theorem refused_of_run {t : Trap} {stop : Machine Meters}
    (hrun : Machine.run (i.setting Meters.checkpoint pricing operands.height) limit func []
      (Machine.start i.store operands m) = .error (.trap t) stop)
    (hstore : stop.store = i.store) (hink : stop.account.ink = m.ink)
    (hexecuted : i.executed Meters.checkpoint pricing limit func [] operands m = []) :
    i.Refused pricing limit func operands m t := by
  have hinvoke := i.invoke_eq Meters.checkpoint pricing limit func [] operands m
  rw [hrun, Machine.settle_of_error _ fun _ => Stop.noConfusion] at hinvoke
  -- closing the frames that are open makes no difference to the ink
  have hclosed : (Machine.unwind (i.setting Meters.checkpoint pricing operands.height)
      stop).account.ink = stop.account.ink := by
    change (stop.frames.items.foldl (fun a _ => Meters.leaveFrame a) stop.account).ink = _
    rw [List.foldl_const, Meters.leaveFrame_iterate_ink]
  constructor
  · rw [hinvoke]
  · rw [hinvoke]
    exact hstore
  · rw [hinvoke]
    exact hclosed.trans hink
  · exact hexecuted

variable {type : FuncType} {body : FuncBody} (h : i.program.Entry func type body)
  (hm : m.ink.status = .exhausted)
include h

/-- A guest entry whose call is refused. -/
theorem refused_of_call {t : Trap} {stop : Machine Meters}
    (hcall : Machine.call (i.setting Meters.checkpoint pricing operands.height) func
      (Machine.start i.store operands m) = .error (.trap t) stop)
    (hstore : stop.store = i.store) (hink : stop.account.ink = m.ink) :
    i.Refused pricing limit func operands m t := by
  obtain ⟨type, hrun⟩ := Machine.run_of_entry
    (s := i.setting Meters.checkpoint pricing operands.height) h (Machine.start i.store operands m)
  have hstop := hrun limit
  rw [bind_of_error (bind_of_error hcall _)] at hstop
  refine refused_of_run hstop hstore hink ?_
  -- no turn begins
  have hturns : Machine.callHistory (i.setting Meters.checkpoint pricing operands.height) limit func
      (Machine.start i.store operands m) = [] := by
    unfold Machine.callHistory
    rw [hcall]
  unfold executed
  rw [Machine.executed_of_entry h, hturns, List.filterMap_nil]

/-- A guest entry whose first instruction is refused. -/
theorem refused_of_turn (hlimit : 0 < limit) {t : Trap} {opened : Machine Meters} {instr : Instr}
    {f : Frame} {fs : List Frame}
    (hcall : Machine.call (i.setting Meters.checkpoint pricing operands.height) func
      (Machine.start i.store operands m) = .ok () opened)
    (hitems : opened.frames.items = f :: fs)
    (hnext : Machine.nextInstr? (i.setting Meters.checkpoint pricing operands.height) opened
      = some instr)
    (hcharge : Meters.charge (pricing.cost instr) opened.account = .error t opened.account)
    (hstore : opened.store = i.store) (hink : opened.account.ink = m.ink) :
    i.Refused pricing limit func operands m t := by
  obtain ⟨limit, rfl⟩ := Nat.exists_eq_succ_of_ne_zero hlimit.ne'
  obtain ⟨type, hrun⟩ := Machine.run_of_entry
    (s := i.setting Meters.checkpoint pricing operands.height) h (Machine.start i.store operands m)
  have hturn := Machine.turn_of_refused hnext hcharge
  have hturns : (Machine.call (i.setting Meters.checkpoint pricing operands.height) func
        >>= fun _ => Machine.takeTurns (i.setting Meters.checkpoint pricing operands.height)
          (limit + 1)) (Machine.start i.store operands m)
      = .error (.trap t) { opened.advance with account := opened.account } := by
    rw [bind_of_ok hcall, Machine.takeTurns_succ _ hitems, bind_of_error hturn]
  have hstop := hrun (limit + 1)
  rw [bind_of_error hturns] at hstop
  refine refused_of_run hstop hstore hink ?_
  -- the one turn that begins carries out nothing
  have hhistory : Machine.callHistory (i.setting Meters.checkpoint pricing operands.height)
      (limit + 1) func (Machine.start i.store operands m) = [opened] := by
    unfold Machine.callHistory
    rw [hcall]
    dsimp only
    rw [Machine.history_succ _ hitems, hturn]
  have hgranted := Machine.granted?_of_refused hnext hcharge
  unfold executed
  rw [Machine.executed_of_entry h, hhistory, List.filterMap_cons_none hgranted, List.filterMap_nil]

include hm

/-- **A guest entry on an exhausted meter** does not get to its first instruction. -/
theorem refused_of_exhausted (hlimit : 0 < limit) : i.Refused pricing limit func operands m
    (if body.locals.size = 0 ∧ m.depth.remaining = 0 then .stackExhausted else .inkExhausted) := by
  have hcall := Machine.call_of_entry (s := i.setting Meters.checkpoint pricing operands.height) h
    rfl i.store m
  by_cases hlocals : body.locals.size = 0
  · rcases Nat.eq_zero_or_pos m.depth.remaining with hzero | hpos
    · -- no frame can be opened
      rw [if_pos ⟨hlocals, hzero⟩]
      rw [bind_of_error (Machine.ask_of_no_depth rfl hlocals hzero)] at hcall
      exact refused_of_call h hcall rfl rfl
    · -- the frame is opened, and then the first instruction is to be paid for
      rw [if_neg fun hno => hpos.ne' hno.2]
      rw [bind_of_ok (Machine.ask_of_depth rfl hlocals hpos)] at hcall
      obtain ⟨instr, hnext⟩ := Machine.exists_nextInstr?_openFrame
        (s := i.setting Meters.checkpoint pricing operands.height) h [] _
      have hopened : (m.withDepth (m.depth.remaining - 1)).ink.status = .exhausted := hm
      have hcharge := Meters.charge_of_exhausted hopened (pricing.cost instr)
      exact refused_of_turn h hlimit hcall rfl hnext hcharge rfl rfl
  · rw [if_neg fun hno => hlocals hno.1]
    rw [bind_of_error (Machine.ask_of_locals rfl hm hlocals)] at hcall
    exact refused_of_call h hcall rfl rfl

end Refused

end Instance

namespace LinkedProgram

/-- The instructions that a call carries out, in order. -/
def executed (p : LinkedProgram) (pricing : Pricing) (limit func : Nat) (operands : OperandStack) :
    List Instr :=
  p.guest.executed Meters.checkpoint pricing limit func [] operands p.meters

/-- **A guest entry on an exhausted meter** fails, carries out no instruction, and leaves the linked
program as it is. It runs out of stack if it declares no locals and no frame can be opened, and out
of ink otherwise. -/
theorem call_of_exhausted {p : LinkedProgram} {func : Nat} {type : FuncType} {body : FuncBody}
    (h : p.guest.program.Entry func type body) (hstatus : p.meters.ink.status = .exhausted)
    (pricing : Pricing) {limit : Nat} (hlimit : 0 < limit) (operands : OperandStack) :
    (p.call pricing limit func operands).1 = .failure (if body.locals.size = 0 ∧
        p.meters.depth.remaining = 0 then .stackExhausted else .inkExhausted) ∧
      p.executed pricing limit func operands = [] ∧
      (p.call pricing limit func operands).2.2 = p := by
  have hrefused : p.guest.Refused pricing limit func operands p.meters _ :=
    Instance.refused_of_exhausted h hstatus hlimit
  refine ⟨?_, hrefused.executed, ?_⟩
  · change Outcome.ofResult (p.guest.invoke Meters.checkpoint pricing limit func [] operands
      p.meters).outcome = _
    rw [hrefused.outcome]
    split
    · rfl
    · rfl
  · have hguest : (p.call pricing limit func operands).2.2.guest = p.guest :=
      congrArg (fun store => { p.guest with store }) hrefused.store
    have hmeters : (p.call pricing limit func operands).2.2.meters = p.meters :=
      congrArg₂ Meters.mk hrefused.ink (p.call_depth pricing limit func operands)
    calc (p.call pricing limit func operands).2.2
        = { entry := p.entry
            guest := (p.call pricing limit func operands).2.2.guest
            meters := (p.call pricing limit func operands).2.2.meters } := rfl
      _ = p := by rw [hguest, hmeters]

end LinkedProgram

end MeteredSandbox
