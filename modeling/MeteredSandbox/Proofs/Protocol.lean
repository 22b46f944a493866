import MeteredSandbox.Proofs.Billing
import MeteredSandbox.Proofs.Framing

/-!
# The protocol with the checkpoint

What a whole call exchanges with its checkpoint, whatever that answers (`Instance.invoke_protocol`):
every frame that was opened with leave is closed and reported, and none is reported that was not
opened; a refusal ends the call with the trap that refuses, and what was refused has no effect; and
the call asks for what is due in each of its turns, one after another, and for nothing else.

The turns of a run are the states in which they begin (`Machine.history`). Each of them carries the
log up to there, since the log is part of the account, so the order of requests and turns can be
read off the history. The proof adds up what single turns ask for (`Machine.turn_accounted`) over
the history. In the end the frames that are still open are closed, which balances the log.
-/

namespace MeteredSandbox

variable {σ α β : Type}

namespace Machine

open Exec

section History

variable (s : Setting σ)

/-- The states in which the turns begin that `takeTurns` takes from a machine. -/
def history : Nat → Machine σ → List (Machine σ)
  | 0, _ => []
  | limit + 1, m =>
    if m.frames.isEmpty then []
    else
      m :: match turn s m with
        | .ok _ m' => history limit m'
        | .error _ _ => []

/-- The states in which the turns begin after a call. -/
def callHistory (limit func : Nat) (m : Machine σ) : List (Machine σ) :=
  match call s func m with
  | .ok _ m' => history s limit m'
  | .error _ _ => []

/-- The machine when `func` is called from outside, if the arguments fit. -/
def opening? (func : Nat) (args : List Value) (m : Machine σ) : Option (Machine σ) :=
  match s.program.funcType? func with
  | some type =>
    if args.map Value.type = type.params then
      some { m with operands := m.operands.pushAll args }
    else none
  | none => none

/-- What is asked before the first turn of a run. -/
def openingDues (func : Nat) (args : List Value) (m : Machine σ) : List Event.Request :=
  match opening? s func args m with
  | some m' => callRequests s m' func
  | none => []

/-- The states in which the turns of a run begin. -/
def runHistory (limit func : Nat) (args : List Value) (m : Machine σ) : List (Machine σ) :=
  match opening? s func args m with
  | some m' => callHistory s limit func m'
  | none => []

theorem history_of_nil {m : Machine σ} (h : m.frames.items = []) (limit : Nat) :
    history s limit m = [] := by
  have hempty : m.frames.isEmpty = true := List.isEmpty_iff.mpr h
  cases limit with
  | zero => rfl
  | succ limit =>
    unfold history
    rw [if_pos hempty]

theorem history_succ {m : Machine σ} {f : Frame} {fs : List Frame}
    (h : m.frames.items = f :: fs) (limit : Nat) :
    history s (limit + 1) m = m :: match turn s m with
      | .ok _ m' => history s limit m'
      | .error _ _ => [] := by
  rw [history, if_neg (Stack.not_isEmpty_of_cons h)]

/-- A run from where its function is called. -/
theorem run_of_opening {func : Nat} {args : List Value} {m m' : Machine σ}
    (h : opening? s func args m = some m') :
    ∃ type : FuncType, ∀ limit, run s limit func args m
      = ((call s func >>= fun _ => takeTurns s limit) >>= fun _ => takeResult s type) m' := by
  unfold opening? at h
  cases htype : s.program.funcType? func with
  | none =>
    rw [htype] at h
    cases h
  | some type =>
    rw [htype] at h
    dsimp only at h
    split at h
    next hargs =>
      cases h
      refine ⟨type, fun limit => ?_⟩
      unfold run
      rw [htype]
      dsimp only
      rw [if_pos hargs, bind_assoc]
      rfl
    next => cases h

/-- A run whose function is not called. -/
theorem run_of_opening_none {func : Nat} {args : List Value} {m : Machine σ}
    (h : opening? s func args m = none) (limit : Nat) :
    ∃ t, run s limit func args m = .error (.trap t) m := by
  unfold opening? at h
  unfold run
  cases htype : s.program.funcType? func with
  | none => exact ⟨_, rfl⟩
  | some type =>
    rw [htype] at h
    dsimp only at h ⊢
    split at h
    next => cases h
    next hargs =>
      rw [if_neg hargs]
      exact ⟨_, rfl⟩

end History

/-! ### Runs -/

section Runs

variable {m m' : Machine (σ × List Event)} {due : List Event.Request}
  {before before' : Option (Machine (σ × List Event))}

/-- The machine that is left behind. -/
def stopped : EStateM.Result Stop (Machine σ) α → Machine σ
  | .ok _ m => m
  | .error _ m => m

theorem Accounted.log_extends {r : EStateM.Result Stop (Machine (σ × List Event)) α}
    (h : Accounted due before m r) : m.account.2 <+: (stopped r).account.2 := by
  cases r with
  | ok x m' =>
    obtain ⟨events, hbooks, -⟩ := h
    exact ⟨events, hbooks.log.symm⟩
  | error e m' =>
    obtain ⟨events, hbooks, -⟩ := h
    exact ⟨events, hbooks.log.symm⟩

theorem Accounted.mono {r : EStateM.Result Stop (Machine (σ × List Event)) α}
    (hbefore : ∀ b, before = some b → before' = some b) (h : Accounted due before m r) :
    Accounted due before' m r := by
  cases r with
  | ok x m' => exact h
  | error e m' =>
    obtain ⟨events, hbooks, hgranted | ⟨t, he, hrefused, hbegins, b, hb, huntouched⟩⟩ := h
    · exact ⟨events, hbooks, .inl hgranted⟩
    · exact ⟨events, hbooks, .inr ⟨t, he, hrefused, hbegins, b, hbefore b hb, huntouched⟩⟩

/-- What is due has been asked for, and then comes something that has nothing to do with the
checkpoint. -/
theorem Accounted.bind_quiet {a : Exec (σ × List Event) α} {k : α → Exec (σ × List Event) β}
    (h : Accounted due before m (a m)) (hk : ∀ x m', Keeps (Quiet m') (fun _ => True) (k x)) :
    Accounted due before m ((a >>= k) m) := by
  rw [bind_apply]
  cases hr : a m with
  | ok x m' =>
    rw [hr] at h
    obtain ⟨events, hbooks, hclean, rfl⟩ := h
    have hquiet : Accounted [] before m' (k x m') := .of_quiet (hk x m')
    have hboth := hquiet.after hbooks hclean
    rw [List.append_nil] at hboth
    exact hboth
  | error e m' =>
    rw [hr] at h
    exact h

private theorem getLast?_cons_of_eq_some {a b : α} {xs : List α} (h : xs.getLast? = some b) :
    (a :: xs).getLast? = some b := by
  rw [List.getLast?_cons, h, Option.getD_some]

variable {c : Checkpoint σ} {s : Setting (σ × List Event)} (hs : s.checkpoint = c.recorded)
include hs

/-- **All turns together** ask for what is due in each of them, in order. The induction is on the
bound on turns, and a turn that does not stop is put in front of those that follow. -/
theorem takeTurns_accounted (limit : Nat) (m : Machine (σ × List Event)) :
    Accounted ((history s limit m).flatMap (dues s)) (history s limit m).getLast? m
      (takeTurns s limit m) := by
  induction limit generalizing m with
  | zero =>
    cases hitems : m.frames.items with
    | nil =>
      rw [takeTurns_of_nil s hitems]
      exact ⟨[], .refl m, Event.clean_nil, rfl⟩
    | cons f fs =>
      -- the bound stops the run, and asks for nothing
      rw [takeTurns_zero s hitems]
      exact .of_error_quiet _ ⟨rfl, rfl⟩
  | succ limit ih =>
    cases hitems : m.frames.items with
    | nil =>
      rw [history_of_nil s hitems, takeTurns_of_nil s hitems]
      exact ⟨[], .refl m, Event.clean_nil, rfl⟩
    | cons f fs =>
      have hturn := turn_accounted hs m
      rw [history_succ s hitems, takeTurns_succ s hitems, bind_apply, List.flatMap_cons]
      cases hr : turn s m with
      | ok x m' =>
        rw [hr] at hturn
        obtain ⟨events, hbooks, hclean, hrequests⟩ := hturn
        rw [← hrequests]
        exact ((ih m').mono fun b hb => getLast?_cons_of_eq_some hb).after hbooks hclean
      | error e m' =>
        -- the turn that stops is the last one
        rw [hr] at hturn
        dsimp only
        rw [List.flatMap_nil, List.append_nil]
        exact hturn

/-- A call asks for what is due at once and then for what is due in each turn. -/
theorem call_takeTurns_accounted {m b : Machine (σ × List Event)} (hb : Untouched b m)
    (limit func : Nat) :
    Accounted (callRequests s m func ++ (callHistory s limit func m).flatMap (dues s))
      (b :: callHistory s limit func m).getLast? m
      ((call s func >>= fun _ => takeTurns s limit) m) := by
  have hcall := call_accounted hs hb func
  unfold callHistory
  rw [bind_apply]
  cases hr : call s func m with
  | ok x m' =>
    rw [hr] at hcall
    obtain ⟨events, hbooks, hclean, hrequests⟩ := hcall
    rw [← hrequests]
    exact ((takeTurns_accounted hs limit m').mono fun _ hlast =>
      getLast?_cons_of_eq_some hlast).after hbooks hclean
  | error e m' =>
    -- no turn begins, so what stays untouched is what was there before the call
    rw [hr] at hcall
    dsimp only
    rw [List.flatMap_nil, List.append_nil]
    exact hcall

omit hs in
theorem takeResult_quiet (type : FuncType) (m : Machine (σ × List Event)) :
    Keeps (Quiet m) (fun _ => True) (takeResult s type) := by
  unfold takeResult
  cases type.results.head? with
  | none => exact .pure none
  | some expected =>
    exact (pop_keeps (quiet_indifferent m) s.floor).bind fun v =>
      .ite (fun _ => .pure (some v)) fun _ => trap_keeps trivial

omit hs in
/-- Putting the arguments in place asks for nothing. -/
theorem opening?_eq_some {func : Nat} {args : List Value}
    (h : opening? s func args m = some m') : Untouched m m' ∧ Books [] m m' := by
  unfold opening? at h
  split at h
  · split at h
    · cases h
      exact ⟨⟨rfl, rfl⟩, ⟨(List.append_nil _).symm, rfl⟩⟩
    · cases h
  · cases h

/-- **A run** asks for what is due when its function is called and in each of its turns. -/
theorem run_accounted (limit func : Nat) (args : List Value) (m : Machine (σ × List Event)) :
    Accounted
      (openingDues s func args m ++ (runHistory s limit func args m).flatMap (dues s))
      (m :: runHistory s limit func args m).getLast? m (run s limit func args m) := by
  unfold openingDues runHistory
  cases hopening : opening? s func args m with
  | none =>
    obtain ⟨t, ht⟩ := run_of_opening_none s hopening limit
    rw [ht]
    exact .of_error_quiet _ ⟨rfl, rfl⟩
  | some m' =>
    obtain ⟨huntouched, hbooks⟩ := opening?_eq_some hopening
    obtain ⟨type, htype⟩ := run_of_opening s hopening
    have hcall := call_takeTurns_accounted hs huntouched limit func
    rw [htype limit]
    exact (hcall.bind_quiet fun _ => takeResult_quiet type).after hbooks Event.clean_nil

/-- Up to the beginning of a turn, what was due in the turns before has been asked for. -/
theorem history_requests {limit k : Nat} {m turn : Machine (σ × List Event)}
    (hturn : (history s limit m)[k]? = some turn) :
    turn.account.2 <+: (stopped (takeTurns s limit m)).account.2 ∧
      Event.requests turn.account.2
        = Event.requests m.account.2 ++ ((history s limit m).take k).flatMap (dues s) := by
  induction limit generalizing m k with
  | zero => cases hturn
  | succ limit ih =>
    have hlog := (takeTurns_accounted hs (limit + 1) m).log_extends
    cases hitems : m.frames.items with
    | nil =>
      rw [history_of_nil s hitems] at hturn
      cases hturn
    | cons f fs =>
      rw [history_succ s hitems] at hturn ⊢
      cases k with
      | zero =>
        -- the first turn begins where the run does
        cases hturn
        exact ⟨hlog, (List.append_nil _).symm⟩
      | succ k =>
        have haccounted := turn_accounted hs m
        rw [takeTurns_succ s hitems, bind_apply]
        cases hr : Machine.turn s m with
        | error e m' =>
          rw [hr] at hturn
          cases hturn
        | ok x m' =>
          -- all later turns come after what the first one has asked for
          rw [hr] at hturn haccounted
          obtain ⟨events, hbooks, -, hrequests⟩ := haccounted
          obtain ⟨hbegins, hsofar⟩ := ih hturn
          refine ⟨hbegins, ?_⟩
          calc Event.requests turn.account.2
              = Event.requests m'.account.2
                  ++ ((history s limit m').take k).flatMap (dues s) := hsofar
            _ = Event.requests m.account.2 ++ dues s m
                  ++ ((history s limit m').take k).flatMap (dues s) := by
                rw [hbooks.log, Event.requests_append, hrequests]
            _ = Event.requests m.account.2
                  ++ ((m :: history s limit m').take (k + 1)).flatMap (dues s) := by
                rw [List.append_assoc, List.take_succ_cons, List.flatMap_cons]

/-- Up to the beginning of a turn of a run, what was due before has been asked for. -/
theorem runHistory_requests {limit func k : Nat} {args : List Value}
    {m turn : Machine (σ × List Event)}
    (hturn : (runHistory s limit func args m)[k]? = some turn) :
    turn.account.2 <+: (stopped (run s limit func args m)).account.2 ∧
      Event.requests turn.account.2 = Event.requests m.account.2 ++
        (openingDues s func args m
          ++ ((runHistory s limit func args m).take k).flatMap (dues s)) := by
  unfold openingDues runHistory at *
  cases hopening : opening? s func args m with
  | none =>
    rw [hopening] at hturn
    cases hturn
  | some m' =>
    rw [hopening] at hturn
    dsimp only at hturn ⊢
    obtain ⟨huntouched, hbooks⟩ := opening?_eq_some hopening
    obtain ⟨type, htype⟩ := run_of_opening s hopening
    have hcall := call_accounted hs huntouched func
    rw [htype limit, bind_apply, bind_apply]
    unfold callHistory at hturn ⊢
    cases hr : call s func m' with
    | error e m'' =>
      rw [hr] at hturn
      cases hturn
    | ok x m'' =>
      rw [hr] at hturn hcall
      obtain ⟨events, hcalled, -, hrequests⟩ := hcall
      obtain ⟨hbegins, hsofar⟩ := history_requests hs hturn
      refine ⟨hbegins.trans ?_, ?_⟩
      · -- taking the result adds nothing to the log
        dsimp only
        cases hturns : takeTurns s limit m'' with
        | error e stop => exact List.prefix_rfl
        | ok x stop =>
          have hresult : Accounted [] none stop (takeResult s type stop) :=
            .of_quiet (takeResult_quiet type stop)
          exact hresult.log_extends
      · calc Event.requests turn.account.2
            = Event.requests m''.account.2
                ++ ((history s limit m'').take k).flatMap (dues s) := hsofar
          _ = Event.requests m'.account.2 ++ callRequests s m' func
                ++ ((history s limit m'').take k).flatMap (dues s) := by
              rw [hcalled.log, Event.requests_append, hrequests]
          _ = Event.requests m.account.2 ++ (callRequests s m' func
                ++ ((history s limit m'').take k).flatMap (dues s)) := by
              rw [hbooks.log, List.append_nil, List.append_assoc]

omit hs in
/-- Accounting for a result, whichever it is. -/
theorem Accounted.summary {r : EStateM.Result Stop (Machine (σ × List Event)) α}
    (h : Accounted due before m r) :
    ∃ events, Books events m (stopped r) ∧ Event.requests events <+: due ∧
      (Event.Clean events ∧ Event.requests events = due ∨
        ∃ t, r = .error (.trap t) (stopped r) ∧ Event.EndsRefused t events ∧
          ∃ b, before = some b ∧ Untouched b (stopped r)) := by
  cases r with
  | ok x m' =>
    obtain ⟨events, hbooks, hclean, hrequests⟩ := h
    exact ⟨events, hbooks, hrequests ▸ List.prefix_rfl, .inl ⟨hclean, hrequests⟩⟩
  | error e m' =>
    obtain ⟨events, hbooks, ⟨hclean, hrequests⟩ | ⟨t, rfl, hrefused, hbegins, hb⟩⟩ := h
    · exact ⟨events, hbooks, hrequests ▸ List.prefix_rfl, .inl ⟨hclean, hrequests⟩⟩
    · exact ⟨events, hbooks, hbegins, .inr ⟨t, rfl, hrefused, hb⟩⟩

section FromStart

variable {r : EStateM.Result Stop (Machine (σ × List Event)) α} (hm : m.account.2 = [])
include hm

omit hs in
/-- Closing the frames that are still open balances the log of a run. -/
theorem Accounted.balanced (hempty : m.frames.items = []) (h : Accounted due before m r) :
    Event.levels 0 ((stopped r).account.2 ++ List.replicate (stopped r).frames.height .leave)
      = some 0 := by
  obtain ⟨events, hbooks, -⟩ := h.summary
  have hlevels := hbooks.levels
  rw [Stack.height_eq, hempty, List.length_nil] at hlevels
  calc Event.levels 0 ((stopped r).account.2 ++ List.replicate (stopped r).frames.height .leave)
      = Event.levels 0 (events ++ List.replicate (stopped r).frames.height .leave) := by
        rw [hbooks.log, hm, List.nil_append]
    _ = Event.levels (stopped r).frames.height
          (List.replicate (stopped r).frames.height .leave) := by
        rw [Event.levels_append, hlevels, Option.bind_some]
    _ = some 0 := Event.levels_replicate _

omit hs in
/-- What a run asked for. -/
theorem Accounted.requests (h : Accounted due before m r) :
    Event.requests (stopped r).account.2 <+: due ∧
      (Event.Clean (stopped r).account.2 → Event.requests (stopped r).account.2 = due) := by
  obtain ⟨events, hbooks, hbegins, hcases⟩ := h.summary
  rw [hbooks.log, hm, List.nil_append]
  refine ⟨hbegins, fun hclean => ?_⟩
  rcases hcases with ⟨-, hall⟩ | ⟨t, -, ⟨granted, e, rfl, -, he⟩, -⟩
  · exact hall
  · rw [hclean e (List.mem_append_right _ List.mem_cons_self)] at he
    cases he

omit hs in
/-- Where a run was refused. -/
theorem Accounted.of_refused (h : Accounted due before m r) {count : Nat} {prior after : List Event}
    {e : Event} {t : Trap} (he : e.refusal? = some t)
    (hlog : (stopped r).account.2 ++ List.replicate count .leave = prior ++ e :: after) :
    (∀ e' ∈ after, e' = .leave) ∧ r = .error (.trap t) (stopped r) ∧
      ∃ b, before = some b ∧ Untouched b (stopped r) := by
  obtain ⟨events, hbooks, -, hcases⟩ := h.summary
  rw [hbooks.log, hm, List.nil_append] at hlog
  rcases hcases with ⟨hclean, -⟩ | ⟨t', hrun, ⟨granted, e', rfl, hgranted, he'⟩, hb⟩
  · -- nothing was refused in the run, and closing frames is never refused
    have hmem : e ∈ events ++ List.replicate count .leave := by
      rw [hlog]
      exact List.mem_append_right _ List.mem_cons_self
    rw [hclean.append (Event.clean_replicate_leave count) e hmem] at he
    cases he
  · -- the refusal in the log is the one that ended the run
    rw [List.append_assoc] at hlog
    obtain ⟨rfl, rfl⟩ := Event.refused_unique hgranted (Event.clean_replicate_leave count) hlog he
    rw [he] at he'
    cases he'
    exact ⟨fun e' he' => List.eq_of_mem_replicate he', hrun, hb⟩

end FromStart

omit hs in
/-- Frames that are closed in the end are reported one by one. -/
theorem foldl_leaveFrame_log {leave : σ → σ} (log : σ → List Event)
    (h : ∀ a, log (leave a) = log a ++ [.leave]) (fs : List Frame) (a : σ) :
    log (fs.foldl (fun a _ => leave a) a) = log a ++ List.replicate fs.length .leave := by
  induction fs generalizing a with
  | nil => exact (List.append_nil _).symm
  | cons f fs ih =>
    rw [List.foldl_cons, ih, h, List.length_cons, List.replicate_succ]
    exact List.append_assoc (log a) [.leave] _

/-- After anything but a panic, the frames that are still open are closed and reported. -/
theorem settle_log {r : EStateM.Result Stop (Machine (σ × List Event)) (Option Value)}
    (h : ∀ p, (settle s r).outcome ≠ .error (.panic p)) :
    (settle s r).account.2
      = (stopped r).account.2 ++ List.replicate (stopped r).frames.height .leave := by
  have hleave : ∀ a, (s.checkpoint.leaveFrame a).2 = a.2 ++ [.leave] := by
    rw [hs]
    exact fun _ => rfl
  have hunwind : ∀ m : Machine (σ × List Event), (unwind s m).account.2
      = m.account.2 ++ List.replicate m.frames.height .leave := fun m => by
    rw [Stack.height_eq]
    exact foldl_leaveFrame_log Prod.snd hleave m.frames.items m.account
  cases r with
  | ok result m => exact hunwind m
  | error stop m =>
    cases stop with
    -- a panic leaves the frames open, and is excluded
    | panic p => exact absurd rfl (h p)
    | trap t => exact hunwind m
    | turnLimit => exact hunwind m

end Runs

end Machine

/-! ### Calls -/

namespace Instance

section Events

variable (i : Instance) (c : Checkpoint σ) (pricing : Pricing) (limit func : Nat)
  (args : List Value) (operands : OperandStack) (a : σ)

/-- What the run of a call comes to when its checkpoint keeps a record. -/
def recordedRun : EStateM.Result Stop (Machine (σ × List Event)) (Option Value) :=
  Machine.run (i.setting c.recorded pricing operands.height) limit func args
    (Machine.start i.store operands (a, []))

theorem invoke_outcome : (i.invoke c pricing limit func args operands a).outcome
    = (Machine.settle (i.setting c.recorded pricing operands.height)
        (i.recordedRun c pricing limit func args operands a)).outcome := by
  rw [i.invoke_recorded c pricing limit func args operands a]
  rfl

theorem invoke_store : (i.invoke c pricing limit func args operands a).store
    = (Machine.settle (i.setting c.recorded pricing operands.height)
        (i.recordedRun c pricing limit func args operands a)).store := by
  rw [i.invoke_recorded c pricing limit func args operands a]
  rfl

theorem recordedRun_accounted :
    let s := i.setting c.recorded pricing operands.height
    let m := Machine.start i.store operands (a, [])
    Machine.Accounted
      (Machine.openingDues s func args m
        ++ (Machine.runHistory s limit func args m).flatMap (Machine.dues s))
      (m :: Machine.runHistory s limit func args m).getLast? m
      (i.recordedRun c pricing limit func args operands a) :=
  Machine.run_accounted rfl limit func args _

variable (hreturn : ∀ p, (i.invoke c pricing limit func args operands a).outcome
  ≠ .error (.panic p))
include hreturn

/-- The events of a call are those of its run, and the frames that are closed in the end. -/
theorem events_eq : i.events c pricing limit func args operands a
    = (Machine.stopped (i.recordedRun c pricing limit func args operands a)).account.2
      ++ List.replicate
        (Machine.stopped (i.recordedRun c pricing limit func args operands a)).frames.height
        .leave := by
  rw [invoke_outcome] at hreturn
  exact Machine.settle_log rfl hreturn

/-- Every frame that is opened is closed, and none before it is opened. -/
theorem levels_events :
    Event.levels 0 (i.events c pricing limit func args operands a) = some 0 := by
  rw [i.events_eq c pricing limit func args operands a hreturn]
  exact (i.recordedRun_accounted c pricing limit func args operands a).balanced rfl rfl

/-- After a refusal frames are closed and nothing else happens. -/
theorem events_refused {before after : List Event} {e : Event} {t : Trap}
    (hsplit : i.events c pricing limit func args operands a = before ++ e :: after)
    (he : e.refusal? = some t) :
    let s := i.setting c.recorded pricing operands.height
    let m := Machine.start i.store operands (a, [])
    (∀ e' ∈ after, e' = .leave) ∧
      (i.invoke c pricing limit func args operands a).outcome = .error (.trap t) ∧
      ∃ stop, i.recordedRun c pricing limit func args operands a = .error (.trap t) stop ∧
        Machine.Untouched ((Machine.runHistory s limit func args m).getLast?.getD m) stop ∧
        (i.invoke c pricing limit func args operands a).store = stop.store := by
  intro s m
  have haccounted := i.recordedRun_accounted c pricing limit func args operands a
  rw [i.events_eq c pricing limit func args operands a hreturn] at hsplit
  obtain ⟨hafter, hrun, b, hb, huntouched⟩ := haccounted.of_refused rfl he hsplit
  -- `b` is where the last turn began, or where the run started if no turn did
  rw [List.getLast?_cons] at hb
  cases hb
  refine ⟨hafter, ?_, _, hrun, huntouched, ?_⟩
  · rw [invoke_outcome, Machine.settle_outcome, hrun]
  · rw [invoke_store, Machine.settle_store, hrun]
    rfl

/-- Closing frames asks for nothing. -/
theorem requests_events : Event.requests (i.events c pricing limit func args operands a)
    = Event.requests
        (Machine.stopped (i.recordedRun c pricing limit func args operands a)).account.2 := by
  rw [i.events_eq c pricing limit func args operands a hreturn, Event.requests_append,
    Event.requests_replicate_leave, List.append_nil]

end Events

/-- **The protocol of a call** that does not end in a panic, whatever the checkpoint answers.

* As many frames are closed as were opened with leave, and at no time more.
* After a refusal frames are closed and nothing else happens. The call ends with the trap that
  refuses, and leaves the store and the locals of all frames as they were when the turn began.
* What is asked for is what is due when the function is called and then in each turn, in this order,
  up to the refusal if there is one. When a turn begins, what was due before has been asked for,
  and nothing else. -/
theorem invoke_protocol (i : Instance) (c : Checkpoint σ) (pricing : Pricing) (limit func : Nat)
    (args : List Value) (operands : OperandStack) (a : σ)
    (hreturn : ∀ p,
      (i.invoke c pricing limit func args operands a).outcome ≠ .error (.panic p)) :
    let log := i.events c pricing limit func args operands a
    let s := i.setting c.recorded pricing operands.height
    let m := Machine.start i.store operands (a, [])
    let opening := Machine.openingDues s func args m
    let turns := Machine.runHistory s limit func args m
    (log.count .leave = log.countP Event.isEntry ∧
      ∀ before, before <+: log → before.count .leave ≤ before.countP Event.isEntry) ∧
    (∀ before e after t, log = before ++ e :: after → e.refusal? = some t →
      (∀ e' ∈ after, e' = .leave) ∧
        (i.invoke c pricing limit func args operands a).outcome = .error (.trap t) ∧
        ∃ stop, Machine.run s limit func args m = .error (.trap t) stop ∧
          Machine.Untouched (turns.getLast?.getD m) stop ∧
          (i.invoke c pricing limit func args operands a).store = stop.store) ∧
    (Event.requests log <+: opening ++ turns.flatMap (Machine.dues s) ∧
      (Event.Clean log → Event.requests log = opening ++ turns.flatMap (Machine.dues s)) ∧
      ∀ k turn, turns[k]? = some turn → turn.account.2 <+: log ∧
        Event.requests turn.account.2 = opening ++ (turns.take k).flatMap (Machine.dues s)) := by
  intro log s m opening turns
  have haccounted := i.recordedRun_accounted c pricing limit func args operands a
  have hlevels : Event.levels 0 log = some 0 :=
    i.levels_events c pricing limit func args operands a hreturn
  have hlog : log = _ := i.events_eq c pricing limit func args operands a hreturn
  have hrequests := i.requests_events c pricing limit func args operands a hreturn
  refine ⟨⟨?_, fun before hbefore => Event.count_leave_le hlevels hbefore⟩,
    fun before e after t hsplit he =>
      i.events_refused c pricing limit func args operands a hreturn hsplit he, ?_, ?_, ?_⟩
  · have hcount := Event.levels_count hlevels
    omega
  · exact hrequests ▸ (haccounted.requests rfl).1
  · intro hclean
    refine hrequests.trans ((haccounted.requests rfl).2 fun e he => hclean e ?_)
    rw [hlog]
    exact List.mem_append_left _ he
  · intro k turn hturn
    obtain ⟨hbefore, hsofar⟩ := Machine.runHistory_requests rfl hturn
    refine ⟨?_, hsofar⟩
    rw [hlog]
    exact hbefore.trans (List.prefix_append _ _)

/-- An instance whose first function calls the second, which declares a local. -/
def frugal : Instance where
  program :=
    { source := {}
      signatures := #[some { params := [], results := [] }, some { params := [], results := [] }]
      imported := 0
      bodies := #[
        { locals := #[], code := #[.op (.call 1), .endMark] },
        { locals := #[.i32], code := #[.endMark] }] }
  host := #[]
  store := { memory := none, table := none, globals := #[] }

/-- The ink is spent when the first function comes to its end, which is refused. -/
theorem frugal_invoke_protocol :
    let account : Budget := { ink := 7, depth := 2 }
    let log := frugal.events Budget.checkpoint {} 10 0 [] .empty account
    let outcome := (frugal.invoke Budget.checkpoint {} 10 0 [] .empty account).outcome
    (∀ p, outcome ≠ .error (.panic p)) ∧
      log = [.enter none, .charge 5 none, .charge 1 none, .enter none, .charge 1 none, .leave,
        .charge 1 (some .inkExhausted), .leave] ∧
      log.count .leave = log.countP Event.isEntry ∧
      outcome = .error (.trap .inkExhausted) := by
  have houtcome : (frugal.invoke Budget.checkpoint {} 10 0 [] .empty
      { ink := 7, depth := 2 }).outcome = .error (.trap .inkExhausted) := by cbv
  have hreturn : ∀ p, (frugal.invoke Budget.checkpoint {} 10 0 [] .empty
      { ink := 7, depth := 2 }).outcome ≠ .error (.panic p) := by
    intro p hpanic
    rw [houtcome] at hpanic
    cases hpanic
  obtain ⟨⟨hbalanced, -⟩, -⟩ := frugal.invoke_protocol Budget.checkpoint {} 10 0 [] .empty
    { ink := 7, depth := 2 } hreturn
  exact ⟨hreturn, by cbv, hbalanced, houtcome⟩

end Instance

end MeteredSandbox
