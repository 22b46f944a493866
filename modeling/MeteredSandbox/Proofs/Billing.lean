import MeteredSandbox.Proofs.Control
import MeteredSandbox.Proofs.Keeping
import MeteredSandbox.Proofs.Recording

/-!
# What a turn asks of the checkpoint

The requests that a turn makes are determined by the state in which it begins (`Machine.dues`): the
price of its instruction, and if that calls a function of the program's own whose arguments are
there and for which there is room, the price of the declared locals and leave to open a frame.
Nothing is asked for a host function.

`Machine.Accounted` says of a part of a run that it asked for what was due, in that order, unless it
was refused; that a refusal was the last thing that happened and left the store and all locals as
they had been (`Machine.Untouched`); and that frames were opened and closed as the events say
(`Machine.Books`). The number of open frames is the number of entries that have been granted less
the number of frames that have been closed, at every point of the log (`Event.levels`). This is
proved of every action of the machine, up to a turn (`Machine.turn_accounted`).
-/

namespace MeteredSandbox

variable {σ α β : Type}

/-! ### Logs -/

namespace Event

/-- What a machine may ask of its checkpoint. -/
inductive Request where
  | charge (cost : Nat)
  | enter
  deriving DecidableEq

/-- What is asked, if the event is a question. -/
def request? : Event → Option Request
  | charge cost _ => some (.charge cost)
  | enter _ => some .enter
  | leave => none

/-- The trap that refuses, if the event is a question and refused. -/
def refusal? : Event → Option Trap
  | charge _ refusal => refusal
  | enter refusal => refusal
  | leave => none

/-- Whether leave to open a frame was asked for and given. -/
def isEntry : Event → Bool
  | enter none => true
  | _ => false

/-- What is asked in a log, in order. -/
def requests (log : List Event) : List Request := log.filterMap request?

/-- Nothing in the log is refused. -/
def Clean (log : List Event) : Prop := ∀ e ∈ log, e.refusal? = none

/-- The log ends where something is refused, for the first time. -/
def EndsRefused (t : Trap) (log : List Event) : Prop :=
  ∃ granted e, log = granted ++ [e] ∧ Clean granted ∧ e.refusal? = some t

/-- The number of open frames after an event. No frame can be closed when none is open. -/
def level : Nat → Event → Option Nat
  | depth, enter none => some (depth + 1)
  | 0, leave => none
  | depth + 1, leave => some depth
  | depth, _ => some depth

/-- The number of open frames after a log. -/
def levels (depth : Nat) (log : List Event) : Option Nat := log.foldlM level depth

theorem requests_append (xs ys : List Event) : requests (xs ++ ys) = requests xs ++ requests ys :=
  List.filterMap_append

theorem clean_nil : Clean [] := fun _ he => absurd he List.not_mem_nil

theorem Clean.append {xs ys : List Event} (hxs : Clean xs) (hys : Clean ys) : Clean (xs ++ ys) := by
  intro e he
  rcases List.mem_append.mp he with he | he
  · exact hxs e he
  · exact hys e he

theorem clean_singleton {e : Event} (h : e.refusal? = none) : Clean [e] := by
  intro e' he
  rw [List.mem_singleton.mp he]
  exact h

theorem EndsRefused.of_singleton {t : Trap} {e : Event} (h : e.refusal? = some t) :
    EndsRefused t [e] := ⟨[], e, rfl, clean_nil, h⟩

theorem EndsRefused.append {t : Trap} {xs ys : List Event} (hxs : Clean xs)
    (hys : EndsRefused t ys) : EndsRefused t (xs ++ ys) := by
  obtain ⟨granted, e, rfl, hgranted, he⟩ := hys
  exact ⟨xs ++ granted, e, (List.append_assoc ..).symm, hxs.append hgranted, he⟩

theorem levels_append (depth : Nat) (xs ys : List Event) :
    levels depth (xs ++ ys) = (levels depth xs).bind fun depth' => levels depth' ys :=
  List.foldlM_append

/-- Frames are opened and closed one at a time. -/
theorem levels_count {depth depth' : Nat} {log : List Event} (h : levels depth log = some depth') :
    depth + log.countP isEntry = depth' + log.count .leave := by
  induction log generalizing depth with
  | nil =>
    cases h
    rfl
  | cons e log ih =>
    obtain ⟨next, hnext, hlog⟩ := Option.bind_eq_some_iff.mp
      ((List.foldlM_cons (f := level)).symm.trans h)
    have hcount := ih hlog
    rw [List.countP_cons, List.count_cons]
    -- a granted entry adds one to both sides, a closed frame takes one from the depth
    cases e with
    | charge cost refusal =>
      cases hnext
      exact hcount
    | enter refusal =>
      cases refusal with
      | none =>
        have hnext : depth + 1 = next := Option.some.inj hnext
        change depth + (log.countP isEntry + 1) = depth' + (log.count .leave + 0)
        omega
      | some t =>
        cases hnext
        exact hcount
    | leave =>
      cases depth with
      | zero => cases hnext
      | succ depth =>
        have hnext : depth = next := Option.some.inj hnext
        change depth + 1 + (log.countP isEntry + 0) = depth' + (log.count .leave + 1)
        omega

/-- At no point have more frames been closed than opened. -/
theorem count_leave_le {depth : Nat} {log before : List Event} (h : levels 0 log = some depth)
    (hbefore : before <+: log) : before.count .leave ≤ before.countP isEntry := by
  obtain ⟨after, rfl⟩ := hbefore
  rw [levels_append] at h
  obtain ⟨depth', hdepth, -⟩ := Option.bind_eq_some_iff.mp h
  have hcount := levels_count hdepth
  omega

/-- Closing all frames that are open. -/
theorem levels_replicate (depth : Nat) : levels depth (List.replicate depth .leave) = some 0 := by
  induction depth with
  | zero => rfl
  | succ depth ih => exact ih

theorem clean_replicate_leave (count : Nat) : Clean (List.replicate count .leave) := by
  intro e he
  rw [List.eq_of_mem_replicate he]
  rfl

theorem requests_replicate_leave (count : Nat) : requests (List.replicate count .leave) = [] := by
  refine List.filterMap_eq_nil_iff.mpr fun e he => ?_
  rw [List.eq_of_mem_replicate he]
  rfl

/-- There is one place only in a log where something is refused, if all else is clean. -/
theorem refused_unique {granted closing before after : List Event} {e e' : Event} {t : Trap}
    (hgranted : Clean granted) (hclosing : Clean closing)
    (h : granted ++ e' :: closing = before ++ e :: after) (he : e.refusal? = some t) :
    e' = e ∧ closing = after := by
  have hnot : ∀ {log : List Event}, Clean log → e ∉ log := fun hclean hmem => by
    rw [hclean e hmem] at he
    cases he
  rcases List.append_eq_append_iff.mp h with ⟨more, rfl, hmore⟩ | ⟨more, rfl, hmore⟩
  · cases more with
    | nil => exact List.cons.inj hmore
    | cons d more =>
      -- the refusal would come after the first one, where only frames are closed
      have hmem : e ∈ closing := by
        rw [(List.cons.inj hmore).2]
        exact List.mem_append_right _ List.mem_cons_self
      exact absurd hmem (hnot hclosing)
  · cases more with
    | nil => exact ⟨(List.cons.inj hmore).1.symm, (List.cons.inj hmore).2.symm⟩
    | cons d more =>
      -- the refusal would come before the first one, where everything is granted
      have hmem : e ∈ before ++ d :: more := by
        rw [(List.cons.inj hmore).1]
        exact List.mem_append_right _ List.mem_cons_self
      exact absurd hmem (hnot hgranted)

end Event

/-! ### Paying -/

namespace Reading

/-- The reading of a machine that moves past an instruction and pays for it. -/
def paid (account : σ) : Reading σ σ where
  under := .empty
  top f := { f with position := f.position + 1 }
  below := id
  account _ := account
  top_locals _ := rfl
  top_withLocals _ _ := rfl

theorem machine_paid (m : Machine σ) (account : σ) :
    (paid account).machine m = { m.advance with account } := by
  have hframes : ((paid account).machine m).frames = m.advance.frames := by
    apply Stack.ext
    rw [machine_items]
    change _ = (m.frames.modifyTop _).items
    rw [Stack.items_modifyTop]
    cases m.frames.items with
    | nil => rfl
    | cons f fs => rfl
  exact Machine.ext rfl (Stack.empty_beneath m.operands) hframes rfl rfl

theorem height_paid (m : Machine σ) (account : σ) :
    ((paid account).machine m).frames.height = m.frames.height := by
  rw [machine_paid]
  exact Stack.height_modifyTop ..

end Reading

/-! ### What is due -/

/-- What is asked when the function is called: the price of the declared locals, if there are any,
and leave to open a frame. The price is that of one local times their number, and `2 ^ 64 - 1` if
that is more. -/
def FuncBody.requests (pricing : Pricing) (body : FuncBody) : List Event.Request :=
  if body.locals.size ≠ 0 then
    [.charge (min (pricing.perLocal * body.locals.size) 0xFFFF_FFFF_FFFF_FFFF), .enter]
  else [.enter]

namespace Machine

open Exec

section Dues

variable (s : Setting σ) (m : Machine σ)

/-- What is asked when `func` is called: nothing if it is a host function or the call fails by
itself. -/
def callRequests (func : Nat) : List Event.Request :=
  match s.program.funcType? func, s.program.body? func with
  | some type, some body =>
    match Operands.popArgs type.params (floor s m) m.operands with
    | .ok args _ =>
      if m.Exhausted (args.length + body.locals.size) then [] else body.requests s.pricing
    | .error _ _ => []
  | _, _ => []

/-- What an instruction asks for beyond its price. -/
def stepRequests : Instr → List Event.Request
  | .op (.call func) => callRequests s m func
  | .op (.callIndirect type) =>
    match (popI32 (floor s m) >>= fun slot => resolve s type slot.toNat : Exec σ Nat) m with
    | .ok func m' => callRequests s m' func
    | .error _ _ => []
  | _ => []

/-- **What is due** in the next turn. -/
def dues : List Event.Request :=
  match nextInstr? s m with
  | some instr => .charge (s.pricing.cost instr) :: stepRequests s m instr
  | none => []

end Dues

/-! ### Accounts -/

/-- The machine has the store that another had, and the locals of all frames. -/
structure Untouched (before m : Machine σ) : Prop where
  store : m.store = before.store
  locals : m.frames.items.map Frame.locals = before.frames.items.map Frame.locals

/-- Between two machines lie the given events, and frames were opened and closed accordingly. -/
structure Books (events : List Event) (m m' : Machine (σ × List Event)) : Prop where
  log : m'.account.2 = m.account.2 ++ events
  levels : Event.levels m.frames.height events = some m'.frames.height

/-- **Accounting** for what an action came to. Everything that was due has been asked for and was
granted; or the last thing that was asked for was refused, and that is why the action stopped,
with the machine as it was `before` in store and locals. -/
def Accounted (due : List Event.Request) (before : Option (Machine (σ × List Event)))
    (m : Machine (σ × List Event)) : EStateM.Result Stop (Machine (σ × List Event)) α → Prop
  | .ok _ m' => ∃ events, Books events m m' ∧ Event.Clean events ∧ Event.requests events = due
  | .error e m' => ∃ events, Books events m m' ∧
      (Event.Clean events ∧ Event.requests events = due ∨
        ∃ t, e = .trap t ∧ Event.EndsRefused t events ∧ Event.requests events <+: due ∧
          ∃ b, before = some b ∧ Untouched b m')

section Accounts

variable {m m' b : Machine (σ × List Event)} {due : List Event.Request}
  {before : Option (Machine (σ × List Event))}

theorem Books.refl (m : Machine (σ × List Event)) : Books [] m m :=
  ⟨(List.append_nil _).symm, rfl⟩

theorem Books.trans {m'' : Machine (σ × List Event)} {xs ys : List Event} (h : Books xs m m')
    (h' : Books ys m' m'') : Books (xs ++ ys) m m'' where
  log := by rw [h'.log, h.log, List.append_assoc]
  levels := by rw [Event.levels_append, h.levels, Option.bind_some, h'.levels]

/-- What comes after something that was granted. -/
theorem Accounted.after {events : List Event} (hbooks : Books events m m')
    (hclean : Event.Clean events) {r : EStateM.Result Stop (Machine (σ × List Event)) α}
    (h : Accounted due before m' r) : Accounted (Event.requests events ++ due) before m r := by
  cases r with
  | ok x m'' =>
    obtain ⟨more, hmore, hmoreClean, rfl⟩ := h
    exact ⟨events ++ more, hbooks.trans hmore, hclean.append hmoreClean,
      Event.requests_append events more⟩
  | error e m'' =>
    obtain ⟨more, hmore, hgranted | ⟨t, he, hrefused, hbegins, huntouched⟩⟩ := h
    · obtain ⟨hmoreClean, rfl⟩ := hgranted
      exact ⟨events ++ more, hbooks.trans hmore,
        .inl ⟨hclean.append hmoreClean, Event.requests_append events more⟩⟩
    · refine ⟨events ++ more, hbooks.trans hmore, .inr ⟨t, he, hrefused.append hclean, ?_,
        huntouched⟩⟩
      rw [Event.requests_append]
      exact (List.prefix_append_right_inj _).mpr hbegins

/-- An action that has nothing to do with the checkpoint and opens and closes no frame. -/
def Quiet (m m' : Machine (σ × List Event)) : Prop :=
  m'.account = m.account ∧ m'.frames.height = m.frames.height

theorem Quiet.books (h : Quiet m m') : Books [] m m' where
  log := by rw [h.1, List.append_nil]
  levels := congrArg some h.2.symm

theorem Accounted.of_error_quiet (e : Stop) (h : Quiet m m') :
    Accounted [] before m (.error e m' : EStateM.Result Stop _ α) :=
  ⟨[], h.books, .inl ⟨Event.clean_nil, rfl⟩⟩

theorem Accounted.of_quiet {a : Exec (σ × List Event) α}
    (h : Keeps (Quiet m) (fun _ => True) a) : Accounted [] before m (a m) := by
  have hm := h m ⟨rfl, rfl⟩
  cases hr : a m with
  | ok x m' =>
    rw [hr] at hm
    exact ⟨[], hm.books, Event.clean_nil, rfl⟩
  | error e m' =>
    rw [hr] at hm
    exact .of_error_quiet e hm.1

/-- A quiet action and then another. -/
theorem Accounted.quiet_bind {a : Exec (σ × List Event) α} {k : α → Exec (σ × List Event) β}
    (h : Keeps (Quiet m) (fun _ => True) a)
    (hok : ∀ x m', a m = .ok x m' → Quiet m m' → Accounted due before m' (k x m'))
    (herror : ∀ e m', a m = .error e m' → due = []) : Accounted due before m ((a >>= k) m) := by
  have hm := h m ⟨rfl, rfl⟩
  rw [bind_apply]
  cases hr : a m with
  | ok x m' =>
    rw [hr] at hm
    exact (hok x m' hr hm).after hm.books Event.clean_nil
  | error e m' =>
    rw [hr] at hm
    rw [herror e m' hr]
    exact .of_error_quiet e hm.1

end Accounts

theorem quiet_indifferent (m : Machine (σ × List Event)) :
    Indifferent (Quiet m) fun _ => True where
  ordinary _ _ := trivial
  operands _ _ h := h

theorem quiet_steady (m : Machine (σ × List Event)) : Steady (Quiet m) fun _ => True where
  toIndifferent := quiet_indifferent m
  memory _ _ h _ := h
  globals _ _ _ h := h
  locals _ _ _ h := ⟨h.1, by rw [Stack.height_modifyTop, h.2]⟩

theorem modifyFrame_quiet {m : Machine (σ × List Event)} (g : Frame → Frame) :
    Keeps (Quiet m) (fun _ => True) (modifyFrame g : Exec (σ × List Event) Unit) := by
  intro m' h
  rw [modifyFrame_apply]
  by_cases hempty : m'.frames.isEmpty = true
  · rw [if_pos hempty]
    exact ⟨h, trivial⟩
  · rw [if_neg hempty]
    exact ⟨h.1, by rw [Stack.height_modifyTop, h.2]⟩

/-! ### Questions -/

theorem onAccount_record (event : Option Trap → Event) (question : EStateM Trap σ Unit)
    (m : Machine (σ × List Event)) :
    onAccount (recordAnswer event question) m = match question m.account.1 with
      | .ok _ a => .ok () { m with account := (a, m.account.2 ++ [event none]) }
      | .error t a =>
        .error (.trap t) { m with account := (a, m.account.2 ++ [event (some t)]) } := by
  unfold onAccount recordAnswer
  dsimp only
  cases question m.account.1 with
  | ok x a => rfl
  | error t a => rfl

variable {c : Checkpoint σ} {s : Setting (σ × List Event)} (hs : s.checkpoint = c.recorded)
  {m b : Machine (σ × List Event)} {due : List Event.Request}
include hs

/-- A price is paid, and then something is done that does not depend on the account. -/
theorem charge_accounted (hb : Untouched b m) (cost : Nat) {k : Unit → Exec (σ × List Event) α}
    (hk : ∀ account, Accounted due (some b) { m with account } (k () { m with account })) :
    Accounted (.charge cost :: due) (some b) m
      ((onAccount (s.checkpoint.charge cost) >>= k) m) := by
  have hrecord : onAccount (c.recorded.charge cost) m = _ :=
    onAccount_record (.charge cost) (c.charge cost) m
  rw [hs, bind_apply, hrecord]
  cases c.charge cost m.account.1 with
  | ok x a =>
    -- a price opens and closes no frame
    have hpaid : Books [.charge cost none] m
        { m with account := (a, m.account.2 ++ [.charge cost none]) } := ⟨rfl, rfl⟩
    exact (hk _).after hpaid (Event.clean_singleton rfl)
  | error t a =>
    refine ⟨[.charge cost (some t)], ⟨rfl, rfl⟩, .inr ⟨t, rfl, .of_singleton rfl, ?_, b, rfl, ?_⟩⟩
    · exact List.prefix_append [Event.Request.charge cost] due
    · exact ⟨hb.store, hb.locals⟩

/-- A frame is opened, with leave. -/
theorem enterFrame_accounted (hb : Untouched b m) (func : Nat) (type : FuncType) (body : FuncBody)
    (args : List Value) :
    Accounted [.enter] (some b) m ((onAccount s.checkpoint.enterFrame >>= fun _ =>
      modify (openFrame func type body args)) m) := by
  have hrecord : onAccount c.recorded.enterFrame m = _ :=
    onAccount_record .enter c.enterFrame m
  rw [hs, bind_apply, hrecord]
  cases c.enterFrame m.account.1 with
  | ok x a =>
    exact ⟨[.enter none], ⟨rfl, rfl⟩, Event.clean_singleton rfl, rfl⟩
  | error t a =>
    refine ⟨[.enter (some t)], ⟨rfl, rfl⟩, .inr ⟨t, rfl, .of_singleton rfl, ?_, b, rfl, ?_⟩⟩
    · exact List.prefix_rfl
    · exact ⟨hb.store, hb.locals⟩

/-! ### Calls and returns -/

/-- The locals are paid for just before leave is asked for. -/
theorem ask_accounted (hb : Untouched b m) (func : Nat) (type : FuncType) (body : FuncBody)
    (args : List Value) :
    Accounted (body.requests s.pricing) (some b) m
      ((ask s body >>= fun _ => modify (openFrame func type body args)) m) := by
  unfold ask FuncBody.requests
  by_cases hlocals : body.locals.size ≠ 0
  · rw [if_pos hlocals, if_pos hlocals, bind_assoc]
    refine charge_accounted hs hb _ fun account => ?_
    exact enterFrame_accounted hs (m := { m with account }) ⟨hb.store, hb.locals⟩ func type body
      args
  · rw [if_neg hlocals, if_neg hlocals]
    exact enterFrame_accounted hs hb func type body args

theorem callGuest_accounted (hb : Untouched b m) (func : Nat) (type : FuncType)
    (body : FuncBody) :
    Accounted
      (match Operands.popArgs type.params (floor s m) m.operands with
        | .ok args _ =>
          if m.Exhausted (args.length + body.locals.size) then [] else body.requests s.pricing
        | .error _ _ => [])
      (some b) m (callGuest s func type body m) := by
  rw [callGuest_eq]
  unfold grant
  rw [bind_assoc]
  change Accounted _ _ _ (((onOperands (Operands.popArgs type.params (floor s m)) >>= _) >>= _) m)
  rw [bind_assoc]
  cases hargs : Operands.popArgs type.params (floor s m) m.operands with
  | error t operands =>
    rw [bind_of_error (onOperands_of_error hargs)]
    exact .of_error_quiet _ ⟨rfl, rfl⟩
  | ok args operands =>
    -- the caps decide whether anything is asked at all
    rw [bind_of_ok (onOperands_of_ok hargs)]
    dsimp only
    by_cases hcaps : m.Exhausted (args.length + body.locals.size)
    · rw [if_pos hcaps, if_pos hcaps]
      exact .of_error_quiet _ ⟨rfl, rfl⟩
    · rw [if_neg hcaps, if_neg hcaps, bind_assoc]
      have hask := ask_accounted hs (m := { m with operands }) ⟨hb.store, hb.locals⟩ func type body
        args
      have htaken : Books [] m { m with operands } := ⟨(List.append_nil _).symm, rfl⟩
      exact hask.after htaken Event.clean_nil

/-- **A call** asks for what is due if it is admitted, and for nothing if it is to the host. -/
theorem call_accounted (hb : Untouched b m) (func : Nat) :
    Accounted (callRequests s m func) (some b) m (call s func m) := by
  unfold call callRequests
  cases s.program.funcType? func with
  | none => exact .of_error_quiet _ ⟨rfl, rfl⟩
  | some type =>
    dsimp only
    by_cases hfunc : func < s.program.imported
    · -- an imported function has no body, so nothing is due, and the host asks for nothing
      have hbody : s.program.body? func = none := by
        unfold Program.body?
        rw [if_pos hfunc]
      rw [if_pos hfunc, hbody]
      exact .of_quiet (callHost_keeps s (quiet_indifferent m) (fun _ => trivial)
        (fun _ _ _ _ _ => trivial) (fun _ _ _ _ _ => trivial) type)
    · rw [if_neg hfunc]
      cases s.program.body? func with
      | none => exact .of_error_quiet _ ⟨rfl, rfl⟩
      | some body => exact callGuest_accounted hs hb func type body

/-- A return asks for nothing and reports the frame that it closes, also if it has no result to hand
over. -/
theorem returnFromFrame_accounted {before : Option (Machine (σ × List Event))} :
    Accounted [] before m (returnFromFrame s m) := by
  cases hitems : m.frames.items with
  | nil =>
    rw [returnFromFrame_of_nil s hitems]
    exact .of_error_quiet _ ⟨rfl, rfl⟩
  | cons f fs =>
    rw [returnFromFrame_of_cons s hitems]
    -- the frame is closed first, so it is reported even if there is no result
    have hclose : Books [.leave] m (closeFrame s f fs m) := by
      refine ⟨?_, ?_⟩
      · change (s.checkpoint.leaveFrame m.account).2 = _
        rw [hs]
        rfl
      · rw [Stack.height_eq, hitems]
        rfl
    have hhand : Accounted [] before (closeFrame s f fs m) (handOver f (closeFrame s f fs m)) :=
      .of_quiet (handOver_keeps (quiet_indifferent _) f)
    exact hhand.after hclose (Event.clean_singleton rfl)

/-- A branch returns or goes on in the same frame. -/
theorem branch_accounted {before : Option (Machine (σ × List Event))} (depth : Nat) :
    Accounted [] before m (branch s depth m) := by
  cases htop : m.frames.top? with
  | none =>
    rw [branch_of_none s htop]
    exact .of_error_quiet _ ⟨rfl, rfl⟩
  | some f =>
    rcases branch_cases f.labels depth with ⟨label, outer, hdrop⟩ | heq | hgt
    · rw [branch_of_drop s htop hdrop]
      exact .of_quiet ((carry_keeps (quiet_indifferent m) _ _).bind fun _ => modifyFrame_quiet _)
    · rw [branch_of_length s htop heq]
      exact returnFromFrame_accounted hs
    · rw [branch_of_gt s htop hgt]
      exact .of_error_quiet _ ⟨rfl, rfl⟩

/-! ### Turns -/

/-- An instruction without structure asks for what is due. -/
theorem stepOp_accounted (hb : Untouched b m) (o : Op) :
    Accounted (stepRequests s m (.op o)) (some b) m (stepOp s (floor s m) o m) := by
  have hpop : Keeps (Quiet m) (fun _ => True) (popI32 (floor s m) : Exec (σ × List Event) _) :=
    popI32_keeps (quiet_indifferent m) _
  cases o with
  | br depth => exact branch_accounted hs depth
  | ret => exact returnFromFrame_accounted hs
  | call func => exact call_accounted hs hb func
  | brIf depth =>
    refine .quiet_bind hpop (fun condition m' _ _ => ?_) fun _ _ _ => rfl
    by_cases hcondition : condition ≠ 0
    · rw [if_pos hcondition]
      exact branch_accounted hs depth
    · rw [if_neg hcondition]
      exact .of_quiet (.pure ())
  | brTable depths default =>
    exact .quiet_bind hpop (fun _ _ _ _ => branch_accounted hs _) fun _ _ _ => rfl
  | callIndirect type =>
    change Accounted _ _ _ ((popI32 (floor s m) >>= fun slot => callIndirect s type slot.toNat) m)
    have hsplit : (popI32 (floor s m) >>= fun slot => callIndirect s type slot.toNat)
        = ((popI32 (floor s m) >>= fun slot => resolve s type slot.toNat) >>= call s) := by
      rw [bind_assoc]
      exact bind_congr fun slot => callIndirect_eq s type slot.toNat
    rw [hsplit]
    refine .quiet_bind (hpop.bind fun slot => resolve_keeps s (fun _ _ => trivial) type slot.toNat)
      (fun func m' hr _ => ?_) fun e m' hr => ?_
    · -- finding the function takes the slot off the operands, and nothing else
      have hidle : Indifferent (Untouched b) fun _ => True :=
        { ordinary := fun _ _ => trivial, operands := fun _ _ h => ⟨h.store, h.locals⟩ }
      have hb' : Untouched b m' := ((popI32_keeps hidle _).bind fun slot =>
        resolve_keeps s (fun _ _ => trivial) type slot.toNat).of_ok hb hr
      unfold stepRequests
      dsimp only
      rw [hr]
      exact call_accounted hs hb' func
    · unfold stepRequests
      dsimp only
      rw [hr]
  | _ => exact .of_quiet (stepOp_keeps (quiet_steady m) s _ trivial (.of_trap (fun _ => trivial) _))

theorem step_accounted (hb : Untouched b m) (instr : Instr) :
    Accounted (stepRequests s m instr) (some b) m (step s instr m) := by
  have hframe : Keeps (Quiet m) (fun _ => True) (frame : Exec (σ × List Event) Frame) :=
    frame_keeps fun _ _ _ => trivial
  have hlabel : ∀ arity target, Keeps (Quiet m) (fun _ => True)
      (pushLabel arity target : Exec (σ × List Event) Unit) :=
    fun _ _ => .get_bind fun _ _ => modifyFrame_quiet _
  have hjump : ∀ position, Keeps (Quiet m) (fun _ => True)
      (jump position : Exec (σ × List Event) Unit) := fun _ => modifyFrame_quiet _
  cases instr with
  | op o => exact stepOp_accounted hs hb o
  | block arity endAt => exact .of_quiet (.get_bind fun _ _ => hlabel arity _)
  | loop => exact .of_quiet (.get_bind fun _ _ => hframe.bind fun _ => hlabel 0 _)
  | elseJump endAt => exact .of_quiet (.get_bind fun _ _ => hjump endAt)
  | ifThen arity elseAt endAt =>
    refine .of_quiet (.get_bind fun _ _ => (popI32_keeps (quiet_indifferent m) _).bind fun _ =>
      .ite (fun _ => hlabel arity _) fun _ => ?_)
    cases elseAt with
    | none => exact hjump _
    | some elseAt => exact (hlabel arity _).bind fun _ => hjump _
  | endMark =>
    -- a mark at the end of a construct is quiet, and the one at the end of a body returns
    change Accounted _ _ _ ((frame >>= _) m)
    refine .quiet_bind hframe (fun f m' _ _ => ?_) fun _ _ _ => rfl
    cases f.labels with
    | nil => exact returnFromFrame_accounted hs
    | cons label outer => exact .of_quiet (modifyFrame_quiet _)

omit hs in
theorem callRequests_congr {m m' : Machine (σ × List Event)} (hfloor : floor s m' = floor s m)
    (hoperands : m'.operands = m.operands) (hheight : m'.frames.height = m.frames.height)
    (hlive : m'.liveLocals = m.liveLocals) (func : Nat) :
    callRequests s m' func = callRequests s m func := by
  unfold callRequests Exhausted
  rw [hfloor, hoperands, hheight, hlive]

omit hs in
/-- What an instruction asks for does not depend on the account, nor on the position. -/
theorem stepRequests_paid (m : Machine (σ × List Event)) (account : σ × List Event)
    (instr : Instr) : stepRequests s { m.advance with account } instr = stepRequests s m instr := by
  have hfloor : ∀ m, floor s ((Reading.paid account).machine m) = floor s m :=
    Reading.floor_machine (fun _ => rfl) s
  have hcall : ∀ m func, callRequests s ((Reading.paid account).machine m) func
      = callRequests s m func := fun m func =>
    callRequests_congr (hfloor m) (Stack.empty_beneath _) (Reading.height_paid m account) rfl func
  rw [← Reading.machine_paid]
  -- only calls ask for more than their price
  cases instr with
  | op o =>
    cases o with
    | call func => exact hcall m func
    | callIndirect type =>
      have hfind : Follows (Reading.paid account).machine
          (popI32 (floor s m) >>= fun slot => resolve s type slot.toNat)
          (popI32 (floor s m) >>= fun slot => resolve s type slot.toNat) :=
        (popI32_follows (Reading.paid account) _).bind fun slot =>
          resolve_follows s (Reading.paid account) s rfl type slot.toNat
      unfold stepRequests
      dsimp only
      rw [hfloor, hfind m]
      cases (popI32 (floor s m) >>= fun slot => resolve s type slot.toNat : Exec _ Nat) m with
      | ok func m' => exact hcall m' func
      | error e m' => rfl
    | _ => rfl
  | _ => rfl

/-- **A turn** asks for what is due. If it is refused, it has changed nothing. -/
theorem turn_accounted (m : Machine (σ × List Event)) :
    Accounted (dues s m) (some m) m (turn s m) := by
  unfold dues
  cases hnext : nextInstr? s m with
  | none =>
    obtain ⟨e, hfetch⟩ := fetch_of_next_none s hnext
    have hturn : turn s m = .error e m := bind_of_error hfetch _
    rw [hturn]
    exact .of_error_quiet e ⟨rfl, rfl⟩
  | some instr =>
    have hadvance : Quiet m m.advance := ⟨rfl, Stack.height_modifyTop ..⟩
    have hb : Untouched m m.advance := by
      refine ⟨rfl, ?_⟩
      change (m.frames.modifyTop _).items.map _ = _
      rw [Stack.items_modifyTop]
      cases m.frames.items with
      | nil => rfl
      | cons f fs => rfl
    -- the position has moved on when the price is asked, which changes nothing that counts
    rw [turn_of_next s hnext]
    have hperform : Accounted (.charge (s.pricing.cost instr) :: stepRequests s m instr) (some m)
        m.advance (perform s instr m.advance) := by
      refine charge_accounted hs hb _ fun account => ?_
      rw [← stepRequests_paid m account instr]
      exact step_accounted hs (m := { m.advance with account }) ⟨hb.store, hb.locals⟩ instr
    exact hperform.after hadvance.books Event.clean_nil

end Machine

end MeteredSandbox
