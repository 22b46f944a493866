import MeteredSandbox.Instance.Basic
import MeteredSandbox.Proofs.Following
import MeteredSandbox.Proofs.Reading

/-!
# Calls, returns and branches

The control actions of the machine, taken apart once. Each of them is a short sequence of parts, and
the parts have names here:

* a call of a function of the program's own first *grants* the call (`Machine.grant`: the arguments
  are taken, the caps are checked, the checkpoint is asked) and then opens the frame
  (`Machine.openFrame`), which cannot fail;
* a return closes the frame (`Machine.closeFrame`), which cannot fail either, and then hands its
  result over (`Machine.handOver`);
* a branch to a construct carries the construct's result over the cut (`Machine.carry`) and goes on
  at the target;
* an indirect call finds its function (`Machine.resolve`) and calls it.

A turn pays for the instruction at the position of the current frame and carries it out, with the
position already moved on (`Machine.turn_of_next`).
-/

namespace MeteredSandbox

variable {σ : Type}

namespace Machine

open Exec

variable (s : Setting σ)

/-! ### Calls -/

/-- Pays for the declared locals of a function, if it has any, and asks for leave to open a
frame. -/
def ask (body : FuncBody) : Exec σ Unit := do
  if body.locals.size ≠ 0 then
    onAccount (s.checkpoint.charge (s.pricing.localsCost body.locals.size))
  onAccount s.checkpoint.enterFrame

/-- Whether a call would open too many frames or locals. -/
abbrev Exhausted (m : Machine σ) (size : Nat) : Prop :=
  maxFrames ≤ m.frames.height ∨ maxLiveLocals < m.liveLocals + size

/-- The first part of a call of a function of the program's own: takes the arguments, checks the
caps, and asks the checkpoint. Gives the arguments. -/
def grant (type : FuncType) (body : FuncBody) : Exec σ (List Value) := do
  let m ← get
  let args ← onOperands (Operands.popArgs type.params (floor s m))
  if m.Exhausted (args.length + body.locals.size) then trap .stackExhausted
  else
    ask s body
    return args

/-- The frame that a call opens, on operands of the given height. -/
def newFrame (func : Nat) (type : FuncType) (body : FuncBody) (args : List Value) (height : Nat) :
    Frame where
  func
  position := 0
  locals := args.toArray ++ body.locals.map ValType.zero
  labels := []
  base := height
  result := type.results.head?

/-- The second part of a call: the frame is opened. -/
def openFrame (func : Nat) (type : FuncType) (body : FuncBody) (args : List Value)
    (m : Machine σ) : Machine σ :=
  { m with
    liveLocals := m.liveLocals + (args.length + body.locals.size)
    frames := m.frames.push (newFrame func type body args m.operands.height) }

private theorem onOperands_frames {α : Type} {action : Operands α} {m m' : Machine σ} {x : α}
    (h : onOperands action m = .ok x m') :
    m'.frames = m.frames ∧ m'.liveLocals = m.liveLocals := by
  obtain ⟨operands, -, rfl⟩ := onOperands_eq_ok h
  exact ⟨rfl, rfl⟩

/-- A call asks, and then opens the frame. The caps are checked in between, on a machine that has
lost its arguments already. -/
theorem callGuest_eq (func : Nat) (type : FuncType) (body : FuncBody) :
    callGuest s func type body =
      (do
        let args ← grant s type body
        modify (openFrame func type body args)) := by
  funext m
  cases hr : onOperands (Operands.popArgs type.params (floor s m)) m with
  | error e m' =>
    have hgrant : grant s type body m = .error e m' := bind_of_error hr _
    rw [bind_of_error hgrant]
    exact bind_of_error hr _
  | ok args m' =>
    -- taking the arguments changes nothing that the caps look at
    obtain ⟨hframes, hlive⟩ := onOperands_frames hr
    have hgrant : grant s type body m = (if m.Exhausted (args.length + body.locals.size) then
        trap .stackExhausted else ask s body >>= fun _ => return args : Exec σ _) m' :=
      bind_of_ok hr _
    have hcall : callGuest s func type body m
        = (if m'.Exhausted (args.length + body.locals.size) then trap .stackExhausted
          else do
            if body.locals.size ≠ 0 then
              onAccount (s.checkpoint.charge (s.pricing.localsCost body.locals.size))
            onAccount s.checkpoint.enterFrame
            modify (openFrame func type body args) : Exec σ _) m' :=
      bind_of_ok hr _
    unfold Exhausted at hgrant hcall
    rw [bind_apply, hgrant, hcall, hframes, hlive]
    -- what is left differs in the place of the last step only
    by_cases hcaps : maxFrames ≤ m.frames.height ∨
        maxLiveLocals < m.liveLocals + (args.length + body.locals.size)
    · rw [if_pos hcaps, if_pos hcaps]
      rfl
    · rw [if_neg hcaps, if_neg hcaps, ← bind_apply, bind_assoc]
      unfold ask
      split
      · rw [bind_assoc]
        rfl
      · rfl

/-- The function that an indirect call is to. -/
def resolve (type slot : Nat) : Exec σ Nat := do
  match (← get).store.table with
  | none => trap (.undefinedElement slot)
  | some table =>
    match table.get slot with
    | .error t => trap t
    | .ok func =>
      let expected := s.program.source.types[type]?
      if expected.isSome ∧ expected = s.program.funcType? func then return func
      else trap .indirectCallType

theorem callIndirect_eq (type slot : Nat) :
    callIndirect s type slot = resolve s type slot >>= call s := by
  unfold callIndirect resolve
  rw [bind_assoc]
  refine bind_congr fun m => ?_
  cases m.store.table with
  | none => rfl
  | some table =>
    dsimp only
    cases table.get slot with
    | error t => rfl
    | ok func =>
      dsimp only
      split
      · rfl
      · rfl

/-- The function of an indirect call is there. -/
theorem resolve_eq_ok {type slot func : Nat} {m m' : Machine σ}
    (h : resolve s type slot m = .ok func m') :
    m' = m ∧ (s.program.funcType? func).isSome := by
  unfold resolve at h
  rw [get_bind_apply] at h
  cases htable : m.store.table with
  | none =>
    rw [htable] at h
    cases h
  | some table =>
    rw [htable] at h
    dsimp only at h
    cases hget : table.get slot with
    | error t =>
      rw [hget] at h
      cases h
    | ok target =>
      rw [hget] at h
      dsimp only at h
      split at h
      next hsome =>
        cases h
        -- the expected type is there, and the function has it
        rw [hsome.2] at hsome
        exact ⟨rfl, hsome.1⟩
      next => cases h

theorem call_of_none {func : Nat} (htype : s.program.funcType? func = none) :
    call s func = trap (.malformed .callTargetOutOfRange) := by
  unfold call
  rw [htype]

theorem call_of_host {func : Nat} {type : FuncType} (htype : s.program.funcType? func = some type)
    (hfunc : func < s.program.imported) : call s func = callHost s func type := by
  unfold call
  rw [htype]
  exact if_pos hfunc

theorem call_of_no_body {func : Nat} {type : FuncType}
    (htype : s.program.funcType? func = some type) (hfunc : ¬ func < s.program.imported)
    (hbody : s.program.body? func = none) :
    call s func = trap (.malformed .callTargetWithoutBody) := by
  unfold call
  rw [htype, hbody]
  exact if_neg hfunc

theorem call_of_body {func : Nat} {type : FuncType} {body : FuncBody}
    (htype : s.program.funcType? func = some type) (hfunc : ¬ func < s.program.imported)
    (hbody : s.program.body? func = some body) : call s func = callGuest s func type body := by
  unfold call
  rw [htype, hbody]
  exact if_neg hfunc

/-! ### Returns -/

/-- The first part of a return: the frame `f` on top of `fs` is closed and reported. -/
def closeFrame (f : Frame) (fs : List Frame) (m : Machine σ) : Machine σ :=
  { m with
    frames := .ofItems fs
    account := s.checkpoint.leaveFrame m.account
    liveLocals := m.liveLocals - f.locals.size }

/-- The second part of a return: the result of `f`, if it has one, is all that stays of its part of
the operand stack. -/
def handOver (f : Frame) : Exec σ Unit :=
  match f.result with
  | none => truncate f.base
  | some expected => do
    let v ← pop f.base
    if v.type = expected then
      truncate f.base
      push v
    else trap (.typeConflict .functionResult)

theorem returnFromFrame_of_nil {m : Machine σ} (h : m.frames.items = []) :
    returnFromFrame s m = .error (.trap (.malformed .returnWithoutFrame)) m := by
  have hpop : m.frames.pop? = none := Stack.pop?_eq_none_iff.mpr h
  unfold returnFromFrame
  rw [get_bind_apply, hpop]
  rfl

theorem returnFromFrame_of_cons {m : Machine σ} {f : Frame} {fs : List Frame}
    (h : m.frames.items = f :: fs) :
    returnFromFrame s m = handOver f (closeFrame s f fs m) := by
  have hpop : m.frames.pop? = some (f, .ofItems fs) := Stack.pop?_eq_some_iff.mpr h
  unfold returnFromFrame
  rw [get_bind_apply, hpop]
  rfl

/-! ### Branches -/

/-- Cuts the operand stack back to a height. The result of a construct of the given arity is taken
first and put back afterwards. -/
def carry (arity height : Nat) : Exec σ Unit :=
  if arity = 0 then truncate height
  else do
    let v ← pop height
    truncate height
    push v

/-- A branch leads to one of the constructs, or out of all of them, or further than that. -/
theorem branch_cases (labels : List Label) (depth : Nat) :
    (∃ label outer, labels.drop depth = label :: outer) ∨ depth = labels.length ∨
      labels.length < depth := by
  rcases Nat.lt_trichotomy depth labels.length with hlt | heq | hgt
  · have hpos : 0 < (labels.drop depth).length := by
      rw [List.length_drop]
      omega
    exact .inl (List.exists_cons_of_length_pos hpos)
  · exact .inr (.inl heq)
  · exact .inr (.inr hgt)

theorem branch_of_none {m : Machine σ} (h : m.frames.top? = none) (depth : Nat) :
    branch s depth m = .error (.trap (.malformed .branchWithoutFrame)) m := by
  unfold branch
  rw [get_bind_apply, h]
  rfl

theorem branch_of_length {m : Machine σ} {f : Frame} (h : m.frames.top? = some f) {depth : Nat}
    (hdepth : depth = f.labels.length) : branch s depth m = returnFromFrame s m := by
  unfold branch
  rw [get_bind_apply, h]
  dsimp only
  rw [if_pos hdepth]

/-- A branch out of more constructs than there are. -/
theorem branch_of_gt {m : Machine σ} {f : Frame} (h : m.frames.top? = some f) {depth : Nat}
    (hdepth : f.labels.length < depth) :
    branch s depth m = .error (.trap (.malformed .branchDepth)) m := by
  have hdrop : f.labels.drop depth = [] := List.drop_eq_nil_of_le (Nat.le_of_lt hdepth)
  unfold branch
  rw [get_bind_apply, h]
  dsimp only
  rw [if_neg (Nat.ne_of_gt hdepth), hdrop]
  rfl

theorem branch_of_drop {m : Machine σ} {f : Frame} (h : m.frames.top? = some f) {depth : Nat}
    {label : Label} {outer : List Label} (hdrop : f.labels.drop depth = label :: outer) :
    branch s depth m = (do
      carry label.arity label.height
      modifyFrame fun f => { f with labels := outer, position := label.target }) m := by
  -- a construct is left over, so the branch does not go all the way out
  have hdepth : depth ≠ f.labels.length := by
    intro heq
    rw [heq, List.drop_length] at hdrop
    cases hdrop
  unfold branch carry
  rw [get_bind_apply, h]
  dsimp only
  rw [if_neg hdepth, hdrop]
  dsimp only
  split
  · rfl
  · simp only [bind_assoc]

/-! ### Along readings -/

section Readings

variable {τ : Type} (r : Reading σ τ)

theorem carry_follows (arity height : Nat) :
    Follows r.machine (carry arity height) (carry arity (height + r.under.height)) := by
  refine .ite (truncate_follows r height) ?_
  exact (pop_follows r height).bind fun v =>
    (truncate_follows r height).bind fun _ => push_follows r v

theorem handOver_follows {f g : Frame} (hbase : g.base = f.base + r.under.height)
    (hresult : g.result = f.result) : Follows r.machine (handOver f) (handOver g) := by
  unfold handOver
  rw [hbase, hresult]
  cases f.result with
  | none => exact truncate_follows r f.base
  | some expected =>
    refine (pop_follows r f.base).bind fun v => .ite ?_ (trap_follows r _)
    exact (truncate_follows r f.base).bind fun _ => push_follows r v

variable (s' : Setting τ)

theorem resolve_follows (hprogram : s'.program = s.program) (type slot : Nat) :
    Follows r.machine (resolve s type slot) (resolve s' type slot) := by
  unfold resolve
  rw [hprogram]
  refine .get_bind fun m => ?_
  rw [Reading.machine_store]
  cases m.store.table with
  | none => exact trap_follows r _
  | some table =>
    dsimp only
    cases table.get slot with
    | error t => exact trap_follows r _
    | ok func => exact .ite (.pure func) (trap_follows r _)

variable {m : Machine σ} (hfloor : floor s' (r.machine m) = floor s m + r.under.height)
include hfloor

/-- Calls of host functions, from a machine whose floor is read as it should be. -/
theorem callHost_follows (hhost : s'.host = s.host) (func : Nat) (type : FuncType) :
    callHost s' func type (r.machine m) = mapState r.machine (callHost s func type m) := by
  unfold callHost
  rw [hhost]
  cases s.host[func]? with
  | none => rfl
  | some host =>
    have hargs := onOperands_follows r
      (Operands.popArgs_follows r.under type.params (floor s m))
    rw [← hfloor] at hargs
    refine (hargs.bind fun args => ?_) m
    cases host args with
    | trap t => exact trap_follows r t
    | panic p => exact .throw _
    | value result => exact .ite (pushOption_follows r result) (trap_follows r _)

/-- The first part of a call, from a machine that has as many frames as it is read. -/
theorem grant_follows (hask : ∀ body, Follows r.machine (ask s body) (ask s' body))
    (hheight : (r.machine m).frames.height = m.frames.height) (type : FuncType) (body : FuncBody) :
    grant s' type body (r.machine m) = mapState r.machine (grant s type body m) := by
  have hargs := onOperands_follows r (Operands.popArgs_follows r.under type.params (floor s m))
  rw [← hfloor] at hargs
  refine (hargs.bind fun args => ?_) m
  -- the caps look at the number of frames and locals, which are the same
  unfold Exhausted
  rw [hheight, Reading.machine_liveLocals]
  exact .ite (trap_follows r _) ((hask body).bind fun _ => .pure args)

end Readings

/-! ### Turns -/

/-- The machine with the position of its current frame moved past the next instruction. -/
def advance (m : Machine σ) : Machine σ :=
  { m with frames := m.frames.modifyTop fun f => { f with position := f.position + 1 } }

/-- The instruction at the position of the current frame. -/
def nextInstr? (m : Machine σ) : Option Instr :=
  m.frames.top?.bind fun f => (s.program.body? f.func).bind fun body => body.code[f.position]?

/-- Pays for an instruction and carries it out. -/
def perform (instr : Instr) : Exec σ Unit := do
  onAccount (s.checkpoint.charge (s.pricing.cost instr))
  step s instr

theorem fetch_of_next {m : Machine σ} {instr : Instr} (h : nextInstr? s m = some instr) :
    fetch s m = .ok instr m.advance := by
  obtain ⟨f, htop, h⟩ := Option.bind_eq_some_iff.mp h
  obtain ⟨body, hbody, hcode⟩ := Option.bind_eq_some_iff.mp h
  obtain ⟨fs, hitems⟩ := List.head?_eq_some_iff.mp htop
  have hframe : frame m = .ok f m := by
    unfold frame
    rw [htop]
  have hmodify : modifyFrame (fun f => { f with position := f.position + 1 }) m
      = .ok () m.advance := by
    unfold modifyFrame
    exact if_neg (Stack.not_isEmpty_of_cons hitems)
  unfold fetch
  rw [bind_of_ok hframe, hbody]
  dsimp only
  rw [hcode]
  dsimp only
  rw [bind_of_ok hmodify]
  rfl

theorem fetch_of_next_none {m : Machine σ} (h : nextInstr? s m = none) :
    ∃ e, fetch s m = .error e m := by
  unfold nextInstr? at h
  unfold fetch
  cases htop : m.frames.top? with
  | none =>
    have hframe : frame m = .error (.trap (.malformed .noFrame)) m := by
      unfold frame
      rw [htop]
    rw [bind_of_error hframe]
    exact ⟨_, rfl⟩
  | some f =>
    have hframe : frame m = .ok f m := by
      unfold frame
      rw [htop]
    rw [htop, Option.bind_some] at h
    rw [bind_of_ok hframe]
    cases hbody : s.program.body? f.func with
    | none => exact ⟨_, rfl⟩
    | some body =>
      -- the frame stands behind the end of its body
      rw [hbody, Option.bind_some] at h
      dsimp only
      rw [h]
      exact ⟨_, rfl⟩

theorem takeTurns_of_nil {m : Machine σ} (h : m.frames.items = []) (limit : Nat) :
    takeTurns s limit m = .ok () m := by
  have hempty : m.frames.isEmpty = true := List.isEmpty_iff.mpr h
  unfold takeTurns
  rw [get_bind_apply, if_pos hempty]
  rfl

theorem takeTurns_zero {m : Machine σ} {f : Frame} {fs : List Frame}
    (h : m.frames.items = f :: fs) : takeTurns s 0 m = .error .turnLimit m := by
  unfold takeTurns
  rw [get_bind_apply, if_neg (Stack.not_isEmpty_of_cons h)]
  rfl

theorem takeTurns_succ {m : Machine σ} {f : Frame} {fs : List Frame}
    (h : m.frames.items = f :: fs) (limit : Nat) :
    takeTurns s (limit + 1) m = (turn s >>= fun _ => takeTurns s limit) m := by
  rw [takeTurns, get_bind_apply, if_neg (Stack.not_isEmpty_of_cons h)]

theorem turn_of_next {m : Machine σ} {instr : Instr} (h : nextInstr? s m = some instr) :
    turn s m = perform s instr m.advance := by
  unfold turn
  rw [bind_of_ok (fetch_of_next s h)]
  rfl

/-! ### Invocations -/

/-- The machine before a run. -/
def start (store : Store) (operands : OperandStack) (account : σ) : Machine σ :=
  { store, operands, frames := .empty, liveLocals := 0, account }

/-- What is left of a run with the given result. -/
def settle (s : Setting σ) : EStateM.Result Stop (Machine σ) (Option Value) → Invocation σ
  | .ok result m =>
    let m := unwind s m
    { outcome := .ok result, store := m.store, operands := m.operands, account := m.account }
  | .error (.panic p) m =>
    { outcome := .error (.panic p), store := m.store, operands := m.operands, account := m.account }
  | .error stop m =>
    let m := unwind s m
    { outcome := .error stop, store := m.store, operands := m.operands, account := m.account }

theorem invoke_eq (limit func : Nat) (args : List Value) (store : Store) (operands : OperandStack)
    (account : σ) : invoke s limit func args store operands account
      = settle s (run s limit func args (start store operands account)) := rfl

theorem settle_outcome (r : EStateM.Result Stop (Machine σ) (Option Value)) :
    (settle s r).outcome = match r with
      | .ok result _ => .ok result
      | .error stop _ => .error stop := by
  cases r with
  | ok result m => rfl
  | error stop m => cases stop <;> rfl

theorem settle_store (r : EStateM.Result Stop (Machine σ) (Option Value)) :
    (settle s r).store = match r with
      | .ok _ m => m.store
      | .error _ m => m.store := by
  cases r with
  | ok result m => rfl
  | error stop m => cases stop <;> rfl

/-- What is left after anything but a panic. -/
theorem settle_of_error {stop : Stop} (h : ∀ p, stop ≠ .panic p) (m : Machine σ) :
    settle s (.error stop m) =
      { outcome := .error stop
        store := m.store
        operands := (unwind s m).operands
        account := (unwind s m).account } := by
  cases stop with
  | panic p => exact absurd rfl (h p)
  | trap | turnLimit => rfl

end Machine

namespace Instance

variable (i : Instance) (c : Checkpoint σ) (pricing : Pricing)

/-- What a run of the instance is given. -/
def setting (floor : Nat) : Setting σ where
  program := i.program
  host := i.host
  pricing
  checkpoint := c
  floor

theorem invoke_eq (limit func : Nat) (args : List Value) (operands : OperandStack) (account : σ) :
    i.invoke c pricing limit func args operands account
      = Machine.settle (i.setting c pricing operands.height)
          (Machine.run (i.setting c pricing operands.height) limit func args
            (Machine.start i.store operands account)) := rfl

end Instance

end MeteredSandbox
