import MeteredSandbox.Proofs.Depletion

/-!
# Ink bounds the time of calls

Guests may loop, branch backwards and recurse as they like, and the machine has no measure of its
own that goes down: it takes turns until no frame is open, and in the library that loop is given a
bound. Where everything has a price, ink is the measure. Every turn begins with a charge, so a turn
that carries out an instruction leaves less ink than it found, and one that carries out none is the
last.

So the ink that a call takes is at least the number of instructions that it carries out, and no call
gets to a bound on its turns that is above the ink that is there (`Instance.invoke_terminates`). All
such bounds make for the same call, which is the one without a bound.

That nothing gives ink back is known without a look at instructions. The machine changes its account
through the checkpoint only; so it could as well keep accounts of which it is known that they are
worn (`Checkpoint.restrict`), and the two machines do the same.
-/

namespace MeteredSandbox

variable {σ α : Type}

/-! ### What checkpoints maintain -/

namespace Checkpoint

/-- A predicate of accounts that the checkpoint **maintains**, whatever it is asked and however it
answers. -/
structure Maintains (c : Checkpoint σ) (P : σ → Prop) : Prop where
  charge : ∀ cost a, P a → P (leftState (c.charge cost a))
  enterFrame : ∀ a, P a → P (leftState (c.enterFrame a))
  leaveFrame : ∀ a, P a → P (c.leaveFrame a)

variable {P : σ → Prop}

/-- A question to an account of which the predicate is known. -/
def restrictAnswer (question : EStateM Trap σ Unit)
    (h : ∀ a, P a → P (leftState (question a))) : EStateM Trap {a // P a} Unit := fun a =>
  match question a.1 with
  | .ok _ _ => .ok () ⟨leftState (question a.1), h a.1 a.2⟩
  | .error t _ => .error t ⟨leftState (question a.1), h a.1 a.2⟩

theorem restrictAnswer_follows (question : EStateM Trap σ Unit)
    (h : ∀ a, P a → P (leftState (question a))) :
    Follows Subtype.val (restrictAnswer question h) question := by
  intro a
  unfold restrictAnswer
  split
  next x a' hr =>
    change question a.1 = .ok () (leftState (question a.1))
    rw [hr]
    rfl
  next t a' hr =>
    change question a.1 = .error t (leftState (question a.1))
    rw [hr]
    rfl

variable {c : Checkpoint σ} (h : c.Maintains P)

/-- The checkpoint on the accounts of which a predicate is known that it maintains. -/
def restrict (c : Checkpoint σ) (h : c.Maintains P) : Checkpoint {a // P a} where
  charge cost := restrictAnswer (c.charge cost) (h.charge cost)
  enterFrame := restrictAnswer c.enterFrame h.enterFrame
  leaveFrame a := ⟨c.leaveFrame a.1, h.leaveFrame a.1 a.2⟩

theorem restrict_follows : FollowsAlong Subtype.val (c.restrict h) c where
  charge cost := restrictAnswer_follows (c.charge cost) (h.charge cost)
  enterFrame := restrictAnswer_follows c.enterFrame h.enterFrame
  leaveFrame _ := rfl

end Checkpoint

/-- What is given to a run on accounts of which a predicate is known. -/
def Setting.restrict {P : σ → Prop} (s : Setting σ) (h : s.checkpoint.Maintains P) :
    Setting {a // P a} where
  program := s.program
  host := s.host
  pricing := s.pricing
  checkpoint := s.checkpoint.restrict h
  floor := s.floor

theorem Frame.raise_zero (f : Frame) : f.raise 0 = f := by
  have hlabels : f.labels.map (fun l => { l with height := l.height + 0 }) = f.labels :=
    List.map_id _
  unfold raise
  rw [hlabels]
  rfl

namespace Machine

/-- The machine with what is known of its account. -/
def known {P : σ → Prop} (m : Machine σ) (h : P m.account) : Machine {a // P a} where
  store := m.store
  operands := m.operands
  frames := m.frames
  liveLocals := m.liveLocals
  account := ⟨m.account, h⟩

theorem raised_known {P : σ → Prop} (m : Machine σ) (h : P m.account) :
    (Reading.raised .empty Subtype.val).machine (m.known h) = m := by
  have hframes : ((Reading.raised .empty Subtype.val).machine (m.known h)).frames = m.frames := by
    apply Stack.ext
    rw [Reading.machine_items, frames_raised, List.map_congr_left fun f _ => f.raise_zero,
      List.map_id']
    rfl
  exact Machine.ext rfl (Stack.empty_beneath m.operands) hframes rfl rfl

/-- An action **maintains** a predicate of the account if it leaves nothing else, wherever it
stops. -/
abbrev Maintains (P : σ → Prop) (a : Exec σ α) : Prop :=
  Keeps (fun m => P m.account) (fun _ => True) a

/-- An action that could as well be carried out on the accounts of which a predicate is known. -/
theorem maintains_of_follows {P : σ → Prop} {a : Exec {a // P a} α} {b : Exec σ α}
    (h : Follows (Reading.raised .empty Subtype.val).machine a b) : Maintains P b := by
  intro m hm
  have hknown := h (m.known hm)
  rw [raised_known] at hknown
  rw [hknown]
  cases a (m.known hm) with
  | ok x m' => exact m'.account.2
  | error e m' => exact ⟨m'.account.2, trivial⟩

section Maintains

variable {P : σ → Prop} {s : Setting σ} (h : s.checkpoint.Maintains P)
include h

theorem call_maintains (func : Nat) : Maintains P (call s func) :=
  maintains_of_follows (call_raised (s.restrict h) .empty (Checkpoint.restrict_follows h) func)

theorem step_maintains (instr : Instr) : Maintains P (step s instr) :=
  maintains_of_follows (step_raised (s.restrict h) .empty (Checkpoint.restrict_follows h) instr)

theorem turn_maintains : Maintains P (turn s) :=
  maintains_of_follows (turn_raised (s.restrict h) .empty (Checkpoint.restrict_follows h))

theorem takeTurns_maintains (limit : Nat) : Maintains P (takeTurns s limit) :=
  maintains_of_follows
    (takeTurns_raised (s.restrict h) .empty (Checkpoint.restrict_follows h) limit)

theorem takeResult_maintains (type : FuncType) : Maintains P (takeResult s type) :=
  maintains_of_follows (takeResult_raised (s.restrict h) .empty type)

end Maintains

end Machine

/-! ### Prices and meters -/

/-- Prices at which every instruction costs something. Declared locals may be for free. -/
structure Pricing.Positive (p : Pricing) : Prop where
  base : 1 ≤ p.base
  memoryAccess : 1 ≤ p.memoryAccess
  call : 1 ≤ p.call
  memoryGrow : 1 ≤ p.memoryGrow

theorem Pricing.Positive.one_le_cost {p : Pricing} (h : p.Positive) (instr : Instr) :
    1 ≤ p.cost instr := by
  cases instr with
  | op o =>
    cases o with
    | load | store => exact h.memoryAccess
    | call | callIndirect => exact h.call
    | memoryGrow => exact h.memoryGrow
    | _ => exact h.base
  | _ => exact h.base

namespace Meters

/-- Nothing that meters are asked for gives ink back. -/
theorem maintains_worn (m : Meters) : checkpoint.Maintains m.Worn where
  charge cost m' h := h.trans (charge_worn cost m')
  enterFrame m' h := h.trans (enterFrame_worn m')
  leaveFrame m' h := h.trans (leaveFrame_worn m')

/-- A charge that is granted is taken off the ink. -/
theorem ink_of_charge {m m' : Meters} {cost : Nat} (h : charge cost m = .ok () m') :
    m'.ink.remaining + (min cost InkMeter.maxCharge : Nat) = m.ink.remaining := by
  cases hstatus : m.ink.status with
  | exhausted =>
    rw [charge_of_exhausted hstatus] at h
    cases h
  | ready =>
    rcases le_or_gt ((min cost InkMeter.maxCharge : Nat) : Int) m.ink.remaining with hle | hlt
    · rw [charge_of_le hstatus hle] at h
      cases h
      exact Int.sub_add_cancel _ _
    · rw [charge_of_lt hstatus hlt] at h
      cases h

end Meters

/-! ### Turns -/

namespace Machine

/-- The bound on turns is nothing that a turn stops for. -/
theorem stopsTurns_ne_turnLimit (s : Setting σ) : s.StopsTurns (· ≠ .turnLimit) where
  own _ _ := Stop.noConfusion
  charge _ _ _ _ _ := Stop.noConfusion
  enterFrame _ _ _ _ := Stop.noConfusion
  hostTrap _ _ _ _ _ := Stop.noConfusion
  hostPanic _ _ _ _ _ := Stop.noConfusion

section Bounds

variable {s : Setting σ} {m m' : Machine σ}

theorem turn_ne_turnLimit : turn s m ≠ .error .turnLimit m' := by
  intro h
  have hturn := turn_preserves (stopsTurns_ne_turnLimit s) Store.endures_true m trivial
  rw [h] at hturn
  exact hturn.2 rfl

/-- **A run that gets to its bound** has carried out as many instructions. -/
theorem length_granted_of_turnLimit {limit : Nat} (h : takeTurns s limit m = .error .turnLimit m') :
    ((history s limit m).filterMap (granted? s)).length = limit := by
  induction limit generalizing m with
  | zero => rfl
  | succ limit ih =>
    cases hitems : m.frames.items with
    | nil =>
      rw [takeTurns_of_nil s hitems] at h
      cases h
    | cons f fs =>
      rw [takeTurns_succ s hitems, bind_apply] at h
      rw [history_succ s hitems]
      have hgranted := turn_of_granted s m
      cases hr : turn s m with
      | error e m₁ =>
        rw [hr] at h
        cases h
        exact absurd hr turn_ne_turnLimit
      | ok x m₁ =>
        rw [hr] at h
        cases hinstr : granted? s m with
        | none =>
          rw [hinstr] at hgranted
          obtain ⟨e, m₂, herror, -⟩ := hgranted
          rw [hr] at herror
          cases herror
        | some instr => rw [List.filterMap_cons_some hinstr, List.length_cons, ih h]

/-- **A bound that is not reached** may as well be any greater one. -/
theorem takeTurns_of_le {limit limit' : Nat} (hle : limit ≤ limit')
    (h : ∀ m', takeTurns s limit m ≠ .error .turnLimit m') :
    takeTurns s limit' m = takeTurns s limit m ∧ history s limit' m = history s limit m := by
  induction limit generalizing limit' m with
  | zero =>
    cases hitems : m.frames.items with
    | nil =>
      rw [takeTurns_of_nil s hitems, takeTurns_of_nil s hitems, history_of_nil s hitems,
        history_of_nil s hitems]
      exact ⟨rfl, rfl⟩
    | cons f fs => exact absurd (takeTurns_zero s hitems) (h m)
  | succ limit ih =>
    obtain ⟨limit', rfl⟩ := Nat.exists_eq_succ_of_ne_zero
      (Nat.ne_of_gt ((Nat.succ_pos limit).trans_le hle))
    cases hitems : m.frames.items with
    | nil =>
      rw [takeTurns_of_nil s hitems, takeTurns_of_nil s hitems, history_of_nil s hitems,
        history_of_nil s hitems]
      exact ⟨rfl, rfl⟩
    | cons f fs =>
      rw [takeTurns_succ s hitems, bind_apply] at h
      rw [takeTurns_succ s hitems, takeTurns_succ s hitems, history_succ s hitems,
        history_succ s hitems, bind_apply, bind_apply]
      cases hr : turn s m with
      | error e m₁ => exact ⟨rfl, rfl⟩
      | ok x m₁ =>
        rw [hr] at h
        obtain ⟨hturns, hhistory⟩ := ih (Nat.le_of_succ_le_succ hle) h
        dsimp only
        rw [hturns, hhistory]
        exact ⟨rfl, rfl⟩

end Bounds

/-- An action under which worn accounts stay worn wears the one that it is given. -/
theorem Maintains.worn {a : Exec Meters α} (h : ∀ m : Meters, Maintains m.Worn a)
    (m : Machine Meters) : m.account.Worn (stopped (a m)).account := by
  have hm := h m.account m (.refl m.account)
  cases hr : a m with
  | ok x m' =>
    rw [hr] at hm
    exact hm
  | error e m' =>
    rw [hr] at hm
    exact hm.1

section Spending

variable {s : Setting Meters} (hs : s.checkpoint = Meters.checkpoint)
include hs

theorem maintains_worn (m : Meters) : s.checkpoint.Maintains m.Worn := by
  rw [hs]
  exact m.maintains_worn

variable (hpricing : s.pricing.Positive)
include hpricing

/-- **Every turn that carries out an instruction takes ink.** -/
theorem turn_spends (m : Machine Meters) : (stopped (turn s m)).account.ink.remaining
    + (granted? s m).toList.length ≤ m.account.ink.remaining := by
  cases hgranted : granted? s m with
  | none =>
    have hworn := Maintains.worn (fun m => turn_maintains (maintains_worn hs m)) m
    exact (add_zero _).trans_le hworn.ink_le
  | some instr =>
    unfold granted? at hgranted
    obtain ⟨instr', hnext, hpaid⟩ := Option.bind_eq_some_iff.mp hgranted
    cases hcharge : s.checkpoint.charge (s.pricing.cost instr') m.account with
    | error t account =>
      rw [hcharge] at hpaid
      cases hpaid
    | ok x account =>
      have hworn := Maintains.worn (fun m => step_maintains (maintains_worn hs m) instr')
        { m.advance with account }
      rw [← turn_of_paid hnext hcharge] at hworn
      have hleft : (stopped (turn s m)).account.ink.remaining ≤ account.ink.remaining :=
        hworn.ink_le
      rw [hs] at hcharge
      have hpaid := Meters.ink_of_charge hcharge
      have hcost : 1 ≤ min (s.pricing.cost instr') InkMeter.maxCharge :=
        le_min (hpricing.one_le_cost instr') (by decide)
      rw [Option.toList_some, List.length_singleton]
      omega

/-- **The turns of a run take as much ink as they carry out instructions**, if not more. -/
theorem takeTurns_spends (limit : Nat) (m : Machine Meters) :
    (stopped (takeTurns s limit m)).account.ink.remaining
      + ((history s limit m).filterMap (granted? s)).length ≤ m.account.ink.remaining := by
  induction limit generalizing m with
  | zero =>
    have hworn := Maintains.worn (fun m => takeTurns_maintains (maintains_worn hs m) 0) m
    exact (add_zero _).trans_le hworn.ink_le
  | succ limit ih =>
    cases hitems : m.frames.items with
    | nil =>
      rw [takeTurns_of_nil s hitems, history_of_nil s hitems]
      exact (add_zero _).le
    | cons f fs =>
      have hturn := turn_spends hs hpricing m
      have hlength : ∀ turns, ((m :: turns).filterMap (granted? s)).length
          = (granted? s m).toList.length + (turns.filterMap (granted? s)).length := by
        intro turns
        cases hgranted : granted? s m with
        | none => rw [List.filterMap_cons_none hgranted]; exact (Nat.zero_add _).symm
        | some instr =>
          rw [List.filterMap_cons_some hgranted, List.length_cons, Nat.add_comm]
          rfl
      rw [takeTurns_succ s hitems, history_succ s hitems, bind_apply, hlength]
      cases hr : turn s m with
      | error e m' =>
        rw [hr] at hturn
        exact hturn
      | ok x m' =>
        rw [hr] at hturn
        have hrest := ih m'
        change m'.account.ink.remaining + _ ≤ _ at hturn
        dsimp only
        omega

/-! ### Runs -/

/-- **No run gets to a bound on its turns** that is above the ink that is there. -/
theorem takeTurns_ne_turnLimit {limit : Nat} {m m' : Machine Meters}
    (hink : 0 ≤ m.account.ink.remaining) (hlimit : m.account.ink.remaining < limit) :
    takeTurns s limit m ≠ .error .turnLimit m' := by
  intro h
  have hworn := Maintains.worn (fun m => takeTurns_maintains (maintains_worn hs m) limit) m
  have hspends := takeTurns_spends hs hpricing limit m
  rw [length_granted_of_turnLimit h] at hspends
  have hsolvent := hworn.solvent hink
  omega

/-- A call and the turns after it, from where there is less ink than turns. -/
theorem call_takeTurns_of_le {limit limit' : Nat} (func : Nat) {m : Machine Meters}
    (hink : 0 ≤ m.account.ink.remaining) (hlimit : m.account.ink.remaining < limit)
    (hle : limit ≤ limit') :
    (call s func >>= fun _ => takeTurns s limit') m
        = (call s func >>= fun _ => takeTurns s limit) m ∧
      callHistory s limit' func m = callHistory s limit func m ∧
      ∀ m', (call s func >>= fun _ => takeTurns s limit) m ≠ .error .turnLimit m' := by
  have hworn := Maintains.worn (fun m => call_maintains (maintains_worn hs m) func) m
  have hcall := call_preserves (stopsTurns_ne_turnLimit s) (K := fun _ => True) func m trivial
  unfold callHistory
  rw [bind_apply, bind_apply]
  cases hr : call s func m with
  | error e m₁ =>
    rw [hr] at hcall
    refine ⟨rfl, rfl, fun m' h => ?_⟩
    cases h
    exact hcall.2 rfl
  | ok x m₁ =>
    rw [hr] at hworn
    have hreached : ∀ m', takeTurns s limit m₁ ≠ .error .turnLimit m' := fun m' =>
      takeTurns_ne_turnLimit hs hpricing (hworn.solvent hink) (hworn.ink_le.trans_lt hlimit)
    obtain ⟨hturns, hhistory⟩ := takeTurns_of_le hle hreached
    exact ⟨hturns, hhistory, hreached⟩

/-- A call and the turns after it take as much ink as they carry out instructions. -/
theorem call_takeTurns_spends (limit func : Nat) (m : Machine Meters) :
    (stopped ((call s func >>= fun _ => takeTurns s limit) m)).account.ink.remaining
      + ((callHistory s limit func m).filterMap (granted? s)).length
      ≤ m.account.ink.remaining := by
  have hworn := Maintains.worn (fun m => call_maintains (maintains_worn hs m) func) m
  unfold callHistory
  rw [bind_apply]
  cases hr : call s func m with
  | error e m₁ =>
    rw [hr] at hworn
    exact (add_zero _).trans_le hworn.ink_le
  | ok x m₁ =>
    rw [hr] at hworn
    exact (takeTurns_spends hs hpricing limit m₁).trans hworn.ink_le

omit hs hpricing in
theorem account_of_opening {func : Nat} {args : List Value} {m m₀ : Machine σ} {s : Setting σ}
    (h : opening? s func args m = some m₀) : m₀.account = m.account := by
  unfold opening? at h
  split at h
  · split at h
    · cases h
      rfl
    · cases h
  · cases h

/-- **A run takes as much ink as it carries out instructions.** -/
theorem run_spends (limit func : Nat) (args : List Value) (m : Machine Meters) :
    (stopped (run s limit func args m)).account.ink.remaining
      + (executed s limit func args m).length ≤ m.account.ink.remaining := by
  unfold executed runHistory
  cases hopening : opening? s func args m with
  | none =>
    obtain ⟨t, ht⟩ := run_of_opening_none s hopening limit
    rw [ht]
    exact (add_zero _).le
  | some m₀ =>
    obtain ⟨type, hrun⟩ := run_of_opening s hopening
    have hspends := call_takeTurns_spends hs hpricing limit func m₀
    rw [account_of_opening hopening] at hspends
    rw [hrun, bind_apply]
    cases hr : (call s func >>= fun _ => takeTurns s limit) m₀ with
    | error e m₁ =>
      rw [hr] at hspends
      exact hspends
    | ok x m₁ =>
      rw [hr] at hspends
      have hworn := Maintains.worn
        (fun m => takeResult_maintains (maintains_worn hs m) type) m₁
      exact (Int.add_le_add_right hworn.ink_le _).trans hspends

/-- **A run with more turns than ink** ends before its bound, and is the same with any greater
one. -/
theorem run_of_le {limit limit' : Nat} (func : Nat) (args : List Value) {m : Machine Meters}
    (hink : 0 ≤ m.account.ink.remaining) (hlimit : m.account.ink.remaining < limit)
    (hle : limit ≤ limit') :
    run s limit' func args m = run s limit func args m ∧
      executed s limit' func args m = executed s limit func args m ∧
      ∀ m', run s limit func args m ≠ .error .turnLimit m' := by
  unfold executed runHistory
  cases hopening : opening? s func args m with
  | none =>
    -- the bound makes no difference to arguments that do not fit
    obtain ⟨t, ht⟩ := run_of_opening_none s hopening limit
    have hsame : ∀ limit', run s limit' func args m = run s limit func args m := by
      intro limit'
      unfold opening? at hopening
      unfold run
      split at hopening
      next type htype =>
        rw [htype]
        split at hopening
        next => cases hopening
        next hargs => exact (congrFun (if_neg hargs) m).trans (congrFun (if_neg hargs) m).symm
      next htype => rw [htype]
    refine ⟨hsame limit', rfl, fun m' h => ?_⟩
    rw [ht] at h
    cases h
  | some m₀ =>
    obtain ⟨type, hrun⟩ := run_of_opening s hopening
    rw [← account_of_opening hopening] at hink hlimit
    obtain ⟨hturns, hhistory, hreached⟩ :=
      call_takeTurns_of_le hs hpricing func hink hlimit hle
    have hresult := takeResult_preserves (stopsTurns_ne_turnLimit s) (K := fun _ => True) type
    have hsame : run s limit' func args m = run s limit func args m := by
      rw [hrun limit', hrun limit, bind_apply, hturns]
      rfl
    refine ⟨hsame, congrArg (List.filterMap (granted? s)) hhistory, fun m' h => ?_⟩
    rw [hrun, bind_apply] at h
    cases hr : (call s func >>= fun _ => takeTurns s limit) m₀ with
    | error e m₁ =>
      rw [hr] at h
      cases h
      exact hreached m' hr
    | ok x m₁ =>
      rw [hr] at h
      have hm₁ := hresult m₁ trivial
      rw [show takeResult s type m₁ = _ from h] at hm₁
      exact hm₁.2 rfl

omit hpricing in
/-- What is done at the end of a run makes no difference to the ink. -/
theorem ink_settle (r : EStateM.Result Stop (Machine Meters) (Option Value)) :
    (settle s r).account.ink = (stopped r).account.ink := by
  have hunwind : ∀ m : Machine Meters, (unwind s m).account.ink = m.account.ink := by
    intro m
    change (m.frames.items.foldl (fun a _ => s.checkpoint.leaveFrame a) m.account).ink = _
    rw [hs, List.foldl_const]
    exact Meters.leaveFrame_iterate_ink _ _
  cases r with
  | ok result m => exact hunwind m
  | error stop m =>
    cases stop with
    | panic p => rfl
    | trap | turnLimit => exact hunwind m

end Spending

end Machine

/-! ### Calls -/

namespace Instance

/-- **Ink bounds the time of every call.** Let every instruction cost something and let there be ink
that is not negative. Whatever a call carries out, loops and recursion included, the ink that it
takes is at least the number of instructions that it carries out, and at most the ink that was
there. And it comes to an end: there is one result, which is not that the call ran out of turns,
and one list of instructions, and a call with any number of turns above the ink has these. -/
theorem invoke_terminates (i : Instance) {pricing : Pricing} (hpricing : pricing.Positive)
    (func : Nat) (args : List Value) (operands : OperandStack) {m : Meters}
    (hink : 0 ≤ m.ink.remaining) :
    (∀ limit,
      let taken := m.ink.remaining
        - (i.invoke Meters.checkpoint pricing limit func args operands m).account.ink.remaining
      (i.executed Meters.checkpoint pricing limit func args operands m).length ≤ taken ∧
        taken ≤ m.ink.remaining) ∧
    ∃ call instrs, call.outcome ≠ .error .turnLimit ∧ ∀ limit : Nat, m.ink.remaining < limit →
      i.invoke Meters.checkpoint pricing limit func args operands m = call ∧
        i.executed Meters.checkpoint pricing limit func args operands m = instrs := by
  let s := i.setting Meters.checkpoint pricing operands.height
  let start := Machine.start i.store operands m
  have hs : s.checkpoint = Meters.checkpoint := rfl
  have hinvoke : ∀ limit, i.invoke Meters.checkpoint pricing limit func args operands m
      = Machine.settle s (Machine.run s limit func args start) := fun limit =>
    i.invoke_eq Meters.checkpoint pricing limit func args operands m
  refine ⟨fun limit => ?_, ?_⟩
  · have hspends := Machine.run_spends hs hpricing limit func args start
    have hleft := Machine.ink_settle hs (Machine.run s limit func args start)
    rw [← hinvoke] at hleft
    rw [← hleft] at hspends
    have hsolvent : 0 ≤ (i.invoke Meters.checkpoint pricing limit func args operands
        m).account.ink.remaining := by
      rw [i.invoke_account]
      exact (Meters.after_worn m _).solvent hink
    change _ + ((i.executed Meters.checkpoint pricing limit func args operands m).length : Int)
      ≤ m.ink.remaining at hspends
    dsimp only
    omega
  · -- the least of the bounds that are not reached
    let least := m.ink.remaining.toNat + 1
    have hleast : m.ink.remaining < least := by omega
    have hrun := fun limit' (hle : least ≤ limit') =>
      Machine.run_of_le hs hpricing func args (m := start) hink hleast hle
    refine ⟨i.invoke Meters.checkpoint pricing least func args operands m,
      i.executed Meters.checkpoint pricing least func args operands m, ?_, fun limit hlimit => ?_⟩
    · obtain ⟨-, -, hreached⟩ := hrun least le_rfl
      intro houtcome
      rw [hinvoke, Machine.settle_outcome] at houtcome
      cases hr : Machine.run s least func args start with
      | ok result stop =>
        rw [hr] at houtcome
        cases houtcome
      | error e stop =>
        rw [hr] at houtcome
        cases houtcome
        exact hreached stop hr
    · obtain ⟨hsame, hexecuted, -⟩ := hrun limit (by omega)
      rw [hinvoke, hinvoke, hsame]
      exact ⟨rfl, hexecuted⟩

/-- An instance whose function branches backwards for ever. -/
def restless : Instance where
  program :=
    { source := {}
      signatures := #[some { params := [], results := [] }]
      imported := 0
      bodies := #[{ locals := #[], code := #[.loop, .op (.br 0), .endMark, .endMark] }] }
  host := #[]
  store := { memory := none, table := none, globals := #[] }

/-- With ten units of ink it carries out ten instructions, however many turns it may take. -/
theorem restless_invoke_terminates :
    let prices : Pricing := { perLocal := 0 }
    let m : Meters := .ofBudgets 10 5
    prices.Positive ∧ 0 ≤ m.ink.remaining ∧ ∀ limit : Nat, 10 < limit →
      (restless.invoke Meters.checkpoint prices limit 0 [] .empty m).outcome
          = .error (.trap .inkExhausted) ∧
        (restless.executed Meters.checkpoint prices limit 0 [] .empty m).length = 10 := by
  intro prices m
  have hprices : prices.Positive := ⟨by decide, by decide, by decide, by decide⟩
  have hink : 0 ≤ m.ink.remaining := by decide
  have houtcome : (restless.invoke Meters.checkpoint prices 11 0 [] .empty m).outcome
      = .error (.trap .inkExhausted) := by cbv
  have hlength : (restless.executed Meters.checkpoint prices 11 0 [] .empty m).length = 10 := by cbv
  obtain ⟨-, call, instrs, -, hall⟩ := restless.invoke_terminates hprices 0 [] .empty hink
  obtain ⟨rfl, rfl⟩ := hall 11 (by decide)
  refine ⟨hprices, hink, fun limit hlimit => ?_⟩
  obtain ⟨hcall, hinstrs⟩ := hall limit (Int.ofNat_lt.mpr hlimit)
  exact ⟨(congrArg Invocation.outcome hcall).trans houtcome,
    (congrArg List.length hinstrs).trans hlength⟩

end Instance

end MeteredSandbox
