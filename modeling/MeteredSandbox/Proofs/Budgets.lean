import MeteredSandbox.Meter
import MeteredSandbox.Proofs.Replaying

/-!
# Budgets as thresholds

A pair of meters influences a call in one way only, by refusing. So the budgets are thresholds: a
call that is refused nothing spends an amount of ink and opens a number of frames at once that do
not depend on the budgets, and with other budgets it does exactly the same if both are large enough
and is refused if one of them is not (`Instance.invoke_budgets`).

Since every call is the free call up to a refusal, it is enough to put one log before a pair of
meters. By induction on the log, the meters grant all of it exactly if it costs no more ink than
there is and never opens more frames than may be open, and otherwise refuse for one of the two
reasons (`Meters.replay_verdict`). The invariant is that the ink meter is ready and not in debt, and
that the frames which are open and those which may still be opened are together no more than the
meter can count, so that no frame that is closed gets lost.
-/

namespace MeteredSandbox

namespace Event

/-- The ink that an event takes off a meter when it is granted. -/
def ink : Event → Nat
  | charge cost _ => min cost InkMeter.maxCharge
  | _ => 0

/-- The ink that all events of a log take. -/
def spent (log : List Event) : Nat := (log.map ink).sum

/-- The greatest number of frames that are open at once during a log, if `depth` are open when it
begins. -/
def peak (depth : Nat) : List Event → Nat
  | [] => depth
  | e :: log => max depth (peak ((level depth e).getD depth) log)

theorem levels_cons (depth : Nat) (e : Event) (log : List Event) :
    levels depth (e :: log) = (level depth e).bind fun next => levels next log :=
  List.foldlM_cons

theorem spent_cons (e : Event) (log : List Event) : spent (e :: log) = e.ink + spent log := by
  unfold spent
  rw [List.map_cons, List.sum_cons]

theorem peak_cons {depth next : Nat} {e : Event} (h : level depth e = some next)
    (log : List Event) : peak depth (e :: log) = max depth (peak next log) := by
  rw [peak, h, Option.getD_some]

theorem le_peak (depth : Nat) (log : List Event) : depth ≤ peak depth log := by
  cases log with
  | nil => exact le_rfl
  | cons e log => exact le_max_left _ _

/-- The peak is the greatest of the numbers of frames that are open after the parts of a log. -/
theorem isGreatest_peak {depth depth' : Nat} {log : List Event}
    (h : levels depth log = some depth') :
    IsGreatest {k | ∃ before, before <+: log ∧ levels depth before = some k} (peak depth log) := by
  induction log generalizing depth with
  | nil =>
    refine ⟨⟨[], List.prefix_rfl, rfl⟩, ?_⟩
    rintro k ⟨before, hbefore, hk⟩
    rw [List.prefix_nil.mp hbefore] at hk
    cases hk
    exact le_rfl
  | cons e log ih =>
    rw [levels_cons] at h
    obtain ⟨next, hnext, hlog⟩ := Option.bind_eq_some_iff.mp h
    obtain ⟨⟨reached, hreached, hpeak⟩, hbound⟩ := ih hlog
    rw [peak_cons hnext]
    refine ⟨?_, ?_⟩
    · rcases le_total (peak next log) depth with hle | hle
      · rw [max_eq_left hle]
        exact ⟨[], List.nil_prefix, rfl⟩
      · rw [max_eq_right hle]
        refine ⟨e :: reached, List.cons_prefix_cons.mpr ⟨rfl, hreached⟩, ?_⟩
        rw [levels_cons, hnext, Option.bind_some, hpeak]
    · rintro k ⟨before, hbefore, hk⟩
      cases before with
      | nil =>
        cases hk
        exact le_max_left _ _
      | cons e' before =>
        obtain ⟨rfl, hrest⟩ := List.cons_prefix_cons.mp hbefore
        rw [levels_cons, hnext, Option.bind_some] at hk
        exact (hbound ⟨before, hrest, hk⟩).trans (le_max_right _ _)

end Event

/-! ### Meters -/

namespace InkMeter

theorem charge_of_le {m : InkMeter} (hstatus : m.status = .ready) {cost : Nat}
    (h : (min cost maxCharge : Nat) ≤ m.remaining) :
    charge cost m = .ok () { m with remaining := m.remaining - (min cost maxCharge : Nat) } := by
  unfold charge
  rw [hstatus]
  dsimp only
  rw [if_neg (not_lt.mpr h)]

theorem charge_of_lt {m : InkMeter} (hstatus : m.status = .ready) {cost : Nat}
    (h : m.remaining < (min cost maxCharge : Nat)) :
    charge cost m = .error .inkExhausted { m with status := .exhausted } := by
  unfold charge
  rw [hstatus]
  dsimp only
  rw [if_pos h]

/-- A meter that is exhausted refuses every charge, whatever it costs. -/
theorem charge_of_exhausted {m : InkMeter} (h : m.status = .exhausted) (cost : Nat) :
    charge cost m = .error .inkExhausted m := by
  unfold charge
  rw [h]

end InkMeter

namespace Meters

open Event

/-- A pair of meters that is ready for a call: the ink meter has refused nothing since it was set
and is not in debt, and the depth is one that the meter can count. -/
structure Primed (m : Meters) : Prop where
  status : m.ink.status = .ready
  solvent : 0 ≤ m.ink.remaining
  countable : m.depth.remaining ≤ DepthMeter.maxRemaining

/-- Meters that have just been set. -/
def ofBudgets (ink : Int) (depth : Nat) : Meters where
  ink := .set ink {}
  depth := .set depth {}

/-- The meters after `ink` has been spent. -/
def spend (ink : Nat) (m : Meters) : Meters :=
  { m with ink := { m.ink with remaining := m.ink.remaining - ink } }

/-- The meters with another number of frames that may still be opened. -/
def withDepth (remaining : Nat) (m : Meters) : Meters :=
  { m with depth := { m.depth with remaining } }

@[simp] theorem spend_zero (m : Meters) : m.spend 0 = m := by
  unfold spend
  rw [Nat.cast_zero, Int.sub_zero]

theorem charge_of_le {m : Meters} (hstatus : m.ink.status = .ready) {cost : Nat}
    (h : (min cost InkMeter.maxCharge : Nat) ≤ m.ink.remaining) :
    charge cost m = .ok () (m.spend (min cost InkMeter.maxCharge)) := by
  unfold charge
  rw [InkMeter.charge_of_le hstatus h]
  rfl

theorem charge_of_lt {m : Meters} (hstatus : m.ink.status = .ready) {cost : Nat}
    (h : m.ink.remaining < (min cost InkMeter.maxCharge : Nat)) :
    charge cost m = .error .inkExhausted { m with ink := { m.ink with status := .exhausted } } := by
  unfold charge
  rw [InkMeter.charge_of_lt hstatus h]

theorem enterFrame_of_pos {m : Meters} (h : 0 < m.depth.remaining) :
    enterFrame m = .ok () (m.withDepth (m.depth.remaining - 1)) := by
  unfold enterFrame DepthMeter.enter
  rw [if_neg h.ne']
  rfl

theorem enterFrame_of_zero {m : Meters} (h : m.depth.remaining = 0) :
    enterFrame m = .error .stackExhausted m := by
  unfold enterFrame DepthMeter.enter
  rw [if_pos h]

theorem leaveFrame_of_lt {m : Meters} (h : m.depth.remaining < DepthMeter.maxRemaining) :
    m.leaveFrame = m.withDepth (m.depth.remaining + 1) := by
  unfold leaveFrame DepthMeter.leave
  rw [min_eq_left h]
  rfl

/-- Frames that are closed make no difference to the ink. -/
theorem leaveFrame_iterate_ink (count : Nat) (m : Meters) : (leaveFrame^[count] m).ink = m.ink := by
  induction count generalizing m with
  | zero => rfl
  | succ count ih => exact ih m.leaveFrame

/-- What a pair of meters makes of a log in which the number of open frames goes from `depth` to
`depth'`. -/
def Verdict (m : Meters) (depth depth' : Nat) (log : List Event) :
    EStateM.Result Trap Meters Unit → Prop
  | .ok _ m' => spent log ≤ m.ink.remaining ∧ peak depth log ≤ depth + m.depth.remaining ∧
      m' = (m.spend (spent log)).withDepth (depth + m.depth.remaining - depth')
  | .error t m' =>
    (t = .inkExhausted ∧ m'.ink.status = .exhausted ∧ m.ink.remaining < spent log ∨
      t = .stackExhausted ∧ depth + m.depth.remaining < peak depth log) ∧
    0 ≤ m'.ink.remaining ∧ m'.ink.remaining ≤ m.ink.remaining

/-- An event that is granted, in front of a log. -/
theorem Verdict.cons {m : Meters} {depth next depth' remaining : Nat} {e : Event}
    {log : List Event} {result : EStateM.Result Trap Meters Unit}
    (hnext : level depth e = some next) (hsum : next + remaining = depth + m.depth.remaining)
    (h : Verdict ((m.spend e.ink).withDepth remaining) next depth' log result) :
    Verdict m depth depth' (e :: log) result := by
  cases result with
  | ok x m' =>
    obtain ⟨hspent, hpeak, rfl⟩ := h
    change (spent log : Int) ≤ m.ink.remaining - e.ink at hspent
    change peak next log ≤ next + remaining at hpeak
    refine ⟨?_, ?_, ?_⟩
    · rw [spent_cons]
      omega
    · rw [peak_cons hnext]
      omega
    · have hink : m.ink.remaining - (e.ink + spent log : Nat)
          = m.ink.remaining - e.ink - spent log := by omega
      rw [spent_cons]
      unfold spend withDepth
      rw [hink, ← hsum]
  | error t m' =>
    obtain ⟨hrefused, hpos, hle⟩ := h
    change m'.ink.remaining ≤ m.ink.remaining - e.ink at hle
    refine ⟨?_, hpos, by omega⟩
    rcases hrefused with ⟨rfl, hexhausted, hlt⟩ | ⟨rfl, hlt⟩
    · change m.ink.remaining - e.ink < (spent log : Int) at hlt
      refine .inl ⟨rfl, hexhausted, ?_⟩
      rw [spent_cons]
      omega
    · change next + remaining < peak next log at hlt
      refine .inr ⟨rfl, ?_⟩
      rw [peak_cons hnext]
      omega

/-- **Meters judge a log by two numbers**, the ink that it takes and the most frames that it opens
at once. -/
theorem replay_verdict {m : Meters} {depth depth' : Nat} {log : List Event}
    (hstatus : m.ink.status = .ready) (hink : 0 ≤ m.ink.remaining)
    (hdepth : depth + m.depth.remaining ≤ DepthMeter.maxRemaining) (hclean : Clean log)
    (hlevels : levels depth log = some depth') :
    Verdict m depth depth' log (checkpoint.replay log m) := by
  induction log generalizing m depth with
  | nil =>
    cases hlevels
    refine ⟨hink, Nat.le_add_right _ _, ?_⟩
    change m = (m.spend 0).withDepth _
    rw [spend_zero, Nat.add_sub_cancel_left]
    rfl
  | cons e log ih =>
    rw [levels_cons] at hlevels
    obtain ⟨next, hnext, hlog⟩ := Option.bind_eq_some_iff.mp hlevels
    have hrest : Clean log := fun e' he' => hclean e' (List.mem_cons_of_mem _ he')
    -- what is granted leads to meters for which the invariant holds again
    have hgranted : ∀ remaining, e.ink ≤ m.ink.remaining →
        next + remaining = depth + m.depth.remaining →
        checkpoint.meet e m = .ok () ((m.spend e.ink).withDepth remaining) →
        Verdict m depth depth' (e :: log) (checkpoint.replay (e :: log) m) := by
      intro remaining hle hsum hmeet
      have hverdict := ih (m := (m.spend e.ink).withDepth remaining) hstatus (Int.sub_nonneg.mpr hle)
        (hsum.trans_le hdepth) hrest hlog
      have hreplay : checkpoint.replay (e :: log) m
          = checkpoint.replay log ((m.spend e.ink).withDepth remaining) := bind_of_ok hmeet _
      rw [hreplay]
      exact hverdict.cons hnext hsum
    have hrefused : ∀ t m', checkpoint.meet e m = .error t m' →
        checkpoint.replay (e :: log) m = .error t m' := fun t m' hmeet => bind_of_error hmeet _
    cases e with
    | charge cost answer =>
      obtain rfl : depth = next := Option.some.inj hnext
      rcases le_or_gt ((min cost InkMeter.maxCharge : Nat) : Int) m.ink.remaining with hle | hlt
      · exact hgranted m.depth.remaining hle rfl (charge_of_le hstatus hle)
      · rw [hrefused _ _ (charge_of_lt hstatus hlt)]
        refine ⟨.inl ⟨rfl, rfl, ?_⟩, hink, le_rfl⟩
        rw [spent_cons]
        change m.ink.remaining < ((min cost InkMeter.maxCharge + spent log : Nat) : Int)
        omega
    | enter answer =>
      obtain rfl : answer = none := hclean _ List.mem_cons_self
      obtain rfl : depth + 1 = next := Option.some.inj hnext
      rcases Nat.eq_zero_or_pos m.depth.remaining with hzero | hpos
      · have hpeak := le_peak (depth + 1) log
        rw [hrefused _ _ (enterFrame_of_zero hzero)]
        refine ⟨.inr ⟨rfl, ?_⟩, hink, le_rfl⟩
        rw [peak_cons hnext]
        omega
      · refine hgranted (m.depth.remaining - 1) hink (by omega) ?_
        change enterFrame m = .ok () ((m.spend 0).withDepth _)
        rw [enterFrame_of_pos hpos, spend_zero]
    | leave =>
      cases depth with
      | zero => cases hnext
      | succ depth =>
        obtain rfl : depth = next := Option.some.inj hnext
        refine hgranted (m.depth.remaining + 1) hink (by omega) ?_
        change EStateM.Result.ok () m.leaveFrame = .ok () ((m.spend 0).withDepth _)
        rw [leaveFrame_of_lt (by omega), spend_zero]

end Meters

/-! ### Calls -/

namespace Instance

/-- **What becomes of a call** with meters that are ready, judged by the log of the free call: it is
the free call and spends what that log takes, or it is refused something that is missing. -/
theorem invoke_judged (i : Instance) (pricing : Pricing) (limit func : Nat) (args : List Value)
    (operands : OperandStack) {m : Meters} (h : m.Primed)
    (hclean : Event.Clean (i.freeCall pricing limit func args .empty).account)
    (hlevels : Event.levels 0 (i.freeCall pricing limit func args .empty).account = some 0) :
    let free := i.freeCall pricing limit func args .empty
    let call := i.invoke Meters.checkpoint pricing limit func args operands m
    (Event.spent free.account ≤ m.ink.remaining ∧
      Event.peak 0 free.account ≤ m.depth.remaining ∧
      call.outcome = free.outcome ∧ call.store = free.store ∧
      call.account = m.spend (Event.spent free.account)) ∨
    ¬ Event.Clean (i.events Meters.checkpoint pricing limit func args operands m) ∧
      (call.outcome = .error (.trap .inkExhausted) ∧ call.account.ink.status = .exhausted ∧
          m.ink.remaining < Event.spent free.account ∨
        call.outcome = .error (.trap .stackExhausted) ∧
          m.depth.remaining < Event.peak 0 free.account) ∧
      0 ≤ call.account.ink.remaining ∧ call.account.ink.remaining ≤ m.ink.remaining := by
  intro free call
  have hverdict := Meters.replay_verdict h.status h.solvent
    ((Nat.zero_add _).trans_le h.countable) hclean hlevels
  have hlog := i.freeCall_account pricing limit func args operands
  cases hr : Meters.checkpoint.replay (i.freeCall pricing limit func args .empty).account m with
  | ok x m' =>
    rw [hr] at hverdict
    obtain ⟨hspent, hpeak, rfl⟩ := hverdict
    rw [Nat.zero_add] at hpeak
    rw [← hlog] at hr
    have hcall : call = _ :=
      (i.invoke_of_granted Meters.checkpoint pricing limit func args operands m hr).2
    refine .inl ⟨hspent, hpeak, ?_, ?_, ?_⟩
    · rw [hcall]
      exact i.freeCall_outcome pricing limit func args operands
    · rw [hcall]
      exact i.freeCall_store pricing limit func args operands
    · rw [hcall, Nat.zero_add, Nat.sub_zero, hlog]
      rfl
  | error t last =>
    rw [hr] at hverdict
    obtain ⟨hrefused, hpos, hle⟩ := hverdict
    rw [Nat.zero_add] at hrefused
    rw [← hlog] at hr
    obtain ⟨hunclean, houtcome, count, haccount⟩ :=
      i.invoke_of_refused Meters.checkpoint pricing limit func args operands m hr
    -- the frames that are closed after the refusal make no difference to the ink
    have hink : call.account.ink = last.ink := by
      rw [show call.account = _ from haccount]
      exact Meters.leaveFrame_iterate_ink count last
    rw [hink, show call.outcome = _ from houtcome]
    refine .inr ⟨hunclean, ?_, hpos, hle⟩
    rcases hrefused with ⟨rfl, hexhausted, hshort⟩ | ⟨rfl, hshort⟩
    · exact .inl ⟨rfl, hexhausted, hshort⟩
    · exact .inr ⟨rfl, hshort⟩

/-- **Budgets act as thresholds only.** Take a call that is refused nothing, with any meters, and
let `ink` be what it spends and `depth` the most frames that it has open at once. Then the same call
with other meters, on any operands,

* does the same, and leaves the same store, if there is that much ink and that much depth; the ink
  is spent and the depth is there again;
* runs out of ink if there is enough depth and less ink, and the meter is exhausted;
* runs out of stack if there is enough ink and less depth;
* does one or the other if there is less of both.

It never goes below zero, and never has more ink than before. -/
theorem invoke_budgets (i : Instance) (pricing : Pricing) (limit func : Nat) (args : List Value)
    (P Q : OperandStack) {m₀ m : Meters} (h₀ : m₀.Primed) (h : m.Primed)
    (hreturn : ∀ p,
      (i.invoke Meters.checkpoint pricing limit func args P m₀).outcome ≠ .error (.panic p))
    (hclean : Event.Clean (i.events Meters.checkpoint pricing limit func args P m₀)) :
    let reference := i.invoke Meters.checkpoint pricing limit func args P m₀
    let ink := m₀.ink.remaining - reference.account.ink.remaining
    let depth := Event.peak 0 (i.events Meters.checkpoint pricing limit func args P m₀)
    let call := i.invoke Meters.checkpoint pricing limit func args Q m
    (ink ≤ m.ink.remaining → depth ≤ m.depth.remaining →
      call.outcome = reference.outcome ∧ call.store = reference.store ∧
        call.account = { m with ink := { m.ink with remaining := m.ink.remaining - ink } }) ∧
    (m.ink.remaining < ink → depth ≤ m.depth.remaining →
      call.outcome = .error (.trap .inkExhausted) ∧ call.account.ink.status = .exhausted) ∧
    (ink ≤ m.ink.remaining → m.depth.remaining < depth →
      call.outcome = .error (.trap .stackExhausted)) ∧
    (m.ink.remaining < ink → m.depth.remaining < depth →
      call.outcome = .error (.trap .inkExhausted) ∨
        call.outcome = .error (.trap .stackExhausted)) ∧
    0 ≤ call.account.ink.remaining ∧ call.account.ink.remaining ≤ m.ink.remaining := by
  intro reference ink depth call
  -- the first call is granted all events of the free call, so it is the free call
  obtain ⟨m₀', hgranted⟩ := i.replay_of_clean Meters.checkpoint pricing limit func args P m₀ hclean
  have hevents := (i.invoke_of_granted Meters.checkpoint pricing limit func args P m₀ hgranted).1
  rw [i.freeCall_account] at hevents
  have hlevels := i.levels_events Meters.checkpoint pricing limit func args P m₀ hreturn
  rw [hevents] at hlevels
  obtain ⟨-, -, houtcome₀, hstore₀, haccount₀⟩ :=
    (i.invoke_judged pricing limit func args P h₀ (hevents ▸ hclean) hlevels).resolve_right
      fun hrefused => hrefused.1 hclean
  have hink : ink = Event.spent (i.freeCall pricing limit func args .empty).account := by
    change m₀.ink.remaining - reference.account.ink.remaining = _
    rw [show reference.account = _ from haccount₀]
    exact Int.sub_sub_self ..
  have hdepth : depth = Event.peak 0 (i.freeCall pricing limit func args .empty).account := by
    change Event.peak 0 (i.events ..) = _
    rw [hevents]
  rw [hink, hdepth, show reference.outcome = _ from houtcome₀, show reference.store = _ from hstore₀]
  -- the second call is the free call too, or there is less ink or less depth than that takes
  rcases i.invoke_judged pricing limit func args Q h (hevents ▸ hclean) hlevels with
    ⟨hspent, hpeak, houtcome, hstore, haccount⟩ |
    ⟨-, ⟨houtcome, hexhausted, hshort⟩ | ⟨houtcome, hshort⟩, hpos, hle⟩
  · have hleft : call.account.ink.remaining
        = m.ink.remaining - Event.spent (i.freeCall pricing limit func args .empty).account := by
      rw [show call.account = _ from haccount]
      rfl
    refine ⟨fun _ _ => ⟨houtcome, hstore, haccount⟩, fun hlt _ => ?_, fun _ hlt => ?_,
      fun hlt _ => ?_, ?_, ?_⟩
    · exact absurd hspent (not_le.mpr hlt)
    · exact absurd hpeak (not_le.mpr hlt)
    · exact absurd hspent (not_le.mpr hlt)
    · rw [hleft]
      exact Int.sub_nonneg.mpr hspent
    · rw [hleft]
      exact Int.sub_le_self _ (Int.natCast_nonneg _)
  · refine ⟨fun hle _ => ?_, fun _ _ => ⟨houtcome, hexhausted⟩, fun hle _ => ?_,
      fun _ _ => .inl houtcome, hpos, hle⟩
    · exact absurd hle (not_le.mpr hshort)
    · exact absurd hle (not_le.mpr hshort)
  · refine ⟨fun _ hle => ?_, fun _ hle => ?_, fun _ _ => houtcome, fun _ _ => .inr houtcome, hpos,
      hle⟩
    · exact absurd hle (not_le.mpr hshort)
    · exact absurd hle (not_le.mpr hshort)

/-- The first function of `frugal` takes eight units of ink and has two frames open at once. With
less ink it runs out of ink, and with less depth it runs out of stack. -/
theorem frugal_invoke_budgets :
    ((Meters.ofBudgets 100 5).Primed ∧ (Meters.ofBudgets 7 2).Primed ∧
        (Meters.ofBudgets 8 1).Primed) ∧
      (∀ p, (frugal.invoke Meters.checkpoint {} 10 0 [] .empty (.ofBudgets 100 5)).outcome
        ≠ .error (.panic p)) ∧
      Event.Clean (frugal.events Meters.checkpoint {} 10 0 [] .empty (.ofBudgets 100 5)) ∧
      (frugal.invoke Meters.checkpoint {} 10 0 [] .empty (.ofBudgets 100 5)).account
        = .ofBudgets 92 5 ∧
      Event.peak 0 (frugal.events Meters.checkpoint {} 10 0 [] .empty (.ofBudgets 100 5)) = 2 ∧
      (frugal.invoke Meters.checkpoint {} 10 0 [] .empty (.ofBudgets 7 2)).outcome
        = .error (.trap .inkExhausted) ∧
      (frugal.invoke Meters.checkpoint {} 10 0 [] .empty (.ofBudgets 8 1)).outcome
        = .error (.trap .stackExhausted) := by
  have hprimed : ∀ (ink : Int) (depth : Nat), 0 ≤ ink → depth ≤ 5 →
      (Meters.ofBudgets ink depth).Primed := by
    intro ink depth hink hdepth
    refine ⟨rfl, hink, ?_⟩
    change depth ≤ 0xFFFF_FFFF
    omega
  have h₀ := hprimed 100 5 (by decide) (by decide)
  have h₁ := hprimed 7 2 (by decide) (by decide)
  have h₂ := hprimed 8 1 (by decide) (by decide)
  have hreturn : ∀ p, (frugal.invoke Meters.checkpoint {} 10 0 [] .empty
      (.ofBudgets 100 5)).outcome ≠ .error (.panic p) := by
    have houtcome : (frugal.invoke Meters.checkpoint {} 10 0 [] .empty
        (.ofBudgets 100 5)).outcome = .ok none := by cbv
    intro p hpanic
    rw [houtcome] at hpanic
    cases hpanic
  have hclean : Event.Clean (frugal.events Meters.checkpoint {} 10 0 [] .empty
      (.ofBudgets 100 5)) := by
    have hlog : frugal.events Meters.checkpoint {} 10 0 [] .empty (.ofBudgets 100 5)
        = [.enter none, .charge 5 none, .charge 1 none, .enter none, .charge 1 none, .leave,
          .charge 1 none, .leave] := by cbv
    rw [hlog]
    unfold Event.Clean
    decide
  have haccount : (frugal.invoke Meters.checkpoint {} 10 0 [] .empty
      (.ofBudgets 100 5)).account = .ofBudgets 92 5 := by cbv
  have hpeak : Event.peak 0 (frugal.events Meters.checkpoint {} 10 0 [] .empty
      (.ofBudgets 100 5)) = 2 := by cbv
  have hless := (frugal.invoke_budgets {} 10 0 [] .empty .empty h₀ h₁ hreturn hclean).2.1
  have hshallow := (frugal.invoke_budgets {} 10 0 [] .empty .empty h₀ h₂ hreturn hclean).2.2.1
  rw [haccount, hpeak] at hless hshallow
  exact ⟨⟨h₀, h₁, h₂⟩, hreturn, hclean, haccount, hpeak, (hless (by decide) (by decide)).1,
    hshallow (by decide) (by decide)⟩

end Instance

end MeteredSandbox
