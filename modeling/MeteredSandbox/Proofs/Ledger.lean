import MeteredSandbox.Proofs.Budgets

/-!
# The ledger of an ink meter

An ink meter keeps a number and a mark, and both can be told from its history alone: what remains is
the budget that was set last, less what the charges took that have been granted since, and the
meter is exhausted exactly if one of the charges since then was an **overdraft**, that is, cost more
than remained when it was made (`InkMeter.history_balanced`). No price is too high for this, since a
charge takes at most `2 ^ 63 - 1`, and no budget too low: on a negative one the first charge is an
overdraft, even if it costs nothing.

The induction is on the history, and it is carried by the mark. What a charge is answered depends on
the mark and on what remains, so once the mark is known to tell of overdrafts
(`status_after`), every charge is either an overdraft and changes nothing but the mark
(`charge_of_overdrawn`), or is paid in full (`charge_of_not_overdrawn`).
-/

namespace MeteredSandbox

namespace InkMeter

/-- What can be done to an ink meter. -/
inductive Operation where
  | set (budget : Int)
  | charge (cost : Nat)

namespace Operation

/-- Whether budgets are signed and costs are unsigned numbers of 64 bits. -/
def InRange : Operation → Prop
  | set budget => -2 ^ 63 ≤ budget ∧ budget < 2 ^ 63
  | charge cost => cost < 2 ^ 64

instance : DecidablePred InRange
  | set budget => inferInstanceAs (Decidable (-2 ^ 63 ≤ budget ∧ budget < 2 ^ 63))
  | charge cost => inferInstanceAs (Decidable (cost < 2 ^ 64))

/-- The operation on a meter, with its answer. -/
def perform : Operation → EStateM Trap InkMeter Unit
  | set budget => fun m => .ok () (m.set budget)
  | charge cost => InkMeter.charge cost

end Operation

/-- A new meter after a history of operations. The last one stands in front. -/
def after : List Operation → InkMeter
  | [] => {}
  | op :: history => leftState (op.perform (after history))

/-- The budget that was set last. -/
def budget : List Operation → Int
  | [] => 0
  | .set budget :: _ => budget
  | .charge _ :: history => budget history

/-- The ink that was taken by the charges that were granted since a budget was set. -/
def taken : List Operation → Nat
  | [] => 0
  | .set _ :: _ => 0
  | .charge cost :: history =>
    match charge cost (after history) with
    | .ok _ _ => taken history + min cost (2 ^ 63 - 1)
    | .error _ _ => taken history

/-- Whether a charge cost more than remained, since a budget was set. -/
def Overdrawn : List Operation → Prop
  | [] => False
  | .set _ :: _ => False
  | .charge cost :: history =>
    Overdrawn history ∨ (after history).remaining < (min cost (2 ^ 63 - 1) : Nat)

/-- A meter whose state is told by its history, and what it does to the next charge. -/
structure Balanced (history : List Operation) : Prop where
  remaining_eq : (after history).remaining = budget history - taken history
  status_eq_exhausted_iff : (after history).status = .exhausted ↔ Overdrawn history
  /-- An overdraft, and each charge after it, is refused and takes nothing. -/
  refused : ∀ cost, Overdrawn (.charge cost :: history) →
    charge cost (after history) = .error .inkExhausted { after history with status := .exhausted }
  /-- Every other charge is granted, and the difference fits a signed number of 64 bits. -/
  granted : ∀ cost, ¬ Overdrawn (.charge cost :: history) →
    charge cost (after history) = .ok () { after history with
      remaining := (after history).remaining - (min cost (2 ^ 63 - 1) : Nat) } ∧
    0 ≤ (after history).remaining - (min cost (2 ^ 63 - 1) : Nat) ∧
    (after history).remaining - (min cost (2 ^ 63 - 1) : Nat) < 2 ^ 63
  remaining_charge_le : ∀ cost,
    (after (.charge cost :: history)).remaining ≤ (after history).remaining
  remaining_bounds : -2 ^ 63 ≤ (after history).remaining ∧ (after history).remaining < 2 ^ 63
  remaining_nonneg : 0 ≤ budget history → 0 ≤ (after history).remaining
  /-- On a negative budget even a charge of nothing is an overdraft. -/
  overdrawn_of_neg : budget history < 0 → ∀ cost, Overdrawn (.charge cost :: history)

/-! ### The answer to one charge -/

theorem after_charge (cost : Nat) (history : List Operation) :
    after (.charge cost :: history) = leftState (charge cost (after history)) := rfl

/-- The mark tells of overdrafts. -/
theorem status_after (history : List Operation) :
    (after history).status = .exhausted ↔ Overdrawn history := by
  induction history with
  | nil => exact iff_of_false nofun id
  | cons op history ih =>
    cases op with
    | set budget => exact iff_of_false nofun id
    | charge cost =>
      rw [after_charge]
      -- a mark stays, and without one there has been no overdraft so far
      cases hstatus : (after history).status with
      | exhausted =>
        rw [charge_of_exhausted hstatus]
        exact iff_of_true hstatus (.inl (ih.mp hstatus))
      | ready =>
        have hpaid : ¬ Overdrawn history := fun h => by
          rw [ih.mpr h] at hstatus
          cases hstatus
        rcases le_or_gt ((min cost (2 ^ 63 - 1) : Nat) : Int) (after history).remaining with
          hle | hlt
        · rw [charge_of_le hstatus hle]
          refine iff_of_false (fun h => ?_) (not_or.mpr ⟨hpaid, not_lt.mpr hle⟩)
          rw [show (after history).status = .exhausted from h] at hstatus
          cases hstatus
        · rw [charge_of_lt hstatus hlt]
          exact iff_of_true rfl (.inr hlt)

theorem status_eq_ready {history : List Operation} (h : ¬ Overdrawn history) :
    (after history).status = .ready := by
  cases hstatus : (after history).status with
  | ready => rfl
  | exhausted => exact absurd ((status_after history).mp hstatus) h

theorem charge_of_overdrawn {history : List Operation} {cost : Nat}
    (h : Overdrawn (.charge cost :: history)) :
    charge cost (after history) =
      .error .inkExhausted { after history with status := .exhausted } := by
  by_cases hbefore : Overdrawn history
  · have hstatus := (status_after history).mpr hbefore
    rw [charge_of_exhausted hstatus, ← hstatus]
  · exact charge_of_lt (status_eq_ready hbefore) (h.resolve_left hbefore)

theorem charge_of_not_overdrawn {history : List Operation} {cost : Nat}
    (h : ¬ Overdrawn (.charge cost :: history)) :
    charge cost (after history) = .ok () { after history with
      remaining := (after history).remaining - (min cost (2 ^ 63 - 1) : Nat) } :=
  have ⟨hbefore, hcost⟩ := not_or.mp h
  charge_of_le (status_eq_ready hbefore) (not_lt.mp hcost)

/-! ### What remains -/

theorem remaining_after_charge_le (cost : Nat) (history : List Operation) :
    (after (.charge cost :: history)).remaining ≤ (after history).remaining := by
  rw [after_charge]
  by_cases h : Overdrawn (.charge cost :: history)
  · rw [charge_of_overdrawn h]
    exact le_rfl
  · rw [charge_of_not_overdrawn h]
    exact Int.sub_le_self _ (Int.natCast_nonneg _)

/-- The difference between the budget and what remains is what was taken. -/
theorem remaining_after (history : List Operation) :
    (after history).remaining = budget history - taken history := by
  induction history with
  | nil => rfl
  | cons op history ih =>
    cases op with
    | set budget => exact (Int.sub_zero budget).symm
    | charge cost =>
      rw [after_charge, budget, taken]
      by_cases h : Overdrawn (.charge cost :: history)
      · rw [charge_of_overdrawn h]
        exact ih
      · rw [charge_of_not_overdrawn h]
        show (after history).remaining - _ = _
        rw [ih, Nat.cast_add, Int.sub_sub]

/-- A meter is in debt only if it was set so, and then nothing has been taken from it. -/
theorem remaining_nonneg_or_eq_budget (history : List Operation) :
    0 ≤ (after history).remaining ∨ (after history).remaining = budget history := by
  induction history with
  | nil => exact .inr rfl
  | cons op history ih =>
    cases op with
    | set budget => exact .inr rfl
    | charge cost =>
      rw [after_charge, budget]
      by_cases h : Overdrawn (.charge cost :: history)
      · rw [charge_of_overdrawn h]
        exact ih
      · rw [charge_of_not_overdrawn h]
        exact .inl (Int.sub_nonneg.mpr (not_lt.mp (not_or.mp h).2))

theorem remaining_le_budget (history : List Operation) :
    (after history).remaining ≤ budget history := by
  rw [remaining_after]
  exact Int.sub_le_self _ (Int.natCast_nonneg _)

theorem overdrawn_of_budget_neg {history : List Operation} (h : budget history < 0) (cost : Nat) :
    Overdrawn (.charge cost :: history) :=
  .inr (((remaining_le_budget history).trans_lt h).trans_le (Int.natCast_nonneg _))

/-- The budget is a number of 64 bits if all that were set are. -/
theorem budget_bounds {history : List Operation} (h : ∀ op ∈ history, op.InRange) :
    -2 ^ 63 ≤ budget history ∧ budget history < 2 ^ 63 := by
  induction history with
  | nil => decide
  | cons op history ih =>
    cases op with
    | set budget => exact h _ List.mem_cons_self
    | charge cost => exact ih fun op hop => h op (List.mem_cons_of_mem _ hop)

/-- **The ledger balances.** After every history of budgets and charges, what remains, the mark and
the answer to the next charge are as the history tells. -/
theorem history_balanced {history : List Operation} (h : ∀ op ∈ history, op.InRange) :
    Balanced history := by
  obtain ⟨hlower, hupper⟩ := budget_bounds h
  have hle := remaining_le_budget history
  exact {
    remaining_eq := remaining_after history
    status_eq_exhausted_iff := status_after history
    refused := fun cost hover => charge_of_overdrawn hover
    granted := fun cost hpaid => by
      have hcost := not_lt.mp (not_or.mp hpaid).2
      have hless := Int.sub_le_self (after history).remaining
        (Int.natCast_nonneg (min cost (2 ^ 63 - 1)))
      exact ⟨charge_of_not_overdrawn hpaid, Int.sub_nonneg.mpr hcost,
        (hless.trans hle).trans_lt hupper⟩
    remaining_charge_le := fun cost => remaining_after_charge_le cost history
    remaining_bounds := by
      refine ⟨?_, hle.trans_lt hupper⟩
      -- what is below zero is a budget, and that is in range
      rcases remaining_nonneg_or_eq_budget history with hnonneg | heq
      · exact (by decide : (-2 ^ 63 : Int) ≤ 0).trans hnonneg
      · exact heq ▸ hlower
    remaining_nonneg := fun hbudget =>
      (remaining_nonneg_or_eq_budget history).elim id fun heq => heq ▸ hbudget
    overdrawn_of_neg := fun hneg cost => overdrawn_of_budget_neg hneg cost }

/-- Charges before a budget was set, then a budget, a charge that fits it, one of the highest price,
and one that would have fitted. -/
def overdraft : List Operation :=
  [.charge 1, .charge (2 ^ 64 - 1), .charge 3, .set 7, .charge 0, .charge 1]

theorem overdraft_balanced : (∀ op ∈ overdraft, op.InRange) ∧ Balanced overdraft ∧
    (after overdraft).remaining = 7 - 3 ∧ (after overdraft).status = .exhausted := by
  have hrange : ∀ op ∈ overdraft, op.InRange := by decide
  exact ⟨hrange, history_balanced hrange, by decide, by decide⟩

end InkMeter

end MeteredSandbox
