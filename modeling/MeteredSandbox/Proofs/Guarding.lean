import MeteredSandbox.Proofs.Replaying
import MeteredSandbox.Session.Registry

/-!
# Guarded calls

What a guest can do to the embedder that calls it. A panic leaves the machine where it was, with
frames open and values of its own on the operand stack, and nobody tells the meters. The guard and
the restored depth make good for both, so that after any call of a linked program, however it ended,

* the operands are those from before, value for value (`LinkedProgram.call_operands`), because all
  that the machine leaves lies on top of them;
* the depth meter is as it was (`LinkedProgram.call_depth`), and the ink has at most been used
  (`LinkedProgram.call_worn`). The latter holds of every log that is put before the meters, so no
  run has to be looked at.
-/

namespace MeteredSandbox

/-! ### Worn meters -/

namespace Meters

/-- Meters that have at most been **worn**: ink has at most been spent, and not beyond what was
there, and no budget was set. -/
structure Worn (m m' : Meters) : Prop where
  ink_le : m'.ink.remaining ≤ m.ink.remaining
  solvent : 0 ≤ m.ink.remaining → 0 ≤ m'.ink.remaining
  inkConfigured : m'.ink.configured = m.ink.configured
  depthConfigured : m'.depth.configured = m.depth.configured

theorem Worn.refl (m : Meters) : Worn m m := ⟨le_rfl, id, rfl, rfl⟩

theorem Worn.trans {m m' m'' : Meters} (h : Worn m m') (h' : Worn m' m'') : Worn m m'' where
  ink_le := h'.ink_le.trans h.ink_le
  solvent hm := h'.solvent (h.solvent hm)
  inkConfigured := h'.inkConfigured.trans h.inkConfigured
  depthConfigured := h'.depthConfigured.trans h.depthConfigured

/-- A charge takes what is there, or nothing. -/
theorem charge_worn (cost : Nat) (m : Meters) : Worn m (leftState (charge cost m)) := by
  obtain ⟨⟨remaining, status, configured⟩, depth⟩ := m
  unfold charge InkMeter.charge
  cases status with
  | exhausted => exact .refl _
  | ready =>
    dsimp only
    by_cases hlt : remaining < (min cost InkMeter.maxCharge : Nat)
    · rw [if_pos hlt]
      exact ⟨le_rfl, id, rfl, rfl⟩
    · rw [if_neg hlt]
      have hle : ((min cost InkMeter.maxCharge : Nat) : Int) ≤ remaining := not_lt.mp hlt
      exact ⟨Int.sub_le_self _ (Int.natCast_nonneg _), fun _ => Int.sub_nonneg.mpr hle, rfl, rfl⟩

theorem enterFrame_worn (m : Meters) : Worn m (leftState (enterFrame m)) := by
  unfold enterFrame DepthMeter.enter
  by_cases hzero : m.depth.remaining = 0
  · rw [if_pos hzero]
    exact .refl _
  · rw [if_neg hzero]
    exact ⟨le_rfl, id, rfl, rfl⟩

theorem leaveFrame_worn (m : Meters) : Worn m m.leaveFrame := ⟨le_rfl, id, rfl, rfl⟩

/-- Whatever is asked of meters, in whichever order, they are worn by it. -/
theorem after_worn (m : Meters) (log : List Event) : Worn m (checkpoint.after m log) := by
  induction log generalizing m with
  | nil => exact .refl m
  | cons e log ih =>
    have hmeet : Worn m (leftState (checkpoint.meet e m)) := by
      cases e with
      | charge cost answer => exact charge_worn cost m
      | enter answer => exact enterFrame_worn m
      | leave => exact leaveFrame_worn m
    exact hmeet.trans (ih _)

end Meters

/-! ### Calls -/

/-- Cutting back to the height of the lower of two stacks leaves the lower one. -/
theorem Stack.truncate_beneath_height {α : Type} (under s : Stack α) :
    (under.beneath s).truncate under.height = under := by
  have hcut := Stack.truncate_beneath under s 0
  have hempty : s.truncate 0 = .empty := by
    apply Stack.ext
    rw [Stack.items_truncate, Nat.sub_zero, s.height_eq, List.drop_length]
    rfl
  rw [Nat.zero_add, hempty, Stack.beneath_empty] at hcut
  exact hcut

namespace LinkedProgram

variable (p : LinkedProgram) (pricing : Pricing) (limit func : Nat) (operands : OperandStack)

/-- **No call reaches the operands** of its embedder, even if it ends in a panic. -/
theorem call_operands : (p.call pricing limit func operands).2.1 = operands := by
  change (p.guest.invoke Meters.checkpoint pricing limit func [] operands
    p.meters).operands.truncate operands.height = operands
  have hbeneath := p.guest.invoke_beneath Meters.checkpoint pricing limit func []
    (.refl Meters.checkpoint) operands p.meters
  dsimp only [id] at hbeneath
  rw [hbeneath]
  exact Stack.truncate_beneath_height operands _

theorem call_entry : (p.call pricing limit func operands).2.2.entry = p.entry := rfl

/-- **The meters are worn by a call** and nothing else happens to them. -/
theorem call_worn : Meters.Worn p.meters (p.call pricing limit func operands).2.2.meters := by
  have haccount := p.guest.invoke_account Meters.checkpoint pricing limit func [] operands p.meters
  have hworn := Meters.after_worn p.meters
    (p.guest.events Meters.checkpoint pricing limit func [] operands p.meters)
  rw [← haccount] at hworn
  exact ⟨hworn.ink_le, hworn.solvent, hworn.inkConfigured, hworn.depthConfigured⟩

/-- The depth meter is as it was. -/
theorem call_depth : (p.call pricing limit func operands).2.2.meters.depth = p.meters.depth := by
  have hconfigured := (p.call_worn pricing limit func operands).depthConfigured
  change DepthMeter.mk p.meters.depth.remaining
    (p.call pricing limit func operands).2.2.meters.depth.configured = p.meters.depth
  rw [hconfigured]

end LinkedProgram

end MeteredSandbox
