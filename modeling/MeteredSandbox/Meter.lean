import MeteredSandbox.Machine.Checkpoint

/-!
# Meters

A linked program has two budgets: **ink**, which every instruction costs, and **depth**, the number
of frames that may still be opened. The embedder sets both; the machine is charged to them through
`Meters.checkpoint`.

Once a charge has been refused, the ink meter stays exhausted until it is set again, even if a later
charge would fit.
-/

namespace MeteredSandbox

/-- Whether an ink meter has refused a charge since it was last set. -/
inductive InkStatus where
  | ready
  | exhausted
  deriving DecidableEq

/-- The ink that a guest may still spend. -/
structure InkMeter where
  /-- Below zero only if it was set so. -/
  remaining : Int := 0
  status : InkStatus := .ready
  /-- Whether it has ever been set. -/
  configured : Bool := false
  deriving DecidableEq

namespace InkMeter

/-- The most that one charge takes. Prices may be higher. -/
def maxCharge : Nat := 0x7FFF_FFFF_FFFF_FFFF

/-- A meter with a new budget, ready again. The old meter does not matter. -/
def set (budget : Int) (_ : InkMeter) : InkMeter :=
  { remaining := budget, status := .ready, configured := true }

/-- Takes a cost off the budget. A charge that does not fit takes nothing and exhausts the meter. -/
def charge (cost : Nat) : EStateM Trap InkMeter Unit := fun m =>
  match m.status with
  | .exhausted => .error .inkExhausted m
  | .ready =>
    if m.remaining < (min cost maxCharge : Nat) then
      .error .inkExhausted { m with status := .exhausted }
    else .ok () { m with remaining := m.remaining - (min cost maxCharge : Nat) }

end InkMeter

/-- The number of frames that a guest may still open. -/
structure DepthMeter where
  remaining : Nat := 0
  /-- Whether it has ever been set. -/
  configured : Bool := false
  deriving DecidableEq

namespace DepthMeter

/-- The most frames that a meter counts. -/
def maxRemaining : Nat := 0xFFFF_FFFF

/-- A meter with a new limit. The old meter does not matter. -/
def set (limit : Nat) (_ : DepthMeter) : DepthMeter :=
  { remaining := limit, configured := true }

/-- Counts a frame that is opened. -/
def enter : EStateM Trap DepthMeter Unit := fun m =>
  if m.remaining = 0 then .error .stackExhausted m
  else .ok () { m with remaining := m.remaining - 1 }

/-- Counts a frame that is closed. -/
def leave (m : DepthMeter) : DepthMeter :=
  { m with remaining := min (m.remaining + 1) maxRemaining }

/-- The meter with the depth that it had before a call. -/
def restore (remaining : Nat) (m : DepthMeter) : DepthMeter := { m with remaining }

end DepthMeter

/-- Both meters of a linked program. -/
structure Meters where
  ink : InkMeter := {}
  depth : DepthMeter := {}
  deriving DecidableEq

namespace Meters

/-- Whether both have been set. -/
def configured (m : Meters) : Bool := m.ink.configured && m.depth.configured

/-- Charges ink. -/
def charge (cost : Nat) : EStateM Trap Meters Unit := fun m =>
  match InkMeter.charge cost m.ink with
  | .ok () ink => .ok () { m with ink }
  | .error t ink => .error t { m with ink }

/-- Opens a frame. -/
def enterFrame : EStateM Trap Meters Unit := fun m =>
  match DepthMeter.enter m.depth with
  | .ok () depth => .ok () { m with depth }
  | .error t depth => .error t { m with depth }

/-- Closes a frame. -/
def leaveFrame (m : Meters) : Meters := { m with depth := m.depth.leave }

/-- Charges the machine's work to a pair of meters. -/
def checkpoint : Checkpoint Meters where
  charge := charge
  enterFrame := enterFrame
  leaveFrame := leaveFrame

end Meters

end MeteredSandbox
