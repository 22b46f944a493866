import MeteredSandbox.Machine.Trap

/-!
# Checkpoints

The machine accounts for its work through a checkpoint. It asks for the price of an instruction
before it executes it and for leave to open a frame before it opens it, and it reports every frame
that is closed. A refusal is a trap that ends the call.

The machine knows nothing else of whoever keeps the account, whose state is of any type.
-/

namespace MeteredSandbox

/-- The questions and reports of a machine, over the state of whoever answers. -/
structure Checkpoint (σ : Type) where
  charge : Nat → EStateM Trap σ Unit
  enterFrame : EStateM Trap σ Unit
  leaveFrame : σ → σ

namespace Checkpoint

/-- Never refuses. -/
def unmetered : Checkpoint Unit where
  charge _ := pure ()
  enterFrame := pure ()
  leaveFrame := id

end Checkpoint

/-- An account of one call: what may still be spent, and what has been done. -/
structure Budget where
  ink : Nat
  depth : Nat
  spent : Nat := 0
  entered : Nat := 0
  left : Nat := 0
  deriving DecidableEq

namespace Budget

/-- Spends ink that is there. -/
def charge (cost : Nat) : EStateM Trap Budget Unit := fun b =>
  if b.ink < cost then .error .inkExhausted b
  else .ok () { b with ink := b.ink - cost, spent := b.spent + cost }

/-- Opens a frame if the depth allows one more. -/
def enterFrame : EStateM Trap Budget Unit := fun b =>
  if b.depth = 0 then .error .stackExhausted b
  else .ok () { b with depth := b.depth - 1, entered := b.entered + 1 }

/-- Closes a frame. -/
def leaveFrame (b : Budget) : Budget :=
  { b with depth := b.depth + 1, left := b.left + 1 }

/-- Charges a budget. -/
def checkpoint : Checkpoint Budget where
  charge := charge
  enterFrame := enterFrame
  leaveFrame := leaveFrame

end Budget

end MeteredSandbox
