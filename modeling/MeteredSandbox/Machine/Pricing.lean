import MeteredSandbox.Code.Nesting

/-!
# Prices

What an instruction costs before it is executed, in ink. A function also pays for the locals that it
declares, when it is entered.
-/

namespace MeteredSandbox

/-- The price of each class of instruction. -/
structure Pricing where
  base : Nat := 1
  memoryAccess : Nat := 3
  call : Nat := 5
  memoryGrow : Nat := 100
  /-- For every declared local of a function that is entered. -/
  perLocal : Nat := 1
  deriving DecidableEq

namespace Pricing

/-- The price of an instruction without structure. -/
def opCost (p : Pricing) : Op → Nat
  | .load .. | .store .. => p.memoryAccess
  | .call _ | .callIndirect _ => p.call
  | .memoryGrow => p.memoryGrow
  | _ => p.base

/-- The price of an instruction. -/
def cost (p : Pricing) : Instr → Nat
  | .op o => p.opCost o
  | _ => p.base

/-- The price of `count` locals. Prices are 64-bit numbers, and this one stops at the largest. -/
def localsCost (p : Pricing) (count : Nat) : Nat :=
  min (p.perLocal * count) 0xFFFF_FFFF_FFFF_FFFF

end Pricing

end MeteredSandbox
