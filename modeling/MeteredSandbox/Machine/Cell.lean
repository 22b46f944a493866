import MeteredSandbox.Machine.Trap
import MeteredSandbox.Module.Basic

/-!
# Global variables

A cell is the declared type of a global and its value. Only a mutable one can be set, and only to a
value of its type.
-/

namespace MeteredSandbox

/-- The state of a global variable. -/
structure GlobalCell where
  type : GlobalType
  value : Value
  deriving DecidableEq

namespace GlobalCell

/-- The cell with a new value. -/
def set (g : GlobalCell) (v : Value) : Except Trap GlobalCell :=
  if !g.type.mutable then .error (.malformed .immutableGlobal)
  else if v.type ≠ g.type.type then .error (.typeConflict .globalOperand)
  else .ok { g with value := v }

end GlobalCell

end MeteredSandbox
