import MeteredSandbox.Machine.Trap
import MeteredSandbox.Module.Basic

/-!
# Tables

A fixed number of slots for functions, empty until an element segment fills them. Indirect calls go
through the table.
-/

namespace MeteredSandbox

/-- The table of an instance. -/
structure Table where
  slots : Array (Option Nat)
  deriving DecidableEq

namespace Table

/-- A fresh table: the least number of slots, all empty. -/
def ofLimits (l : Limits) : Table := ⟨Array.replicate l.min none⟩

/-- The number of slots. -/
def size (t : Table) : Nat := t.slots.size

/-- The slots with those from `index` on filled with the given functions. -/
def fill (slots : Array (Option Nat)) (index : Nat) : List Nat → Array (Option Nat)
  | [] => slots
  | func :: rest => fill (slots.setIfInBounds index (some func)) (index + 1) rest

/-- The table with the functions written from `offset` on, if they fit. -/
def init? (t : Table) (offset : Nat) (funcs : List Nat) : Option Table :=
  if offset + funcs.length ≤ t.size then some ⟨fill t.slots offset funcs⟩ else none

/-- The function in a slot. -/
def get (t : Table) (index : Nat) : Except Trap Nat :=
  match t.slots[index]?.join with
  | some func => .ok func
  | none => .error (.undefinedElement index)

end Table

end MeteredSandbox
