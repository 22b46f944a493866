import MeteredSandbox.Module.Validity

/-!
# Adjustments before admission

A host bounds the memory and the table of a program before it admits it, and turns the start
function into an ordinary export so that linking a program never runs guest code.

An adjustment that fails may have changed part of the module already, so an `Adjustment` keeps the
module in both cases.
-/

namespace MeteredSandbox

/-- A step that changes a module, or fails and leaves a module behind all the same. -/
abbrev Adjustment := EStateM ValidationError Module Unit

namespace Limits

/-- The lesser of the maximum, if there is one, and `limit`. -/
def bound (l : Limits) (limit : Nat) : Nat :=
  Nat.min (l.max.getD limit) limit

/-- Bounds the maximum of every element in turn, up to the first whose minimum is above the bound.
That one is reported by `tooLarge` with its minimum and the bound. -/
def boundAll (limit : Nat) (tooLarge : Nat → Nat → ValidationError) :
    List Limits → List Limits × Option ValidationError
  | [] => ([], none)
  | l :: rest =>
    if l.min ≤ l.bound limit then
      let (rest', e) := boundAll limit tooLarge rest
      ({ l with max := some (l.bound limit) } :: rest', e)
    else (l :: rest, some (tooLarge l.min (l.bound limit)))

end Limits

namespace Module

/-- Bounds the memory by `limit` pages. -/
def limitMemory (limit : Nat) : Adjustment := fun m =>
  if 1 < m.memories.length then .error .multipleMemories m
  else
    match Limits.boundAll limit .memoryLimit m.memories with
    | (memories, none) => .ok () { m with memories }
    | (memories, some e) => .error e { m with memories }

/-- Bounds every table by `limit` elements. -/
def limitTables (limit : Nat) : Adjustment := fun m =>
  match Limits.boundAll limit .tableLimit m.tables with
  | (tables, none) => .ok () { m with tables }
  | (tables, some e) => .error e { m with tables }

/-- Turns the start function, if there is one, into an export called `name`, which must be free. -/
def moveStart (name : String) : Adjustment := fun m =>
  if (m.export? name).isSome then .error (.exportExists name) m
  else
    match m.start with
    | none => .ok () m
    | some func =>
      .ok () { m with start := none, exports := m.exports ++ [{ name, kind := .func func }] }

end Module

end MeteredSandbox
