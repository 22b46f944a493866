import MeteredSandbox.Machine.Pricing
import MeteredSandbox.Module.Validity
import MeteredSandbox.Text.Escape

/-!
# Policies

What a host demands of the programs that it admits, how it finds their entry points, and what it
charges for their work.
-/

namespace MeteredSandbox

/-- What a host demands and charges. -/
structure Policy where
  /-- The most pages that a guest's memory may have. -/
  memoryBound : Nat := 128
  /-- The most elements that a guest's table may have. -/
  tableBound : Nat := 4096
  /-- What the names of entry points start with. A number follows. -/
  entryMark : String := "entry_"
  /-- The name under which the start function of a program is exported. -/
  startName : String := "guest_start"
  pricing : Pricing := {}
  deriving DecidableEq

/-- Why a policy makes no sense. -/
inductive PolicyFlaw where
  /-- Every name would be the name of an entry point. -/
  | emptyEntryMark
  /-- The start function could be taken for an entry point. -/
  | startNameIsMarked (mark : String)
  | memoryTooLarge (pages : Nat)
  | tableTooLarge (size : Nat)
  deriving DecidableEq

namespace PolicyFlaw

/-- The setting that is to blame. -/
def setting : PolicyFlaw → String
  | emptyEntryMark => "entry_prefix"
  | startNameIsMarked _ => "start_export"
  | memoryTooLarge _ => "heap_bound_pages"
  | tableTooLarge _ => "table_bound_elems"

/-- What is wrong with the setting. -/
def reason : PolicyFlaw → String
  | emptyEntryMark => "must not be empty"
  | startNameIsMarked mark => "must not start with the entry prefix " ++ Text.quoted mark
  | memoryTooLarge pages => s!"{pages} exceeds the 65536 page address space"
  | tableTooLarge size => s!"{size} exceeds 65536"

/-- The message of a flaw. -/
def message (f : PolicyFlaw) : String :=
  s!"invalid value for {f.setting}: {f.reason}"

end PolicyFlaw

namespace Policy

/-- The first flaw of a policy. -/
def check (p : Policy) : Except PolicyFlaw Unit :=
  if p.entryMark.isEmpty then .error .emptyEntryMark
  else if p.entryMark.toList.isPrefixOf p.startName.toList then
    .error (.startNameIsMarked p.entryMark)
  else if maxPages < p.memoryBound then .error (.memoryTooLarge p.memoryBound)
  else if maxTableSize < p.tableBound then .error (.tableTooLarge p.tableBound)
  else .ok ()

end Policy

end MeteredSandbox
