import MeteredSandbox.Policy.Basic
import MeteredSandbox.Toml.Document

/-!
# Policies as documents

A policy is written as a TOML document. A setting that is left out has its default, and keys that
are no settings are ignored.
-/

namespace MeteredSandbox

/-- Why a document does not give a policy. -/
inductive PolicyError where
  /-- It is no document, or a setting has a value of the wrong kind. -/
  | unreadable
  | flawed (flaw : PolicyFlaw)
  deriving DecidableEq

namespace Toml

/-- A number of 32 bits. -/
def Item.word? : Item → Option Nat
  | .integer n => if 0 ≤ n ∧ n < 0x1_0000_0000 then some n.toNat else none
  | _ => none

/-- A number that is not negative. -/
def Item.amount? : Item → Option Nat
  | .integer n => if 0 ≤ n then some n.toNat else none
  | _ => none

/-- A text. -/
def Item.text? : Item → Option String
  | .text content => some content
  | _ => none

/-- A setting, or its default where the key is absent. -/
def Entries.setting {α : Type} (entries : Entries) (key : String) (read : Item → Option α)
    (default : α) : Option α :=
  match entries.lookup key with
  | none => some default
  | some item => read item

/-- One of the prices in a list, or its default where the list is shorter. -/
def listedPrice (items : List Item) (index default : Nat) : Option Nat :=
  match items[index]? with
  | none => some default
  | some item => item.amount?

end Toml

open Toml

namespace Pricing

/-- The prices of a table. -/
def ofEntries (entries : Entries) : Option Pricing := do
  let d : Pricing := {}
  return {
    base := ← entries.setting "base" Item.amount? d.base
    memoryAccess := ← entries.setting "memory_access" Item.amount? d.memoryAccess
    call := ← entries.setting "call" Item.amount? d.call
    memoryGrow := ← entries.setting "memory_grow" Item.amount? d.memoryGrow
    perLocal := ← entries.setting "local" Item.amount? d.perLocal }

/-- The prices of a list. More elements than there are prices do not matter. -/
def ofList (items : List Item) : Option Pricing := do
  let d : Pricing := {}
  return {
    base := ← listedPrice items 0 d.base
    memoryAccess := ← listedPrice items 1 d.memoryAccess
    call := ← listedPrice items 2 d.call
    memoryGrow := ← listedPrice items 3 d.memoryGrow
    perLocal := ← listedPrice items 4 d.perLocal }

/-- Prices are given in a table or in a list. A date counts as a table none of whose fields is a
price. -/
def ofItem? : Item → Option Pricing
  | .table _ entries => ofEntries entries
  | .list items => ofList items
  | .date => some {}
  | _ => none

end Pricing

namespace Policy

/-- The policy of a table of settings, flawed or not. -/
def ofEntries (entries : Entries) : Option Policy := do
  let d : Policy := {}
  return {
    memoryBound := ← entries.setting "heap_bound_pages" Item.word? d.memoryBound
    tableBound := ← entries.setting "table_bound_elems" Item.word? d.tableBound
    entryMark := ← entries.setting "entry_prefix" Item.text? d.entryMark
    startName := ← entries.setting "start_export" Item.text? d.startName
    pricing := ← entries.setting "pricing" Pricing.ofItem? d.pricing }

/-- The policy that a document spells. -/
def parse (document : String) : Except PolicyError Policy :=
  match (Toml.read document).bind ofEntries with
  | none => .error .unreadable
  | some p =>
    match p.check with
    | .ok () => .ok p
    | .error flaw => .error (.flawed flaw)

end Policy

end MeteredSandbox
