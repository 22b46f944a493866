import MeteredSandbox.Catalog.Selector
import MeteredSandbox.Digest.Basic
import MeteredSandbox.Module.Adjustment
import MeteredSandbox.Policy.Basic

/-!
# Catalogs

A catalog holds the programs that a host has admitted, under the digests of their bytes. A program
is compiled once, when it is admitted, with its memory and its table bounded by the policy and its
start function turned into an export.
-/

namespace MeteredSandbox

/-- An admitted program. -/
structure CatalogEntry where
  digest : Digest
  program : Program
  points : List EntryPoint
  /-- The start function. -/
  start : Option Nat

namespace CatalogEntry

/-- The function behind a selector. -/
def entry? (e : CatalogEntry) (selector : Int) : Option Nat :=
  (e.points.find? fun point => point.selector = selector).map EntryPoint.func

/-- The selectors of the program, in ascending order. -/
def selectors (e : CatalogEntry) : List Int :=
  (e.points.map EntryPoint.selector).mergeSort

end CatalogEntry

/-- Why a program is not admitted. -/
inductive AdmissionError where
  | compile (error : CompileError)
  | adjustment (error : ValidationError)
  | entrySignature (name : String) (type : FuncType)
  | duplicateSelector (selector : Int) (first second : String)
  deriving DecidableEq

namespace AdmissionError

/-- The message of an admission error. -/
def message : AdmissionError → String
  | compile e => "program does not compile: " ++ e.message
  | adjustment e => "program rewrite failed: " ++ e.message
  | entrySignature name type =>
    s!"entry point {Text.quoted name} must take no parameters and return at most one value, found "
      ++ type.text
  | duplicateSelector selector first second =>
    s!"selector {selector} is exported twice ({Text.quoted first} and {Text.quoted second})"

/-- The admission error for unacceptable entry points. -/
def ofEntryPoints : EntryPointError → AdmissionError
  | .noFunction func => adjustment (.funcOutOfRange func)
  | .signature name type => entrySignature name type
  | .duplicate selector first second => duplicateSelector selector first second

end AdmissionError

namespace Policy

/-- Bounds the memory and the table of a program, and turns its start function into an export. -/
def adjust (p : Policy) : Adjustment := do
  Module.limitMemory p.memoryBound
  Module.limitTables p.tableBound
  Module.moveStart p.startName

/-- The module of some bytes as it is compiled. -/
def adjusted (p : Policy) (bytes : List UInt8) : Except AdmissionError Module := do
  let m ← (Module.parse bytes).mapError fun e => .compile (.read e)
  match p.adjust m with
  | .ok () m => return m
  | .error e _ => throw (.adjustment e)

/-- The catalog entry of a program, if the policy allows it. -/
def accept (p : Policy) (bytes : List UInt8) : Except AdmissionError CatalogEntry := do
  let m ← p.adjusted bytes
  let program ← (Program.ofModule m).mapError .compile
  let points ← (program.entryPoints p.entryMark).mapError .ofEntryPoints
  return { digest := .of bytes, program, points, start := program.exportedFunc? p.startName }

end Policy

/-- The programs that a host has admitted. -/
structure Catalog where
  policy : Policy
  /-- The entries, in the order in which they were admitted. -/
  entries : List CatalogEntry := []

namespace Catalog

/-- The entry of a digest. -/
def get? (c : Catalog) (d : Digest) : Option CatalogEntry :=
  c.entries.find? fun e => e.digest = d

/-- The number of entries. -/
def size (c : Catalog) : Nat := c.entries.length

/-- The digests of all entries, in ascending order. -/
def digests (c : Catalog) : List Digest :=
  (c.entries.map CatalogEntry.digest).mergeSort fun a b => a.toNat ≤ b.toNat

/-- Admits a program and gives its digest. A program that is there already is not compiled again. -/
def insert (bytes : List UInt8) : EStateM AdmissionError Catalog Digest := fun c =>
  match c.get? (.of bytes) with
  | some _ => .ok (.of bytes) c
  | none =>
    match c.policy.accept bytes with
    | .ok e => .ok (.of bytes) { c with entries := c.entries ++ [e] }
    | .error e => .error e c

end Catalog

end MeteredSandbox
