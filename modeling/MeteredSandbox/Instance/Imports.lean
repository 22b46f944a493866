import MeteredSandbox.Machine.Basic

/-!
# Host functions for guests to import

A guest names the functions that it imports by module and name, and says what signature it expects.
A `Resolver` answers with a function or with nothing; `Imports` is the resolver that an embedder
writes down as a table.
-/

namespace MeteredSandbox

/-- Finds the function of a module, a name and a signature. -/
abbrev Resolver := String → String → FuncType → Option HostFunc

/-- A host function under its name. -/
structure ImportDefinition where
  source : String
  name : String
  type : FuncType
  func : HostFunc

/-- Host functions under their names. -/
structure Imports where
  definitions : List ImportDefinition

namespace Imports

/-- No function. -/
def empty : Imports := ⟨[]⟩

/-- Adds a function. It takes the place of one of the same name. -/
def define (i : Imports) (source name : String) (type : FuncType) (func : HostFunc) : Imports :=
  ⟨{ source, name, type, func } :: i.definitions⟩

/-- The function of a name, if it has exactly the signature asked for. -/
def resolve (i : Imports) : Resolver := fun source name type =>
  match i.definitions.find? fun d => d.source = source ∧ d.name = name with
  | some d => if d.type = type then some d.func else none
  | none => none

/-- The function with which a guest ends a call of its own accord. -/
def abort : HostFunc
  | [.i32 code] => .trap (.abort code)
  | _ => .trap (.typeConflict (.host "host.abort expects one i32"))

/-- What every guest may import: `abort` of the module `host`, which takes a code. -/
def standard : Imports :=
  empty.define "host" "abort" { params := [.i32], results := [] } abort

end Imports

end MeteredSandbox
