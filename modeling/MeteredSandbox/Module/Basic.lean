import MeteredSandbox.Value

/-!
# Guest modules

What a guest binary declares: signatures, imports, functions with their bodies, at most one table
and one memory, globals, exports, a start function, and the segments that fill the table and the
memory. Function bodies are still bytes here; `Code` decodes them.

Functions, tables, memories and globals are numbered with the imported ones first. The views
`funcTypeIndices`, `allTables`, `allMemories` and `globalTypes` list them in that order, and every
look-up by index goes through a view.
-/

namespace MeteredSandbox

/-- Size limits: elements for a table, pages for a memory. -/
structure Limits where
  min : Nat
  max : Option Nat
  deriving DecidableEq

/-- The type of a global variable. -/
structure GlobalType where
  type : ValType
  mutable : Bool
  deriving DecidableEq

/-- What an import asks for. -/
inductive ImportKind where
  | func (typeIndex : Nat)
  | table (limits : Limits)
  | memory (limits : Limits)
  | global (type : GlobalType)
  deriving DecidableEq

/-- An import: the item called `name` of the module called `source`. -/
structure Import where
  source : String
  name : String
  kind : ImportKind
  deriving DecidableEq

/-- What an export offers, by index. -/
inductive ExportKind where
  | func (index : Nat)
  | table (index : Nat)
  | memory (index : Nat)
  | global (index : Nat)
  deriving DecidableEq

/-- An export. -/
structure Export where
  name : String
  kind : ExportKind
  deriving DecidableEq

/-- An initializer: a literal, or the value of a global. -/
inductive ConstExpr where
  | const (value : Value)
  | global (index : Nat)
  deriving DecidableEq

/-- A run of `count` locals of one type. -/
structure LocalRun where
  count : Nat
  type : ValType
  deriving DecidableEq

/-- The locals of a function and the bytes of its instructions, the final end included. -/
structure CodeEntry where
  locals : List LocalRun
  body : List UInt8
  deriving DecidableEq

/-- A global variable of the module's own. -/
structure Global where
  type : GlobalType
  init : ConstExpr
  deriving DecidableEq

/-- Functions to be written into a table. -/
structure ElementSegment where
  table : Nat
  offset : ConstExpr
  funcs : List Nat
  deriving DecidableEq

/-- Bytes to be written into a memory. -/
structure DataSegment where
  memory : Nat
  offset : ConstExpr
  bytes : List UInt8
  deriving DecidableEq

/-- A guest module. -/
structure Module where
  types : List FuncType := []
  imports : List Import := []
  /-- The type indices of the module's own functions. -/
  funcs : List Nat := []
  tables : List Limits := []
  memories : List Limits := []
  globals : List Global := []
  exports : List Export := []
  start : Option Nat := none
  elements : List ElementSegment := []
  codes : List CodeEntry := []
  data : List DataSegment := []
  deriving DecidableEq

namespace ImportKind

/-- The type index of an imported function. -/
def func? : ImportKind → Option Nat
  | func typeIndex => some typeIndex
  | _ => none

/-- The limits of an imported table. -/
def table? : ImportKind → Option Limits
  | table limits => some limits
  | _ => none

/-- The limits of an imported memory. -/
def memory? : ImportKind → Option Limits
  | memory limits => some limits
  | _ => none

/-- The type of an imported global. -/
def global? : ImportKind → Option GlobalType
  | global type => some type
  | _ => none

end ImportKind

namespace LocalRun

/-- The types of a list of runs, one by one. -/
def expand (runs : List LocalRun) : List ValType :=
  runs.flatMap fun r => List.replicate r.count r.type

/-- How many locals a list of runs declares. -/
def total : List LocalRun → Nat
  | [] => 0
  | r :: rest => r.count + total rest

theorem length_expand (runs : List LocalRun) : (expand runs).length = total runs := by
  induction runs with
  | nil => rfl
  | cons r rest ih => simp_all [expand, total]

end LocalRun

namespace Module

/-- The imported items that `pick` selects, in order. -/
def imported {α : Type} (m : Module) (pick : ImportKind → Option α) : List α :=
  m.imports.filterMap fun i => pick i.kind

/-- The type indices of all functions. -/
def funcTypeIndices (m : Module) : List Nat :=
  m.imported ImportKind.func? ++ m.funcs

/-- The limits of all tables. -/
def allTables (m : Module) : List Limits :=
  m.imported ImportKind.table? ++ m.tables

/-- The limits of all memories. -/
def allMemories (m : Module) : List Limits :=
  m.imported ImportKind.memory? ++ m.memories

/-- The types of all globals. -/
def globalTypes (m : Module) : List GlobalType :=
  m.imported ImportKind.global? ++ m.globals.map Global.type

/-- The number of imported functions. -/
def importedFuncs (m : Module) : Nat := (m.imported ImportKind.func?).length

/-- The number of functions. -/
def totalFuncs (m : Module) : Nat := m.funcTypeIndices.length

/-- The number of tables. -/
def totalTables (m : Module) : Nat := m.allTables.length

/-- The number of memories. -/
def totalMemories (m : Module) : Nat := m.allMemories.length

/-- The number of globals. -/
def totalGlobals (m : Module) : Nat := m.globalTypes.length

/-- The type index of a function. -/
def funcTypeIndex? (m : Module) (func : Nat) : Option Nat := m.funcTypeIndices[func]?

/-- The signature of a function. -/
def funcType? (m : Module) (func : Nat) : Option FuncType :=
  (m.funcTypeIndex? func).bind fun i => m.types[i]?

/-- The first export called `name`. -/
def export? (m : Module) (name : String) : Option ExportKind :=
  (m.exports.find? fun e => e.name = name).map Export.kind

end Module

end MeteredSandbox
