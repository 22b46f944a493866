import MeteredSandbox.Module.Basic
import MeteredSandbox.Text.Escape

/-!
# Valid modules

The checks that a module passes before its bodies are decoded: indices in range, at most one table
and one memory, limits that make sense, initializers of the right type, distinct export names, and a
start function that takes and returns nothing. The bodies themselves are not typed here; the machine
checks operands as it goes.

`Module.validate` makes the checks in a fixed order and reports the first that fails.
-/

namespace MeteredSandbox

/-- The most pages that a memory can have. -/
def maxPages : Nat := 65536

/-- The most elements that a table can have. -/
def maxTableSize : Nat := 65536

/-- Why a module is refused. -/
inductive ValidationError where
  | typeOutOfRange (index : Nat)
  | funcOutOfRange (index : Nat)
  | tableOutOfRange (index : Nat)
  | memoryOutOfRange (index : Nat)
  | globalOutOfRange (index : Nat)
  | multipleMemories
  | multipleTables
  | invalidLimits (min max : Nat)
  | resultArity (index arity : Nat)
  | duplicateExport (name : String)
  | exportExists (name : String)
  | startSignature (type : FuncType)
  | mutableGlobalInConstExpr (index : Nat)
  | constExprType (expected found : ValType)
  | memoryLimit (minimum limit : Nat)
  | tableLimit (minimum limit : Nat)
  deriving DecidableEq

namespace ValidationError

/-- The message of a validation error. -/
def message : ValidationError → String
  | typeOutOfRange i => s!"type index {i} out of range"
  | funcOutOfRange i => s!"function index {i} out of range"
  | tableOutOfRange i => s!"table index {i} out of range"
  | memoryOutOfRange i => s!"memory index {i} out of range"
  | globalOutOfRange i => s!"global index {i} out of range"
  | multipleMemories => "at most one memory is supported"
  | multipleTables => "at most one table is supported"
  | invalidLimits min max => s!"limits max {max} is below min {min}"
  | resultArity i arity => s!"type {i} returns {arity} values; at most one is supported"
  | duplicateExport name => "export name " ++ Text.quoted name ++ " is used more than once"
  | exportExists name => "export " ++ Text.quoted name ++ " already exists"
  | startSignature type => "start function must have type [] -> [], found " ++ type.text
  | mutableGlobalInConstExpr i => s!"constant expression reads mutable global {i}"
  | constExprType expected found =>
    "constant expression has type " ++ found.name ++ ", expected " ++ expected.name
  | memoryLimit minimum limit =>
    s!"memory minimum of {minimum} pages exceeds the heap limit of {limit} pages"
  | tableLimit minimum limit =>
    s!"table minimum of {minimum} elements exceeds the limit of {limit}"

end ValidationError

/-- A check: nothing to say, or the reason to refuse. -/
abbrev Check := Except ValidationError Unit

namespace Check

/-- Refuses for the reason `e` unless `ok` holds. -/
def require (ok : Bool) (e : ValidationError) : Check :=
  if ok then .ok () else .error e

@[simp] theorem require_eq_ok_iff {ok : Bool} {e : ValidationError} :
    require ok e = .ok () ↔ ok = true := by
  cases ok <;> simp [require]

/-- Makes the check for every element, in order, and stops at the first that fails. -/
def all {α : Type} (xs : List α) (check : α → Check) : Check :=
  match xs with
  | [] => .ok ()
  | x :: rest => do
    check x
    all rest check

theorem bind_eq_ok_iff {a : Check} {b : Unit → Check} :
    (a >>= b) = .ok () ↔ a = .ok () ∧ b () = .ok () := by
  cases a <;> simp [bind, Except.bind]

theorem all_eq_ok_iff {α : Type} {xs : List α} {check : α → Check} :
    all xs check = .ok () ↔ ∀ x ∈ xs, check x = .ok () := by
  induction xs with
  | nil => simp [all]
  | cons x rest ih => simp [all, bind_eq_ok_iff, ih]

end Check

namespace Limits

/-- The maximum, if there is one, is not below the minimum. -/
def checkOrder (l : Limits) : Check :=
  match l.max with
  | some max => Check.require (l.min ≤ max) (.invalidLimits l.min max)
  | none => .ok ()

/-- The limits of a table make sense. -/
def checkTable (l : Limits) : Check := do
  l.checkOrder
  Check.require (l.min ≤ maxTableSize) (.tableLimit l.min maxTableSize)

/-- The limits of a memory make sense. -/
def checkMemory (l : Limits) : Check := do
  l.checkOrder
  Check.require (l.min ≤ maxPages) (.memoryLimit l.min maxPages)

end Limits

namespace ConstExpr

/-- The type of an initializer. It may read an immutable global whose index is below `visible`. -/
def type (globals : List GlobalType) (visible : Nat) :
    ConstExpr → Except ValidationError ValType
  | const v => .ok v.type
  | global i =>
    match if i < visible then globals[i]? else none with
    | none => .error (.globalOutOfRange i)
    | some g => if g.mutable then .error (.mutableGlobalInConstExpr i) else .ok g.type

/-- The initializer has the type `expected`. -/
def checkType (globals : List GlobalType) (visible : Nat) (expected : ValType)
    (e : ConstExpr) : Check := do
  let found ← e.type globals visible
  Check.require (expected = found) (.constExprType expected found)

end ConstExpr

namespace Module

/-- Every signature returns at most one value. -/
def checkTypes (m : Module) : Check :=
  Check.all m.types.zipIdx fun (type, i) =>
    Check.require (type.results.length ≤ 1) (.resultArity i type.results.length)

/-- Every function has a signature. -/
def checkFuncs (m : Module) : Check :=
  Check.all m.funcTypeIndices fun i => Check.require (i < m.types.length) (.typeOutOfRange i)

/-- An imported table or memory has sensible limits. -/
def checkImport (i : Import) : Check :=
  match i.kind with
  | .table limits => limits.checkTable
  | .memory limits => limits.checkMemory
  | _ => .ok ()

/-- Tables and memories have sensible limits, and there is at most one of each. -/
def checkSpaces (m : Module) : Check := do
  Check.all m.imports checkImport
  Check.require (m.totalTables ≤ 1) .multipleTables
  Check.require (m.totalMemories ≤ 1) .multipleMemories
  Check.all m.tables Limits.checkTable
  Check.all m.memories Limits.checkMemory

/-- Every global starts with a value of its type, read if at all from a global before it. -/
def checkGlobals (m : Module) : Check :=
  let imported := (m.imported ImportKind.global?).length
  Check.all m.globals.zipIdx fun (g, i) =>
    g.init.checkType m.globalTypes (imported + i) g.type.type

/-- The index of an export is in range. -/
def checkExportKind (m : Module) : ExportKind → Check
  | .func i => Check.require (i < m.totalFuncs) (.funcOutOfRange i)
  | .table i => Check.require (i < m.totalTables) (.tableOutOfRange i)
  | .memory i => Check.require (i < m.totalMemories) (.memoryOutOfRange i)
  | .global i => Check.require (i < m.totalGlobals) (.globalOutOfRange i)

/-- Every export has a name that is not among `seen` nor used before, and an index in range. -/
def checkExports (m : Module) (seen : List String) : List Export → Check
  | [] => .ok ()
  | e :: rest => do
    Check.require (e.name ∉ seen) (.duplicateExport e.name)
    m.checkExportKind e.kind
    m.checkExports (e.name :: seen) rest

/-- The start function takes and returns nothing. -/
def checkStart (m : Module) : Check :=
  match m.start with
  | none => .ok ()
  | some func =>
    match m.funcType? func with
    | none => .error (.funcOutOfRange func)
    | some type => Check.require (type.params = [] ∧ type.results = []) (.startSignature type)

/-- A segment of functions names a table, an offset and functions that are there. -/
def checkElements (m : Module) (s : ElementSegment) : Check := do
  Check.require (s.table < m.totalTables) (.tableOutOfRange s.table)
  s.offset.checkType m.globalTypes m.totalGlobals .i32
  Check.all s.funcs fun i => Check.require (i < m.totalFuncs) (.funcOutOfRange i)

/-- A segment of bytes names a memory and an offset that are there. -/
def checkData (m : Module) (s : DataSegment) : Check := do
  Check.require (s.memory < m.totalMemories) (.memoryOutOfRange s.memory)
  s.offset.checkType m.globalTypes m.totalGlobals .i32

/-- Makes all checks. -/
def validate (m : Module) : Check := do
  m.checkTypes
  m.checkFuncs
  m.checkSpaces
  m.checkGlobals
  m.checkExports [] m.exports
  m.checkStart
  Check.all m.elements m.checkElements
  Check.all m.data m.checkData

end Module

end MeteredSandbox
