import MeteredSandbox.Code.Body
import MeteredSandbox.Module.Parse
import MeteredSandbox.Module.Validity

/-!
# Programs

A program is a valid module whose function bodies have been decoded, and whose instructions name
only functions, signatures, globals, tables and memories that are there. It never changes; every
instance of it has its own memory, table and globals.
-/

namespace MeteredSandbox

/-- The most locals, parameters included, that one function may have. -/
def maxLocals : Nat := 50000

/-- Why a module does not become a program. -/
inductive CompileError where
  | read (error : ReadError)
  | validation (error : ValidationError)
  | decode (error : DecodeError)
  deriving DecidableEq

/-- The message of a compile error. -/
def CompileError.message : CompileError → String
  | read e => "parse error: " ++ e.message
  | validation e => "validation error: " ++ e.message
  | decode e => e.message

/-- A decoded function body. -/
structure FuncBody where
  /-- The declared locals, parameters not included. -/
  locals : Array ValType
  code : Array Instr
  deriving DecidableEq

/-- A program. -/
structure Program where
  source : Module
  /-- The signatures of all functions. -/
  signatures : Array (Option FuncType)
  /-- The number of imported functions. -/
  imported : Nat
  /-- The bodies of the functions that are not imported. -/
  bodies : Array FuncBody
  deriving DecidableEq

namespace Module

/-- An instruction names only what is there. -/
def checkOp (m : Module) : Op → Check
  | .call func => Check.require (func < m.totalFuncs) (.funcOutOfRange func)
  | .callIndirect type => do
    Check.require (type < m.types.length) (.typeOutOfRange type)
    Check.require (0 < m.totalTables) (.tableOutOfRange 0)
  | .globalGet i => Check.require (i < m.totalGlobals) (.globalOutOfRange i)
  | .globalSet i => Check.require (i < m.totalGlobals) (.globalOutOfRange i)
  | .load .. => Check.require (0 < m.totalMemories) (.memoryOutOfRange 0)
  | .store .. => Check.require (0 < m.totalMemories) (.memoryOutOfRange 0)
  | .memorySize => Check.require (0 < m.totalMemories) (.memoryOutOfRange 0)
  | .memoryGrow => Check.require (0 < m.totalMemories) (.memoryOutOfRange 0)
  | _ => .ok ()

/-- Every instruction of a body names only what is there. -/
def checkReferences (m : Module) (code : List Instr) : Check :=
  Check.all code fun
    | .op o => m.checkOp o
    | _ => .ok ()

/-- Decodes the body of the function `func`. -/
def compileBody (m : Module) (func : Nat) (entry : CodeEntry) : Except CompileError FuncBody := do
  let params := ((m.funcType? func).map fun t => t.params.length).getD 0
  if maxLocals < params + LocalRun.total entry.locals then
    throw (.decode { func, offset := 0, flaw := .tooManyLocals })
  let code ← (decodeBody func entry.body).mapError .decode
  (m.checkReferences code).mapError .validation
  return { locals := (LocalRun.expand entry.locals).toArray, code := code.toArray }

/-- Decodes bodies, the first of which belongs to the function `func`. -/
def compileBodies (m : Module) (func : Nat) : List CodeEntry → Except CompileError (List FuncBody)
  | [] => .ok []
  | entry :: rest => do
    let body ← m.compileBody func entry
    let bodies ← m.compileBodies (func + 1) rest
    return body :: bodies

end Module

namespace Program

/-- The program of a module. -/
def ofModule (m : Module) : Except CompileError Program := do
  m.validate.mapError .validation
  let bodies ← m.compileBodies m.importedFuncs m.codes
  return {
    source := m
    signatures := (m.funcTypeIndices.map fun i => m.types[i]?).toArray
    imported := m.importedFuncs
    bodies := bodies.toArray }

/-- The program that `bytes` spell. -/
def compile (bytes : List UInt8) : Except CompileError Program := do
  let m ← (Module.parse bytes).mapError .read
  ofModule m

/-- The body of a function that is not imported. -/
def body? (p : Program) (func : Nat) : Option FuncBody :=
  if func < p.imported then none else p.bodies[func - p.imported]?

/-- The signature of a function. -/
def funcType? (p : Program) (func : Nat) : Option FuncType :=
  p.signatures[func]?.join

/-- The function exported as `name`, if the first export of that name is a function. -/
def exportedFunc? (p : Program) (name : String) : Option Nat :=
  match p.source.export? name with
  | some (.func func) => some func
  | _ => none

end Program

end MeteredSandbox
