import MeteredSandbox.Instance.Imports
import MeteredSandbox.Machine.Run

/-!
# Instances

An instance is a program with its imports resolved and a memory, a table and globals of its own.
`instantiate` sets these up as the module declares: it resolves the imports in order, evaluates the
globals in order, fills the table, and fills the memory. No guest code runs.

`Instance.invoke` calls a function of an instance on top of an operand stack.
-/

namespace MeteredSandbox

/-- Why a program cannot be instantiated. -/
inductive LinkError where
  | unresolvedImport (source name : String)
  | unsupportedImport (source name : String)
  | elementsOutOfBounds (segment : Nat)
  | dataOutOfBounds (segment : Nat)
  | invalidInitializer
  deriving DecidableEq

/-- The message of a link error. -/
def LinkError.message : LinkError → String
  | unresolvedImport source name => s!"unresolved import: {source}.{name}"
  | unsupportedImport source name =>
    s!"unsupported import kind for {source}.{name}; only functions may be imported"
  | elementsOutOfBounds segment => s!"element segment {segment} does not fit in its table"
  | dataOutOfBounds segment => s!"data segment {segment} does not fit in memory"
  | invalidInitializer => "initializer does not evaluate to a value of the declared type"

/-- A program with its imports and its state. -/
structure Instance where
  program : Program
  host : Array HostFunc
  store : Store

/-- The value of an initializer, given the globals before it. -/
def ConstExpr.eval (globals : List GlobalCell) : ConstExpr → Option Value
  | const v => some v
  | global i => (globals[i]?).map GlobalCell.value

/-- The offset of a segment: a 32-bit integer, read without a sign. -/
def ConstExpr.evalOffset (globals : List GlobalCell) (e : ConstExpr) : Except LinkError Nat :=
  match e.eval globals with
  | some (.i32 bits) => .ok bits.toNat
  | _ => .error .invalidInitializer

namespace Module

/-- The function that an import stands for. Only functions can be imported. -/
def resolveImport (m : Module) (resolve : Resolver) (i : Import) : Except LinkError HostFunc :=
  match i.kind with
  | .func typeIndex =>
    match (m.types[typeIndex]?).bind (resolve i.source i.name) with
    | some f => .ok f
    | none => .error (.unresolvedImport i.source i.name)
  | _ => .error (.unsupportedImport i.source i.name)

/-- Adds the cells of further globals to those before them. -/
def initGlobals (before : List GlobalCell) : List Global → Except LinkError (List GlobalCell)
  | [] => .ok before
  | g :: rest =>
    match g.init.eval before with
    | some value => initGlobals (before ++ [{ type := g.type, value }]) rest
    | none => .error .invalidInitializer

/-- The table after the element segments, the first of which has the number `segment`. -/
def initTable (globals : List GlobalCell) (segment : Nat) (table : Option Table) :
    List ElementSegment → Except LinkError (Option Table)
  | [] => .ok table
  | s :: rest => do
    let offset ← s.offset.evalOffset globals
    match table.bind fun t => t.init? offset s.funcs with
    | some t => initTable globals (segment + 1) (some t) rest
    | none => throw (.elementsOutOfBounds segment)

/-- The memory after the data segments, the first of which has the number `segment`. -/
def initMemory (globals : List GlobalCell) (segment : Nat) (memory : Option Memory) :
    List DataSegment → Except LinkError (Option Memory)
  | [] => .ok memory
  | s :: rest => do
    let offset ← s.offset.evalOffset globals
    match memory with
    | none => throw (.dataOutOfBounds segment)
    | some memory =>
      match Memory.write offset s.bytes memory with
      | .ok () memory => initMemory globals (segment + 1) (some memory) rest
      | .error _ _ => throw (.dataOutOfBounds segment)

end Module

/-- A fresh instance of a program. -/
def instantiate (p : Program) (resolve : Resolver) : Except LinkError Instance := do
  let m := p.source
  let host ← m.imports.mapM (m.resolveImport resolve)
  let globals ← Module.initGlobals [] m.globals
  let table ← Module.initTable globals 0 (m.tables.head?.map Table.ofLimits) m.elements
  let memory ← Module.initMemory globals 0 (m.memories.head?.map Memory.ofLimits) m.data
  return {
    program := p
    host := host.toArray
    store := { memory, table, globals := globals.toArray } }

namespace Instance

/-- The value of a global. -/
def global? (i : Instance) (index : Nat) : Option Value :=
  (i.store.globals[index]?).map GlobalCell.value

/-- Calls a function with arguments, on top of `operands`, in at most `limit` turns. -/
def invoke {σ : Type} (i : Instance) (checkpoint : Checkpoint σ) (pricing : Pricing)
    (limit func : Nat) (args : List Value) (operands : OperandStack) (account : σ) : Invocation σ :=
  let setting : Setting σ :=
    { program := i.program, host := i.host, pricing, checkpoint, floor := operands.height }
  Machine.invoke setting limit func args i.store operands account

end Instance

end MeteredSandbox
