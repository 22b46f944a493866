import MeteredSandbox.Module.Basic
import MeteredSandbox.Module.Section

/-!
# Reading a module

Each kind of section has a reader for its payload, which has to use the payload up. A module is read
section by section: `Module.place` puts what one section holds into the module, and requires the
sections other than custom ones to come in order, each at most once. The first thing that is wrong,
from the front, is the error.

Payloads and function bodies are read on cursors of their own, so offsets in errors count from the
front of the payload or body.
-/

namespace MeteredSandbox

namespace Reader

/-- A value type. -/
def valType : Reader ValType := do
  let b ← byte
  match ValType.ofCode? b with
  | some t => return t
  | none => malformed .valueType

/-- Size limits, with or without a maximum. -/
def limits : Reader Limits := do
  let flag ← byte
  if flag = 0x00 then
    let min ← index
    return { min, max := none }
  else if flag = 0x01 then
    let min ← index
    let max ← index
    return { min, max := some max }
  else malformed .limitsFlag

/-- A function signature. -/
def funcType : Reader FuncType := do
  let form ← byte
  if form = 0x60 then
    let params ← vector valType
    let results ← vector valType
    return { params, results }
  else malformed .functionForm

/-- A table, which can hold functions only. -/
def table : Reader Limits := do
  let kind ← byte
  if kind = 0x70 then limits else malformed .tableKind

/-- The type of a global. -/
def globalType : Reader GlobalType := do
  let type ← valType
  let flag ← byte
  if flag = 0x00 then return { type, mutable := false }
  else if flag = 0x01 then return { type, mutable := true }
  else malformed .mutability

/-- The instruction of an initializer. -/
def constant : Reader ConstExpr := do
  let opcode ← byte
  if opcode = 0x41 then
    let v ← Leb128.signed 32
    return .const (.i32 (.ofInt 32 v))
  else if opcode = 0x42 then
    let v ← Leb128.signed 64
    return .const (.i64 (.ofInt 64 v))
  else if opcode = 0x43 then
    let bits ← littleEndian 4
    return .const (.f32 (.ofNat 32 bits))
  else if opcode = 0x44 then
    let bits ← littleEndian 8
    return .const (.f64 (.ofNat 64 bits))
  else if opcode = 0x23 then
    let i ← index
    return .global i
  else malformed .constant

/-- An initializer: one instruction and an end. -/
def constExpr : Reader ConstExpr := do
  let e ← constant
  let last ← byte
  if last = 0x0B then return e else malformed .constantEnd

/-- What an import asks for. -/
def importKind : Reader ImportKind := do
  let kind ← byte
  if kind = 0x00 then
    let i ← index
    return .func i
  else if kind = 0x01 then
    let t ← table
    return .table t
  else if kind = 0x02 then
    let l ← limits
    return .memory l
  else if kind = 0x03 then
    let g ← globalType
    return .global g
  else malformed .importKind

/-- An import. -/
def importEntry : Reader Import := do
  let source ← name
  let name ← name
  let kind ← importKind
  return { source, name, kind }

/-- What an export offers. An unknown kind is noticed after its index. -/
def exportKind : Reader ExportKind := do
  let kind ← byte
  let i ← index
  if kind = 0x00 then return .func i
  else if kind = 0x01 then return .table i
  else if kind = 0x02 then return .memory i
  else if kind = 0x03 then return .global i
  else malformed .exportKind

/-- An export. -/
def exportEntry : Reader Export := do
  let name ← name
  let kind ← exportKind
  return { name, kind }

/-- The memories of a module, at most one. -/
def memories : Reader (List Limits) := do
  let ms ← vector limits
  if ms.length ≤ 1 then return ms else malformed .memoryCount

/-- A global with its initializer. -/
def global : Reader Global := do
  let type ← globalType
  let init ← constExpr
  return { type, init }

/-- A segment of functions. -/
def elementSegment : Reader ElementSegment := do
  let table ← index
  if table = 0 then
    let offset ← constExpr
    let funcs ← vector index
    return { table, offset, funcs }
  else malformed .elementTable

/-- A segment of bytes. -/
def dataSegment : Reader DataSegment := do
  let memory ← index
  if memory = 0 then
    let offset ← constExpr
    let bytes ← lengthPrefixed
    return { memory, offset, bytes }
  else malformed .dataMemory

/-- A run of locals. -/
def localRun : Reader LocalRun := do
  let count ← index
  let type ← valType
  return { count, type }

/-- A function's locals and instructions, up to the end of the bytes. -/
def codeContent : Reader CodeEntry := do
  let locals ← vector localRun
  if LocalRun.total locals < 0x1_0000_0000 then
    let body ← remainder
    if body.getLast? = some 0x0B then return { locals, body } else malformed .bodyEnd
  else malformed .localCount

/-- The result of reading `payload` on its own, at the cursor that is left as it is. -/
def nested {α : Type} (r : Reader α) (payload : List UInt8) : Reader α := fun c =>
  match r (.start payload) with
  | .ok a _ => .ok a c
  | .error e _ => .error e c

/-- A function's locals and instructions, with their length in front. -/
def codeEntry : Reader CodeEntry := do
  let payload ← lengthPrefixed
  nested codeContent payload

/-- The four bytes that mark a guest binary, and the version of the format. -/
def preamble : Reader Unit := do
  let magic ← bytes 4
  if magic = [0x00, 0x61, 0x73, 0x6D] then
    let version ← littleEndian 4
    if version = 1 then return () else throw (.malformed 4 .version)
  else throw (.malformed 0 .magic)

/-- What `r` reads from `payload`, all of which it has to use. -/
def whole {α : Type} (r : Reader α) (payload : List UInt8) : Except ReadError α :=
  match r (.start payload) with
  | .ok a c => if c.isAtEnd then .ok a else .error (.malformed c.offset .sectionLeftover)
  | .error e _ => .error e

end Reader

namespace Module

/-- The module with the content of a section put in its place. Of a custom section only the name is
read, and it has no place. -/
def fill (m : Module) (s : RawSection) : Except ReadError Module :=
  match s.id with
  | .custom =>
    (Reader.name.runOn s.payload).map fun _ => m
  | .types =>
    (Reader.whole (.vector .funcType) s.payload).map fun types => { m with types }
  | .imports =>
    (Reader.whole (.vector .importEntry) s.payload).map fun imports => { m with imports }
  | .functions =>
    (Reader.whole (.vector .index) s.payload).map fun funcs => { m with funcs }
  | .tables =>
    (Reader.whole (.vector .table) s.payload).map fun tables => { m with tables }
  | .memories =>
    (Reader.whole .memories s.payload).map fun memories => { m with memories }
  | .globals =>
    (Reader.whole (.vector .global) s.payload).map fun globals => { m with globals }
  | .exports =>
    (Reader.whole (.vector .exportEntry) s.payload).map fun exports => { m with exports }
  | .start =>
    (Reader.whole .index s.payload).map fun start => { m with start := some start }
  | .elements =>
    (Reader.whole (.vector .elementSegment) s.payload).map fun elements => { m with elements }
  | .code =>
    (Reader.whole (.vector .codeEntry) s.payload).map fun codes => { m with codes }
  | .data =>
    (Reader.whole (.vector .dataSegment) s.payload).map fun data => { m with data }

/-- A module in the making: what the sections so far hold, and the last that was not custom. -/
structure Draft where
  content : Module
  last : Option SectionId

/-- Puts one more section in its place, if its turn has not passed. -/
def Draft.place (d : Draft) (s : RawSection) : Except ReadError Draft :=
  if s.id = .custom then (d.content.fill s).map fun _ => d
  else if d.last.any fun l => s.id.number ≤ l.number then
    .error (.malformed s.payloadOffset .sectionOrder)
  else (d.content.fill s).map fun content => { content, last := some s.id }

/-- The module that `bytes` spell. -/
def parse (bytes : List UInt8) : Except ReadError Module := do
  let ((), c) ← Reader.preamble.runOn bytes
  let (sections, broken) := RawSection.all c
  let draft ← sections.foldlM Draft.place { content := {}, last := none }
  match broken with
  | some e => throw e
  | none =>
    if draft.content.funcs.length = draft.content.codes.length then return draft.content
    else throw (.malformed bytes.length .bodyCount)

end Module

end MeteredSandbox
