import MeteredSandbox.Code.Assembly
import MeteredSandbox.Module.Basic

/-!
# Writing modules

`Assembly` collects the parts of a module in any order and writes them as a guest binary. Signatures
are shared: one that has been used before keeps its index. Sections that would be empty are left
out.

Functions are numbered with the imported ones first, so the number that `addFunc` gives is the
function's own as long as no import follows.
-/

namespace MeteredSandbox

/-- A function of the module's own. -/
structure AssembledFunc where
  type : Nat
  locals : List ValType
  /-- The instructions, without the final end. -/
  body : List UInt8

/-- A function import. -/
structure AssembledImport where
  source : String
  name : String
  type : Nat

/-- The parts of a module so far. -/
structure Assembly where
  types : List FuncType := []
  imports : List AssembledImport := []
  funcs : List AssembledFunc := []
  table : Option Limits := none
  memory : Option Limits := none
  globals : List Global := []
  exports : List Export := []
  start : Option Nat := none
  /-- Segments of functions, each with its offset. -/
  elements : List (Nat × List Nat) := []
  /-- Segments of bytes, each with its offset. -/
  data : List (Nat × List UInt8) := []

namespace Assembly

/-! ### Collecting parts -/

/-- Adds a signature that is not there yet. Gives its index. -/
def addType (a : Assembly) (type : FuncType) : Nat × Assembly :=
  match a.types.idxOf? type with
  | some i => (i, a)
  | none => (a.types.length, { a with types := a.types ++ [type] })

/-- Adds a function import. Gives its function index. -/
def addImport (a : Assembly) (source name : String) (type : FuncType) : Nat × Assembly :=
  let (i, a) := a.addType type
  (a.imports.length, { a with imports := a.imports ++ [{ source, name, type := i }] })

/-- Adds a function. Gives its function index. -/
def addFunc (a : Assembly) (type : FuncType) (locals : List ValType) (body : List UInt8) :
    Nat × Assembly :=
  let (i, a) := a.addType type
  (a.imports.length + a.funcs.length, { a with funcs := a.funcs ++ [{ type := i, locals, body }] })

/-- Sets the limits of the memory. -/
def setMemory (a : Assembly) (limits : Limits) : Assembly := { a with memory := some limits }

/-- Sets the limits of the table. -/
def setTable (a : Assembly) (limits : Limits) : Assembly := { a with table := some limits }

/-- Adds a global. Gives its index. -/
def addGlobal (a : Assembly) (g : Global) : Nat × Assembly :=
  (a.globals.length, { a with globals := a.globals ++ [g] })

/-- Exports a function. -/
def exportFunc (a : Assembly) (name : String) (func : Nat) : Assembly :=
  { a with exports := a.exports ++ [{ name, kind := .func func }] }

/-- Exports the memory. -/
def exportMemory (a : Assembly) (name : String) : Assembly :=
  { a with exports := a.exports ++ [{ name, kind := .memory 0 }] }

/-- Sets the start function. -/
def setStart (a : Assembly) (func : Nat) : Assembly := { a with start := some func }

/-- Adds a segment of functions at `offset`. -/
def addElements (a : Assembly) (offset : Nat) (funcs : List Nat) : Assembly :=
  { a with elements := a.elements ++ [(offset, funcs)] }

/-- Adds a segment of bytes at `offset`. -/
def addData (a : Assembly) (offset : Nat) (bytes : List UInt8) : Assembly :=
  { a with data := a.data ++ [(offset, bytes)] }

/-! ### Writing them -/

open Leb128 (encodeUnsigned)

/-- A byte string with its length in front. -/
def encodeBytes (bs : List UInt8) : List UInt8 := encodeUnsigned bs.length ++ bs

/-- A name. -/
def encodeName (name : String) : List UInt8 := encodeBytes name.toUTF8.toList

/-- Items with their count in front. -/
def encodeVector {α : Type} (encode : α → List UInt8) (xs : List α) : List UInt8 :=
  encodeUnsigned xs.length ++ xs.flatMap encode

/-- A value type. -/
def encodeValType (t : ValType) : List UInt8 := [t.code]

/-- A signature. -/
def encodeFuncType (t : FuncType) : List UInt8 :=
  0x60 :: encodeVector encodeValType t.params ++ encodeVector encodeValType t.results

/-- Size limits. -/
def encodeLimits (l : Limits) : List UInt8 :=
  match l.max with
  | none => 0x00 :: encodeUnsigned l.min
  | some max => 0x01 :: encodeUnsigned l.min ++ encodeUnsigned max

/-- An initializer. -/
def encodeConstExpr (e : ConstExpr) : List UInt8 :=
  let instruction := match e with
    | .const v => Mnemonic.encodeConst v
    | .global i => 0x23 :: encodeUnsigned i
  instruction ++ [0x0B]

/-- The offset of a segment: a constant with the same 32 bits. -/
def encodeOffset (offset : Nat) : List UInt8 :=
  encodeConstExpr (.const (.i32 (.ofNat 32 offset)))

/-- A function import. -/
def encodeImport (i : AssembledImport) : List UInt8 :=
  encodeName i.source ++ encodeName i.name ++ 0x00 :: encodeUnsigned i.type

/-- A table. -/
def encodeTable (l : Limits) : List UInt8 := 0x70 :: encodeLimits l

/-- A global. -/
def encodeGlobal (g : Global) : List UInt8 :=
  g.type.type.code :: (if g.type.mutable then 0x01 else 0x00) :: encodeConstExpr g.init

/-- An export. -/
def encodeExport (e : Export) : List UInt8 :=
  let (kind, i) : UInt8 × Nat := match e.kind with
    | .func i => (0x00, i)
    | .table i => (0x01, i)
    | .memory i => (0x02, i)
    | .global i => (0x03, i)
  encodeName e.name ++ kind :: encodeUnsigned i

/-- A segment of functions. -/
def encodeElements (s : Nat × List Nat) : List UInt8 :=
  encodeUnsigned 0 ++ encodeOffset s.1 ++ encodeVector encodeUnsigned s.2

/-- A function's locals, one by one, and its instructions. -/
def encodeFunc (f : AssembledFunc) : List UInt8 :=
  encodeBytes
    (encodeVector (fun t => encodeUnsigned 1 ++ encodeValType t) f.locals ++ f.body ++ [0x0B])

/-- A segment of bytes. -/
def encodeData (s : Nat × List UInt8) : List UInt8 :=
  encodeUnsigned 0 ++ encodeOffset s.1 ++ encodeBytes s.2

/-- A section. -/
def encodeSection (id : UInt8) (payload : List UInt8) : List UInt8 :=
  id :: encodeBytes payload

/-- A section that holds a vector, or nothing when the vector is empty. -/
def encodeItems {α : Type} (id : UInt8) (encode : α → List UInt8) (xs : List α) : List UInt8 :=
  if xs.isEmpty then [] else encodeSection id (encodeVector encode xs)

/-- The module as a guest binary. -/
def build (a : Assembly) : List UInt8 :=
  [0x00, 0x61, 0x73, 0x6D] ++ LittleEndian.ofNat 4 1
    ++ encodeItems 1 encodeFuncType a.types
    ++ encodeItems 2 encodeImport a.imports
    ++ encodeItems 3 encodeUnsigned (a.funcs.map AssembledFunc.type)
    ++ encodeItems 4 encodeTable a.table.toList
    ++ encodeItems 5 encodeLimits a.memory.toList
    ++ encodeItems 6 encodeGlobal a.globals
    ++ encodeItems 7 encodeExport a.exports
    ++ (match a.start with
      | some func => encodeSection 8 (encodeUnsigned func)
      | none => [])
    ++ encodeItems 9 encodeElements a.elements
    ++ encodeItems 10 encodeFunc a.funcs
    ++ encodeItems 11 encodeData a.data

end Assembly

end MeteredSandbox
