import MeteredSandbox.Bytes.Leb128
import MeteredSandbox.Bytes.LittleEndian
import MeteredSandbox.Code.Opcode

/-!
# Writing function bodies

`Mnemonic` is an instruction as one writes it, with the result type of a construct spelled out, and
`Mnemonic.encode` its bytes. Integers are written in their shortest form and alignment hints as
zero. A mnemonic for a bare opcode writes any byte, so a body can be given instructions that mean
nothing.
-/

namespace MeteredSandbox

/-- An instruction to be written. -/
inductive Mnemonic where
  /-- An opcode without immediates, whatever it means. -/
  | bare (opcode : UInt8)
  | const (value : Value)
  | localGet (index : Nat)
  | localSet (index : Nat)
  | localTee (index : Nat)
  | globalGet (index : Nat)
  | globalSet (index : Nat)
  /-- A load or a store, by its opcode. -/
  | access (opcode : UInt8) (offset : Nat)
  | memorySize
  | memoryGrow
  | call (func : Nat)
  | callIndirect (type : Nat)
  | block (result : Option ValType)
  | loop
  | ifThen (result : Option ValType)
  | elseMark
  | endMark
  | br (depth : Nat)
  | brIf (depth : Nat)
  | brTable (depths : List Nat) (default : Nat)
  | ret
  | unreachable
  | nop
  | drop
  | select
  deriving DecidableEq

namespace Mnemonic

/-- The byte for the result of a construct. -/
def blockType (result : Option ValType) : UInt8 :=
  match result with
  | some t => t.code
  | none => 0x40

/-- A constant with its opcode. -/
def encodeConst : Value → List UInt8
  | .i32 bits => 0x41 :: Leb128.encodeSigned bits.toInt
  | .i64 bits => 0x42 :: Leb128.encodeSigned bits.toInt
  | .f32 bits => 0x43 :: LittleEndian.ofNat 4 bits.toNat
  | .f64 bits => 0x44 :: LittleEndian.ofNat 8 bits.toNat

/-- A vector of indices with its count. -/
def encodeIndices (is : List Nat) : List UInt8 :=
  Leb128.encodeUnsigned is.length ++ is.flatMap Leb128.encodeUnsigned

/-- The bytes of an instruction. -/
def encode : Mnemonic → List UInt8
  | bare opcode => [opcode]
  | const value => encodeConst value
  | localGet i => 0x20 :: Leb128.encodeUnsigned i
  | localSet i => 0x21 :: Leb128.encodeUnsigned i
  | localTee i => 0x22 :: Leb128.encodeUnsigned i
  | globalGet i => 0x23 :: Leb128.encodeUnsigned i
  | globalSet i => 0x24 :: Leb128.encodeUnsigned i
  | access opcode offset => opcode :: Leb128.encodeUnsigned 0 ++ Leb128.encodeUnsigned offset
  | memorySize => [0x3F, 0x00]
  | memoryGrow => [0x40, 0x00]
  | call func => 0x10 :: Leb128.encodeUnsigned func
  | callIndirect type => 0x11 :: Leb128.encodeUnsigned type ++ [0x00]
  | block result => [0x02, blockType result]
  | loop => [0x03, blockType none]
  | ifThen result => [0x04, blockType result]
  | elseMark => [0x05]
  | endMark => [0x0B]
  | br depth => 0x0C :: Leb128.encodeUnsigned depth
  | brIf depth => 0x0D :: Leb128.encodeUnsigned depth
  | brTable depths default => 0x0E :: encodeIndices depths ++ Leb128.encodeUnsigned default
  | ret => [0x0F]
  | unreachable => [0x00]
  | nop => [0x01]
  | drop => [0x1A]
  | select => [0x1B]

/-- The bytes of a list of instructions, without the end that closes a body. -/
def encodeAll (ms : List Mnemonic) : List UInt8 := ms.flatMap encode

end Mnemonic

end MeteredSandbox
