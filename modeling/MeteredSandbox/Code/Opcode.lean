import MeteredSandbox.Value

/-!
# Instructions without structure

The instructions that do one thing and go on, or jump, and that hold no other instruction. `Op`
lists them; loads, stores and numeric instructions are described by what they do, and numbered by
the place they have in a list (`LoadOp.all`, `StoreOp.all`, `NumericOp.all`).
-/

namespace MeteredSandbox

/-- The two widths of integers and floats. -/
inductive Width where
  | w32
  | w64
  deriving DecidableEq

namespace Width

/-- The number of bits. -/
def bits : Width → Nat
  | w32 => 32
  | w64 => 64

/-- The integer type of a width. -/
def int : Width → ValType
  | w32 => .i32
  | w64 => .i64

/-- The float type of a width. -/
def float : Width → ValType
  | w32 => .f32
  | w64 => .f64

end Width

/-! ### Memory access -/

/-- The loads. A name ends in the number of bits that are read, when they are fewer than the result
has, and in how they are extended. -/
inductive LoadOp where
  | i32
  | i64
  | f32
  | f64
  | i32Signed8
  | i32Unsigned8
  | i32Signed16
  | i32Unsigned16
  | i64Signed8
  | i64Unsigned8
  | i64Signed16
  | i64Unsigned16
  | i64Signed32
  | i64Unsigned32
  deriving DecidableEq

namespace LoadOp

/-- The loads in the order of their opcodes. -/
def all : List LoadOp :=
  [i32, i64, f32, f64, i32Signed8, i32Unsigned8, i32Signed16, i32Unsigned16, i64Signed8,
    i64Unsigned8, i64Signed16, i64Unsigned16, i64Signed32, i64Unsigned32]

/-- The opcode of the first load. -/
def firstCode : Nat := 0x28

/-- The opcode of a load. -/
def code (op : LoadOp) : UInt8 := UInt8.ofNat (firstCode + all.idxOf op)

/-- The load with the opcode `b`. -/
def ofCode? (b : UInt8) : Option LoadOp :=
  if firstCode ≤ b.toNat then all[b.toNat - firstCode]? else none

/-- The type of the result. -/
def type : LoadOp → ValType
  | i32 | i32Signed8 | i32Unsigned8 | i32Signed16 | i32Unsigned16 => .i32
  | i64 | i64Signed8 | i64Unsigned8 | i64Signed16 | i64Unsigned16 | i64Signed32
  | i64Unsigned32 => .i64
  | f32 => .f32
  | f64 => .f64

/-- The number of bytes that are read. -/
def byteCount : LoadOp → Nat
  | i32Signed8 | i32Unsigned8 | i64Signed8 | i64Unsigned8 => 1
  | i32Signed16 | i32Unsigned16 | i64Signed16 | i64Unsigned16 => 2
  | i32 | f32 | i64Signed32 | i64Unsigned32 => 4
  | i64 | f64 => 8

/-- Whether the bits that are read are extended with copies of their sign. -/
def isSigned : LoadOp → Bool
  | i32Signed8 | i32Signed16 | i64Signed8 | i64Signed16 | i64Signed32 => true
  | _ => false

end LoadOp

/-- The stores. A name ends in the number of bits that are written, when they are fewer than the
operand has. -/
inductive StoreOp where
  | i32
  | i64
  | f32
  | f64
  | i32Low8
  | i32Low16
  | i64Low8
  | i64Low16
  | i64Low32
  deriving DecidableEq

namespace StoreOp

/-- The stores in the order of their opcodes. -/
def all : List StoreOp :=
  [i32, i64, f32, f64, i32Low8, i32Low16, i64Low8, i64Low16, i64Low32]

/-- The opcode of the first store. -/
def firstCode : Nat := 0x36

/-- The opcode of a store. -/
def code (op : StoreOp) : UInt8 := UInt8.ofNat (firstCode + all.idxOf op)

/-- The store with the opcode `b`. -/
def ofCode? (b : UInt8) : Option StoreOp :=
  if firstCode ≤ b.toNat then all[b.toNat - firstCode]? else none

/-- The type of the operand. -/
def type : StoreOp → ValType
  | i32 | i32Low8 | i32Low16 => .i32
  | i64 | i64Low8 | i64Low16 | i64Low32 => .i64
  | f32 => .f32
  | f64 => .f64

/-- The number of bytes that are written. -/
def byteCount : StoreOp → Nat
  | i32Low8 | i64Low8 => 1
  | i32Low16 | i64Low16 => 2
  | i32 | f32 | i64Low32 => 4
  | i64 | f64 => 8

end StoreOp

/-! ### Numeric instructions -/

/-- Comparisons of integers. Where the sign matters there is one for each reading. -/
inductive IntRelation where
  | eq
  | ne
  | ltSigned
  | ltUnsigned
  | gtSigned
  | gtUnsigned
  | leSigned
  | leUnsigned
  | geSigned
  | geUnsigned
  deriving DecidableEq

/-- The comparisons in the order of their opcodes. -/
def IntRelation.all : List IntRelation :=
  [.eq, .ne, .ltSigned, .ltUnsigned, .gtSigned, .gtUnsigned, .leSigned, .leUnsigned, .geSigned,
    .geUnsigned]

/-- Counts of bits: leading zeros, trailing zeros, ones. -/
inductive IntCount where
  | leadingZeros
  | trailingZeros
  | ones
  deriving DecidableEq

/-- The counts in the order of their opcodes. -/
def IntCount.all : List IntCount := [.leadingZeros, .trailingZeros, .ones]

/-- Integer arithmetic. -/
inductive IntArith where
  | add
  | sub
  | mul
  | divSigned
  | divUnsigned
  | remSigned
  | remUnsigned
  | and
  | or
  | xor
  | shiftLeft
  | shiftRightSigned
  | shiftRightUnsigned
  | rotateLeft
  | rotateRight
  deriving DecidableEq

/-- The arithmetic in the order of its opcodes. -/
def IntArith.all : List IntArith :=
  [.add, .sub, .mul, .divSigned, .divUnsigned, .remSigned, .remUnsigned, .and, .or, .xor,
    .shiftLeft, .shiftRightSigned, .shiftRightUnsigned, .rotateLeft, .rotateRight]

/-- Comparisons of floats. -/
inductive FloatRelation where
  | eq
  | ne
  | lt
  | gt
  | le
  | ge
  deriving DecidableEq

/-- The comparisons in the order of their opcodes. -/
def FloatRelation.all : List FloatRelation := [.eq, .ne, .lt, .gt, .le, .ge]

/-- Functions of one float. -/
inductive FloatUnary where
  | abs
  | neg
  | ceil
  | floor
  | trunc
  | nearest
  | sqrt
  deriving DecidableEq

/-- The functions in the order of their opcodes. -/
def FloatUnary.all : List FloatUnary := [.abs, .neg, .ceil, .floor, .trunc, .nearest, .sqrt]

/-- Float arithmetic. -/
inductive FloatArith where
  | add
  | sub
  | mul
  | div
  | min
  | max
  | copySign
  deriving DecidableEq

/-- The arithmetic in the order of its opcodes. -/
def FloatArith.all : List FloatArith := [.add, .sub, .mul, .div, .min, .max, .copySign]

/-- Conversions between types. -/
inductive Conversion where
  /-- The low half of a 64-bit integer. -/
  | wrap
  /-- The integer part of a float. -/
  | truncate (target source : Width) (signed : Bool)
  /-- A 32-bit integer in 64 bits. -/
  | extend (signed : Bool)
  /-- The float nearest to an integer. -/
  | convert (target source : Width) (signed : Bool)
  /-- The 32-bit float nearest to a 64-bit one. -/
  | demote
  /-- A 32-bit float in 64 bits. -/
  | promote
  /-- The bits of a float as an integer. -/
  | floatBits (width : Width)
  /-- The float with the bits of an integer. -/
  | ofBits (width : Width)
  deriving DecidableEq

/-- The conversions in the order of their opcodes. -/
def Conversion.all : List Conversion :=
  [.wrap,
    .truncate .w32 .w32 true, .truncate .w32 .w32 false,
    .truncate .w32 .w64 true, .truncate .w32 .w64 false,
    .extend true, .extend false,
    .truncate .w64 .w32 true, .truncate .w64 .w32 false,
    .truncate .w64 .w64 true, .truncate .w64 .w64 false,
    .convert .w32 .w32 true, .convert .w32 .w32 false,
    .convert .w32 .w64 true, .convert .w32 .w64 false,
    .demote,
    .convert .w64 .w32 true, .convert .w64 .w32 false,
    .convert .w64 .w64 true, .convert .w64 .w64 false,
    .promote,
    .floatBits .w32, .floatBits .w64,
    .ofBits .w32, .ofBits .w64]

/-- The numeric instructions. -/
inductive NumericOp where
  /-- Whether an integer is zero. -/
  | intIsZero (width : Width)
  | intCompare (width : Width) (relation : IntRelation)
  | floatCompare (width : Width) (relation : FloatRelation)
  | intCount (width : Width) (count : IntCount)
  | intArith (width : Width) (op : IntArith)
  | floatUnary (width : Width) (op : FloatUnary)
  | floatArith (width : Width) (op : FloatArith)
  | conversion (conversion : Conversion)
  deriving DecidableEq

namespace NumericOp

/-- The numeric instructions in the order of their opcodes. -/
def all : Array NumericOp :=
  ([intIsZero .w32] ++ IntRelation.all.map (intCompare .w32)
    ++ [intIsZero .w64] ++ IntRelation.all.map (intCompare .w64)
    ++ FloatRelation.all.map (floatCompare .w32) ++ FloatRelation.all.map (floatCompare .w64)
    ++ IntCount.all.map (intCount .w32) ++ IntArith.all.map (intArith .w32)
    ++ IntCount.all.map (intCount .w64) ++ IntArith.all.map (intArith .w64)
    ++ FloatUnary.all.map (floatUnary .w32) ++ FloatArith.all.map (floatArith .w32)
    ++ FloatUnary.all.map (floatUnary .w64) ++ FloatArith.all.map (floatArith .w64)
    ++ Conversion.all.map conversion).toArray

/-- The opcode of the first numeric instruction. -/
def firstCode : Nat := 0x45

/-- The opcode of a numeric instruction. -/
def code (op : NumericOp) : UInt8 := UInt8.ofNat (firstCode + (all.idxOf? op).getD 0)

/-- The numeric instruction with the opcode `b`. -/
def ofCode? (b : UInt8) : Option NumericOp :=
  if firstCode ≤ b.toNat then all[b.toNat - firstCode]? else none

end NumericOp

/-- The instructions that hold no other instruction. A branch names how many enclosing constructs it
leaves. -/
inductive Op where
  | unreachable
  | nop
  | br (depth : Nat)
  | brIf (depth : Nat)
  | brTable (depths : List Nat) (default : Nat)
  | ret
  | call (func : Nat)
  | callIndirect (type : Nat)
  | drop
  | select
  | localGet (index : Nat)
  | localSet (index : Nat)
  | localTee (index : Nat)
  | globalGet (index : Nat)
  | globalSet (index : Nat)
  | load (op : LoadOp) (offset : Nat)
  | store (op : StoreOp) (offset : Nat)
  | memorySize
  | memoryGrow
  | const (value : Value)
  | numeric (op : NumericOp)
  /-- An opcode that means nothing. It traps when it is executed, not when it is decoded. -/
  | illegal (opcode : UInt8)
  deriving DecidableEq

end MeteredSandbox
