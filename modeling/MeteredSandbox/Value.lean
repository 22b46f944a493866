import MeteredSandbox.Decimal.Shortest

/-!
# Values and their types

A guest computes with 32-bit and 64-bit integers and floats. A value is a type and a bit pattern:
integers have no sign of their own, the instructions that read one supply it, and floats are kept as
bits so that the payload of a NaN survives every move.
-/

namespace MeteredSandbox

/-- The four value types. -/
inductive ValType where
  | i32
  | i64
  | f32
  | f64
  deriving DecidableEq, Inhabited

/-- A value: its type and its bits. -/
inductive Value where
  | i32 (bits : BitVec 32)
  | i64 (bits : BitVec 64)
  | f32 (bits : BitVec 32)
  | f64 (bits : BitVec 64)
  deriving DecidableEq

/-- A function signature. -/
structure FuncType where
  params : List ValType
  results : List ValType
  deriving DecidableEq, Inhabited

namespace ValType

/-- The byte that stands for the type in a binary. -/
def code : ValType → UInt8
  | i32 => 0x7F
  | i64 => 0x7E
  | f32 => 0x7D
  | f64 => 0x7C

/-- The type that a byte of a binary stands for. -/
def ofCode? (b : UInt8) : Option ValType :=
  if b = 0x7F then some i32
  else if b = 0x7E then some i64
  else if b = 0x7D then some f32
  else if b = 0x7C then some f64
  else none

@[simp] theorem ofCode?_code (t : ValType) : ofCode? t.code = some t := by
  cases t <;> rfl

theorem code_of_ofCode? {b : UInt8} {t : ValType} (h : ofCode? b = some t) : b = t.code := by
  unfold ofCode? at h
  split at h
  · simp_all [← Option.some.inj h, code]
  split at h
  · simp_all [← Option.some.inj h, code]
  split at h
  · simp_all [← Option.some.inj h, code]
  split at h
  · simp_all [← Option.some.inj h, code]
  · cases h

/-- The value that a local variable of the type starts with. -/
def zero : ValType → Value
  | i32 => .i32 0
  | i64 => .i64 0
  | f32 => .f32 0
  | f64 => .f64 0

/-- The name of the type in a signature. -/
def name : ValType → String
  | i32 => "I32"
  | i64 => "I64"
  | f32 => "F32"
  | f64 => "F64"

/-- The name of the type in front of a value. -/
def tag : ValType → String
  | i32 => "i32"
  | i64 => "i64"
  | f32 => "f32"
  | f64 => "f64"

/-- The number of bits of the type's values. -/
def width : ValType → Nat
  | i32 | f32 => 32
  | i64 | f64 => 64

end ValType

namespace Value

instance : Inhabited Value := ⟨.i32 0⟩

/-- The type of a value. -/
def type : Value → ValType
  | i32 _ => .i32
  | i64 _ => .i64
  | f32 _ => .f32
  | f64 _ => .f64

@[simp] theorem type_i32 (b : BitVec 32) : (i32 b).type = .i32 := rfl
@[simp] theorem type_i64 (b : BitVec 64) : (i64 b).type = .i64 := rfl
@[simp] theorem type_f32 (b : BitVec 32) : (f32 b).type = .f32 := rfl
@[simp] theorem type_f64 (b : BitVec 64) : (f64 b).type = .f64 := rfl

@[simp] theorem type_zero (t : ValType) : t.zero.type = t := by cases t <;> rfl

/-- The bits of a value as a number. -/
def bits : Value → Nat
  | i32 b | f32 b => b.toNat
  | i64 b | f64 b => b.toNat

/-- The value of type `t` with the low bits of `n`. -/
def ofBits (t : ValType) (n : Nat) : Value :=
  match t with
  | .i32 => .i32 (.ofNat 32 n)
  | .i64 => .i64 (.ofNat 64 n)
  | .f32 => .f32 (.ofNat 32 n)
  | .f64 => .f64 (.ofNat 64 n)

@[simp] theorem type_ofBits (t : ValType) (n : Nat) : (ofBits t n).type = t := by cases t <;> rfl

/-- The text of a value: its type, and the signed integer or the float that its bits stand for. -/
def text : Value → String
  | i32 b => s!"i32:{b.toInt}"
  | i64 b => s!"i64:{b.toInt}"
  | f32 b => "f32:" ++ Decimal.text Decimal.binary32 b.toNat
  | f64 b => "f64:" ++ Decimal.text Decimal.binary64 b.toNat

end Value

namespace FuncType

/-- The text of a list of types. -/
def listText (ts : List ValType) : String :=
  "[" ++ ", ".intercalate (ts.map ValType.name) ++ "]"

/-- The text of a signature. -/
def text (t : FuncType) : String :=
  listText t.params ++ " -> " ++ listText t.results

end FuncType

end MeteredSandbox
