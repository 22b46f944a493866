import MeteredSandbox.Bytes.Leb128
import MeteredSandbox.Bytes.LittleEndian

/-!
# Fields that are made of smaller ones

Fixed-width numbers, byte strings and names with their length in front, and vectors with their count
in front.
-/

namespace MeteredSandbox.Reader

/-- A number in `count` bytes, lowest first. -/
def littleEndian (count : Nat) : Reader Nat := do
  let bs ← bytes count
  return LittleEndian.toNat bs

/-- An unsigned integer of 32 bits: every index, count and length of the format. -/
def index : Reader Nat := Leb128.unsigned 32

/-- A byte string with its length in front. -/
def lengthPrefixed : Reader (List UInt8) := do
  let length ← index
  bytes length

/-- The text that bytes spell in UTF-8, with `start` as the place to blame. -/
def nameOfBytes (start : Nat) (bs : List UInt8) : Reader String :=
  match String.fromUTF8? bs.toByteArray with
  | some name => pure name
  | none => throw (.invalidName start)

/-- A name: a byte string in UTF-8. An error points at the length in front of it. -/
def name : Reader String := do
  let start ← offset
  let bs ← lengthPrefixed
  nameOfBytes start bs

/-- Items with their count in front. -/
def vector {α : Type} (item : Reader α) : Reader (List α) := do
  let count ← index
  times item count

end MeteredSandbox.Reader

namespace MeteredSandbox.Forward

theorem littleEndian (count : Nat) : Forward (Reader.littleEndian count) :=
  bind (bytes count) fun _ => pure _

theorem index : Forward Reader.index := unsigned 32

theorem vector {α : Type} {item : Reader α} (h : Forward item) : Forward (Reader.vector item) :=
  bind index fun n => times h n

end MeteredSandbox.Forward
