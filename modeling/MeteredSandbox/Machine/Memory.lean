import MeteredSandbox.Machine.Trap
import MeteredSandbox.Module.Validity

/-!
# Linear memory

A run of bytes that grows by whole pages and never shrinks. An access names an address and a length,
and traps unless all of its bytes are there; addresses are not reduced, so one above the 32-bit
range is out of bounds and does not wrap around.
-/

namespace MeteredSandbox

/-- The number of bytes of a page. -/
def pageSize : Nat := 65536

/-- The memory of an instance. -/
structure Memory where
  bytes : ByteArray
  /-- The most pages that it may grow to. -/
  maxPages : Nat

namespace Memory

/-- One page of zeros. -/
def zeroPage : ByteArray := ⟨Array.replicate pageSize 0⟩

/-- Pages of zeros. -/
def zeroPages : Nat → ByteArray
  | 0 => ByteArray.empty
  | n + 1 => zeroPages n ++ zeroPage

/-- A fresh memory: the least number of pages, all zero. -/
def ofLimits (l : Limits) : Memory where
  bytes := zeroPages l.min
  maxPages := min (l.max.getD MeteredSandbox.maxPages) MeteredSandbox.maxPages

/-- The number of bytes. -/
def size (m : Memory) : Nat := m.bytes.size

/-- The number of pages. -/
def pages (m : Memory) : Nat := m.size / pageSize

/-- Adds `delta` pages of zeros. Gives the number of pages before, or changes nothing and gives
nothing when there would be too many. -/
def grow (delta : Nat) : EStateM Trap Memory (Option Nat) := fun m =>
  if m.pages + delta ≤ m.maxPages then
    .ok (some m.pages) { m with bytes := m.bytes ++ zeroPages delta }
  else .ok none m

/-- The byte at an address, zero where there is none. -/
def byteAt (m : Memory) (address : Nat) : UInt8 := m.bytes.get! address

/-- The bytes with those from `address` on replaced by the given ones. -/
def overwrite (bytes : ByteArray) (address : Nat) : List UInt8 → ByteArray
  | [] => bytes
  | b :: rest => overwrite (bytes.set! address b) (address + 1) rest

/-- The bytes of an access. -/
def read (m : Memory) (address length : Nat) : Except Trap (List UInt8) :=
  if address + length ≤ m.size then
    .ok ((List.range length).map fun i => m.byteAt (address + i))
  else .error (.memoryOutOfBounds address length)

/-- Writes the given bytes, all or none. -/
def write (address : Nat) (bs : List UInt8) : EStateM Trap Memory Unit := fun m =>
  if address + bs.length ≤ m.size then
    .ok () { m with bytes := overwrite m.bytes address bs }
  else .error (.memoryOutOfBounds address bs.length) m

end Memory

end MeteredSandbox
