import MeteredSandbox.Bytes.Cursor

/-!
# Variable-length integers

An integer is written as groups of seven bits, lowest first, one group a byte, and every byte but
the last has its top bit set. An unsigned integer is the sum of its groups; a signed one is read as
two's complement, so the second highest bit of the last byte is its sign.

A reader for `bits` bits looks at no more bytes than a value of that width can need and refuses a
value outside the width. It does not ask for the shortest form. The writers produce the shortest
form.
-/

namespace MeteredSandbox.Leb128

/-- The number of bytes that any value of `bits` bits fits in. -/
def maxLength (bits : Nat) : Nat := (bits + 6) / 7

/-- The groups of the next integer, at most `limit` of them in all and `left` of them from here. -/
def groups (limit : Nat) : (left : Nat) → Reader (List Nat)
  | 0 => fun c => .error (.integerTooLong limit c.offset) c
  | left + 1 => do
    let b ← Reader.byte
    if b.toNat < 128 then return [b.toNat]
    else
      let more ← groups limit left
      return (b.toNat - 128) :: more

/-- The number whose groups of seven bits are `gs`, lowest first. -/
def unsignedValue : List Nat → Nat
  | [] => 0
  | g :: gs => g + 128 * unsignedValue gs

/-- Whether the last group has its high bit set. -/
def isNegative (gs : List Nat) : Bool :=
  gs.getLast?.any (64 ≤ ·)

/-- The number whose two's complement has the groups `gs`, lowest first. -/
def signedValue (gs : List Nat) : Int :=
  if isNegative gs then (unsignedValue gs : Int) - Nat.pow 128 gs.length else unsignedValue gs

/-- Fails because the integer before the cursor is outside the width. -/
def overflow {α : Type} (bits : Nat) : Reader α :=
  fun c => .error (.integerOverflow bits c.offset) c

/-- An unsigned integer of `bits` bits. -/
def unsigned (bits : Nat) : Reader Nat := do
  let gs ← groups (maxLength bits) (maxLength bits)
  let v := unsignedValue gs
  if v < Nat.pow 2 bits then return v else overflow bits

/-- A signed integer of `bits` bits. -/
def signed (bits : Nat) : Reader Int := do
  let gs ← groups (maxLength bits) (maxLength bits)
  let v := signedValue gs
  if -(Nat.pow 2 (bits - 1) : Int) ≤ v ∧ v < Nat.pow 2 (bits - 1) then return v else overflow bits

/-- The shortest form of an unsigned integer. -/
def encodeUnsigned (n : Nat) : List UInt8 :=
  if n < 128 then [UInt8.ofNat n]
  else UInt8.ofNat (n % 128 + 128) :: encodeUnsigned (n / 128)
termination_by n
decreasing_by omega

/-- The shortest form of a signed integer: the last group leaves nothing but copies of its sign. -/
def encodeSigned (n : Int) : List UInt8 :=
  if -64 ≤ n ∧ n < 64 then [UInt8.ofNat (n % 128).toNat]
  else UInt8.ofNat ((n % 128).toNat + 128) :: encodeSigned (n / 128)
termination_by n.natAbs
decreasing_by omega

end MeteredSandbox.Leb128

namespace MeteredSandbox.Forward

theorem groups (limit : Nat) : ∀ left, Forward (Leb128.groups limit left)
  | 0 => by
    intro c b c' h
    cases h
  | left + 1 => by
    refine bind byte fun b => ?_
    split
    · exact pure _
    · exact bind (groups limit left) fun _ => pure _

theorem overflow {α : Type} (bits : Nat) : Forward (Leb128.overflow (α := α) bits) := by
  intro c b c' h
  cases h

theorem unsigned (bits : Nat) : Forward (Leb128.unsigned bits) := by
  refine bind (groups _ _) fun gs => ?_
  dsimp only
  split
  · exact pure _
  · exact overflow _

theorem signed (bits : Nat) : Forward (Leb128.signed bits) := by
  refine bind (groups _ _) fun gs => ?_
  dsimp only
  split
  · exact pure _
  · exact overflow _

end MeteredSandbox.Forward
