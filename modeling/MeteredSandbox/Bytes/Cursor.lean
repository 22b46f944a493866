/-!
# Reading a byte string from front to back

A `Cursor` is what is left of a byte string and how many bytes have gone before it. A `Reader` takes
a cursor and returns a value or a reason why there is none, and in both cases the cursor that it
leaves behind: an embedder may look at the position after a failure and read on from there.

Readers only go forward (`Forward`): what a successful reader leaves is the end of what it was
given. The property is closed under sequencing, so it holds of every reader of the library, and it
is what makes the loops over instructions and sections end.
-/

namespace MeteredSandbox

/-- A byte string that is being read: the bytes not yet read, and the offset of the first of
them. -/
structure Cursor where
  offset : Nat
  rest : List UInt8
  deriving DecidableEq

namespace Cursor

/-- A cursor at the front of `bytes`. -/
def start (bytes : List UInt8) : Cursor := ⟨0, bytes⟩

/-- The number of bytes not yet read. -/
def remaining (c : Cursor) : Nat := c.rest.length

/-- Whether nothing is left to read. -/
def isAtEnd (c : Cursor) : Bool := c.rest.isEmpty

@[simp] theorem rest_start (bytes : List UInt8) : (start bytes).rest = bytes := rfl
@[simp] theorem offset_start (bytes : List UInt8) : (start bytes).offset = 0 := rfl

end Cursor

/-- The ways in which bytes that are there are not what the format asks for. -/
inductive Malformation where
  | lengthOverflow
  | magic
  | version
  | sectionId
  | sectionOrder
  | sectionLeftover
  | bodyCount
  | memoryCount
  | valueType
  | limitsFlag
  | functionForm
  | tableKind
  | mutability
  | constant
  | constantEnd
  | importKind
  | exportKind
  | elementTable
  | dataMemory
  | localCount
  | bodyEnd
  deriving DecidableEq

namespace Malformation

/-- What a malformation is called in a message. -/
def text : Malformation → String
  | lengthOverflow => "length overflows the address space"
  | magic => "bad magic number"
  | version => "unsupported binary version"
  | sectionId => "unknown section id"
  | sectionOrder => "section out of order or duplicated"
  | sectionLeftover => "section payload not fully consumed"
  | bodyCount => "function and code section counts differ"
  | memoryCount => "multiple memories"
  | valueType => "invalid value type"
  | limitsFlag => "invalid limits flag"
  | functionForm => "expected function type"
  | tableKind => "only funcref tables are supported"
  | mutability => "invalid global mutability"
  | constant => "unsupported constant expression"
  | constantEnd => "constant expression missing end"
  | importKind => "invalid import kind"
  | exportKind => "invalid export kind"
  | elementTable => "only active segments for table 0 are supported"
  | dataMemory => "only active segments for memory 0 are supported"
  | localCount => "too many locals"
  | bodyEnd => "function body must end with end"

end Malformation

/-- Why a reader fails, and where. -/
inductive ReadError where
  /-- The bytes end before the item does. -/
  | unexpectedEnd (offset : Nat)
  /-- A variable-length integer is complete and too large for `bits` bits. -/
  | integerOverflow (bits offset : Nat)
  /-- A variable-length integer goes on after the `limit` bytes that any value needs. -/
  | integerTooLong (limit offset : Nat)
  /-- The bytes of a name are not UTF-8. -/
  | invalidName (offset : Nat)
  /-- The bytes are there and are not what the format asks for. -/
  | malformed (offset : Nat) (what : Malformation)
  deriving DecidableEq

namespace ReadError

/-- The message of a read error. -/
def message : ReadError → String
  | unexpectedEnd offset => s!"unexpected end of input at offset {offset}"
  | integerOverflow bits offset =>
    s!"LEB128 value does not fit in {bits} bits (offset {offset})"
  | integerTooLong limit offset =>
    s!"LEB128 value longer than {limit} bytes (offset {offset})"
  | invalidName offset => s!"name is not valid UTF-8 (offset {offset})"
  | malformed offset what => s!"malformed binary at offset {offset}: " ++ what.text

end ReadError

/-- A reader of `α`: a value or an error, and the cursor left behind either way. -/
abbrev Reader := EStateM ReadError Cursor

namespace Reader

/-- The offset of the next byte. -/
def offset : Reader Nat := fun c => .ok c.offset c

/-- Fails at the current offset. -/
def malformed {α : Type} (what : Malformation) : Reader α :=
  fun c => .error (.malformed c.offset what) c

/-- The next byte. -/
def byte : Reader UInt8 := fun c =>
  match c.rest with
  | [] => .error (.unexpectedEnd c.offset) c
  | b :: rest => .ok b ⟨c.offset + 1, rest⟩

/-- The next `n` bytes, all of them or none. Offsets are 64-bit numbers. -/
def bytes (n : Nat) : Reader (List UInt8) := fun c =>
  if 0x1_0000_0000_0000_0000 ≤ c.offset + n then .error (.malformed c.offset .lengthOverflow) c
  else
    let chunk := c.rest.take n
    if chunk.length = n then .ok chunk ⟨c.offset + n, c.rest.drop n⟩
    else .error (.unexpectedEnd c.offset) c

/-- Everything that is left. -/
def remainder : Reader (List UInt8) := fun c => .ok c.rest ⟨c.offset + c.rest.length, []⟩

/-- The item, `n` times. -/
def times {α : Type} (item : Reader α) : Nat → Reader (List α)
  | 0 => pure []
  | n + 1 => do
    let a ← item
    let as ← times item n
    return a :: as

/-- Reads a whole byte string on its own: offsets in errors count from its front. -/
def runOn {α : Type} (r : Reader α) (input : List UInt8) : Except ReadError (α × Cursor) :=
  match r (.start input) with
  | .ok a c => .ok (a, c)
  | .error e _ => .error e

end Reader

/-! ### Going forward -/

/-- A reader goes **forward**: when it succeeds it has used up some bytes from the front, and the
offset counts them. -/
def Forward {ε α : Type} (r : EStateM ε Cursor α) : Prop :=
  ∀ c a c', r c = .ok a c' → ∃ used, c.rest = used ++ c'.rest ∧ c'.offset = c.offset + used.length

namespace Forward

variable {ε α β : Type}

theorem rest_length_le {r : EStateM ε Cursor α} (h : Forward r) {c c' : Cursor} {a : α}
    (hr : r c = .ok a c') : c'.rest.length ≤ c.rest.length := by
  obtain ⟨used, h₁, -⟩ := h c a c' hr
  simp [h₁]

theorem pure (a : α) : Forward (pure a : EStateM ε Cursor α) := by
  intro c b c' h
  cases h
  exact ⟨[], by simp, by simp⟩

theorem throw (e : ε) : Forward (throw e : EStateM ε Cursor α) := by
  intro c b c' h
  cases h

theorem bind {r : EStateM ε Cursor α} {f : α → EStateM ε Cursor β} (hr : Forward r)
    (hf : ∀ a, Forward (f a)) : Forward (r >>= f) := by
  intro c b c'' h
  change EStateM.bind r f c = _ at h
  unfold EStateM.bind at h
  split at h
  · next a c' ha =>
    obtain ⟨u₁, h₁, h₂⟩ := hr _ _ _ ha
    obtain ⟨u₂, h₃, h₄⟩ := hf a _ _ _ h
    exact ⟨u₁ ++ u₂, by simp [h₁, h₃], by simp [h₂, h₄, Nat.add_assoc]⟩
  · cases h

theorem offset : Forward Reader.offset := by
  intro c b c' h
  cases h
  exact ⟨[], by simp, by simp⟩

theorem byte : Forward Reader.byte := by
  intro c b c' h
  unfold Reader.byte at h
  split at h
  · cases h
  · next hrest =>
    cases h
    exact ⟨[b], by simp [hrest], by simp⟩

theorem bytes (n : Nat) : Forward (Reader.bytes n) := by
  intro c b c' h
  unfold Reader.bytes at h
  split at h
  · cases h
  · dsimp only at h
    split at h
    · next hlen =>
      cases h
      exact ⟨c.rest.take n, by simp, by simp [hlen]⟩
    · cases h

theorem times {item : Reader α} (h : Forward item) : ∀ n, Forward (Reader.times item n)
  | 0 => Forward.pure []
  | n + 1 => bind h fun _ => bind (times h n) fun _ => Forward.pure _

end Forward

/-- A byte that was read stood at the front. -/
theorem Reader.byte_eq_ok {c c' : Cursor} {b : UInt8} (h : Reader.byte c = .ok b c') :
    c.rest = b :: c'.rest ∧ c'.offset = c.offset + 1 := by
  unfold Reader.byte at h
  split at h
  · cases h
  · cases h
    simp [*]

end MeteredSandbox
