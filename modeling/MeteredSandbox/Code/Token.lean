import MeteredSandbox.Bytes.Field
import MeteredSandbox.Code.Opcode

/-!
# The words of a function body

A body is a run of words, each an opcode with its immediates: an instruction without structure, the
opening of a construct, the mark between the two arms of a conditional, or an end. `Token.scan` cuts
a byte string into words as far as it goes; which words belong together is for `Code.Nesting`.
-/

namespace MeteredSandbox

/-- A word of a function body. -/
inductive Token where
  | op (op : Op)
  | block (arity : Nat)
  | loop
  | ifThen (arity : Nat)
  | elseMark
  | endMark
  deriving DecidableEq

/-- What can be wrong with a function body. -/
inductive BodyFlaw where
  | truncated
  | blockType
  | reservedByte
  | strayElse
  | trailingBytes
  | tooManyLocals
  deriving DecidableEq

namespace BodyFlaw

/-- What a flaw is called in a message. -/
def text : BodyFlaw → String
  | truncated => "truncated or malformed immediate"
  | blockType => "unsupported block type"
  | reservedByte => "reserved byte must be zero"
  | strayElse => "else without matching if"
  | trailingBytes => "bytes after the final end"
  | tooManyLocals => "too many locals"

end BodyFlaw

namespace Token

/-- A reader of words and of what they are made of. -/
abbrev Scanner := EStateM BodyFlaw Cursor

/-- An immediate. Whatever is wrong with it, the flaw is the same. -/
def immediate {α : Type} (r : Reader α) : Scanner α := fun c =>
  match r c with
  | .ok a c' => .ok a c'
  | .error _ c' => .error .truncated c'

/-- The number of results of a construct. -/
def blockArity : Scanner Nat := do
  let b ← immediate .byte
  if b = 0x40 then return 0
  else if (ValType.ofCode? b).isSome then return 1
  else throw .blockType

/-- A byte that has to be zero. -/
def reserved : Scanner Unit := do
  let b ← immediate .byte
  if b = 0 then return () else throw .reservedByte

/-- The offset of a memory access. The alignment in front of it is a hint that nothing depends
on. -/
def accessOffset : Scanner Nat := do
  let _ ← immediate .index
  immediate .index

/-- A word whose one immediate is an index. -/
def indexed (make : Nat → Op) : Scanner Token := do
  let i ← immediate .index
  return .op (make i)

/-- A constant whose immediate is read by `r`. -/
def constant {α : Type} (r : Reader α) (make : α → Value) : Scanner Token := do
  let a ← immediate r
  return .op (.const (make a))

/-- The rest of the word whose opcode is `b`. -/
def afterOpcode (b : UInt8) : Scanner Token :=
  match b.toNat with
  | 0x00 => return .op .unreachable
  | 0x01 => return .op .nop
  | 0x02 => do
    let arity ← blockArity
    return .block arity
  | 0x03 => do
    let _ ← blockArity
    return .loop
  | 0x04 => do
    let arity ← blockArity
    return .ifThen arity
  | 0x05 => return .elseMark
  | 0x0B => return .endMark
  | 0x0C => indexed .br
  | 0x0D => indexed .brIf
  | 0x0E => do
    let depths ← immediate (.vector .index)
    let default ← immediate .index
    return .op (.brTable depths default)
  | 0x0F => return .op .ret
  | 0x10 => indexed .call
  | 0x11 => do
    let type ← immediate .index
    reserved
    return .op (.callIndirect type)
  | 0x1A => return .op .drop
  | 0x1B => return .op .select
  | 0x20 => indexed .localGet
  | 0x21 => indexed .localSet
  | 0x22 => indexed .localTee
  | 0x23 => indexed .globalGet
  | 0x24 => indexed .globalSet
  | 0x3F => do
    reserved
    return .op .memorySize
  | 0x40 => do
    reserved
    return .op .memoryGrow
  | 0x41 => constant (Leb128.signed 32) fun v => .i32 (.ofInt 32 v)
  | 0x42 => constant (Leb128.signed 64) fun v => .i64 (.ofInt 64 v)
  | 0x43 => constant (.littleEndian 4) fun n => .f32 (.ofNat 32 n)
  | 0x44 => constant (.littleEndian 8) fun n => .f64 (.ofNat 64 n)
  | _ =>
    match LoadOp.ofCode? b, StoreOp.ofCode? b, NumericOp.ofCode? b with
    | some load, _, _ => do
      let offset ← accessOffset
      return .op (.load load offset)
    | none, some store, _ => do
      let offset ← accessOffset
      return .op (.store store offset)
    | none, none, some numeric => return .op (.numeric numeric)
    | none, none, none => return .op (.illegal b)

/-- The next word. -/
def next : Scanner Token := do
  let b ← immediate .byte
  afterOpcode b

end Token

namespace Forward

theorem immediate {α : Type} {r : Reader α} (h : Forward r) : Forward (Token.immediate r) := by
  intro c a c' hr
  unfold Token.immediate at hr
  split at hr
  · next h' =>
    cases hr
    exact h _ _ _ h'
  · cases hr

theorem blockArity : Forward Token.blockArity := by
  refine bind (immediate byte) fun b => ?_
  split
  · exact pure _
  split
  · exact pure _
  · exact throw _

theorem reserved : Forward Token.reserved := by
  refine bind (immediate byte) fun b => ?_
  split
  · exact pure _
  · exact throw _

theorem accessOffset : Forward Token.accessOffset :=
  bind (immediate index) fun _ => immediate index

theorem indexed (make : Nat → Op) : Forward (Token.indexed make) :=
  bind (immediate index) fun _ => pure _

theorem constant {α : Type} {r : Reader α} (h : Forward r) (make : α → Value) :
    Forward (Token.constant r make) :=
  bind (immediate h) fun _ => pure _

theorem afterOpcode (b : UInt8) : Forward (Token.afterOpcode b) := by
  unfold Token.afterOpcode
  split <;> try split
  all_goals first
    | exact pure _
    | exact indexed _
    | exact constant (signed _) _
    | exact constant (littleEndian _) _
    | exact bind blockArity fun _ => pure _
    | exact bind reserved fun _ => pure _
    | exact bind accessOffset fun _ => pure _
    | exact bind (immediate index) fun _ => bind reserved fun _ => pure _
    | exact bind (immediate (vector index)) fun _ => bind (immediate index) fun _ => pure _

end Forward

namespace Token

/-- A word takes at least one byte. -/
theorem next_shorter {c c' : Cursor} {t : Token} (h : next c = .ok t c') :
    c'.rest.length < c.rest.length := by
  change EStateM.bind (immediate .byte) afterOpcode c = _ at h
  unfold EStateM.bind immediate at h
  split at h
  · next b c₁ hb =>
    split at hb
    · next hb' =>
      -- the opcode takes a byte, and what it is followed by does not go back
      cases hb
      have hb := Reader.byte_eq_ok hb'
      have := (Forward.afterOpcode b).rest_length_le h
      simp only [hb.1, List.length_cons]
      omega
    · cases hb
  · cases h

/-- The words from the cursor on, each with its offset, and the place where the next word should
start with the flaw that is found there. At the end of the bytes the next word is truncated. -/
def scan (c : Cursor) : List (Nat × Token) × (Nat × BodyFlaw) :=
  match h : next c with
  | .error flaw _ => ([], (c.offset, flaw))
  | .ok t c' =>
    have : c'.rest.length < c.rest.length := next_shorter h
    let (more, stop) := scan c'
    ((c.offset, t) :: more, stop)
termination_by c.rest.length

end Token

end MeteredSandbox
