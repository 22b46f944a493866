import MeteredSandbox.Proofs.Overlaying

/-!
# Loads and stores share one memory of bytes

There are fourteen loads and nine stores. They differ in how many bytes they touch, in the type of
their operand or result, and in what they do to the bits that are too many or too few; but there is
one memory, and it consists of bytes. So it is enough to say of a store which bytes it leaves
(`Memory.Stored`), of a load which bytes it looks at (`Memory.number`), and of the number that they
spell how it becomes a value (`LoadOp.Extends`). Nothing else connects a load with the stores before
it, whatever their widths and however their ranges overlap. Which byte of a program stands for which
of them is laid down in two tables (`LoadOp.forms`, `StoreOp.forms`).

An access takes its address from the stack: a base, read without a sign, to which the offset of the
instruction is added. The sum is not cut down to 32 bits. If the bytes from there on are not all in
the memory, the access traps and changes nothing (`Access.behaves`). What a run of accesses leaves
is then a matter of the bytes one by one (`Access.byteAfter`): each of them is what the last store
that reached it has left.
-/

namespace MeteredSandbox

/-! ### Bytes and numbers -/

namespace LittleEndian

/-- The bytes of a number, least significant first. -/
theorem getElem?_ofNat {count i : Nat} (n : Nat) (h : i < count) :
    (ofNat count n)[i]? = some (UInt8.ofNat (n / 256 ^ i)) := by
  induction count generalizing n i with
  | zero => exact absurd h (Nat.not_lt_zero i)
  | succ count ih =>
    cases i with
    | zero => simp [ofNat]
    | succ i =>
      -- the bytes behind the first are those of the quotient
      rw [ofNat, List.getElem?_cons_succ, ih (n / 256) (Nat.lt_of_succ_lt_succ h),
        Nat.div_div_eq_div_mul, Nat.pow_succ']

theorem toNat_lt (bs : List UInt8) : toNat bs < 256 ^ bs.length :=
  calc toNat bs = toNat (ofNat bs.length (toNat bs)) := by rw [ofNat_toNat]
    _ = toNat bs % 256 ^ bs.length := toNat_ofNat _ _
    _ < 256 ^ bs.length := Nat.mod_lt _ (Nat.pow_pos (by decide))

/-- The number that consecutive bytes spell. -/
theorem toNat_map_range (byte : Nat → UInt8) (count : Nat) :
    toNat ((List.range count).map byte) = ∑ i ∈ Finset.range count, (byte i).toNat * 256 ^ i := by
  induction count generalizing byte with
  | zero => rfl
  | succ count ih =>
    rw [List.range_succ_eq_map, List.map_cons, List.map_map, toNat, ih, Finset.sum_range_succ',
      Finset.mul_sum, Nat.pow_zero, Nat.mul_one, Nat.add_comm]
    congr 1
    refine Finset.sum_congr rfl fun i _ => ?_
    rw [Function.comp_apply, Nat.pow_succ']
    ring

end LittleEndian

namespace Memory

variable {m m' : Memory} {address count : Nat}

/-- The number that the bytes from an address on spell, the least significant first. -/
def number (m : Memory) (address count : Nat) : Nat :=
  ∑ i ∈ Finset.range count, (m.byteAt (address + i)).toNat * 256 ^ i

theorem number_eq_toNat (m : Memory) (address count : Nat) : m.number address count
    = LittleEndian.toNat ((List.range count).map fun i => m.byteAt (address + i)) :=
  (LittleEndian.toNat_map_range _ count).symm

theorem number_lt (m : Memory) (address count : Nat) : m.number address count < 256 ^ count := by
  have hlt := LittleEndian.toNat_lt ((List.range count).map fun i => m.byteAt (address + i))
  rwa [List.length_map, List.length_range, ← number_eq_toNat] at hlt

/-- A number is a matter of its bytes. -/
theorem number_congr (h : ∀ i < count, m.byteAt (address + i) = m'.byteAt (address + i)) :
    m.number address count = m'.number address count :=
  Finset.sum_congr rfl fun i hi => by rw [h i (Finset.mem_range.mp hi)]

theorem byteAt_eq (m : Memory) (i : Nat) : m.byteAt i = (m.bytes.data[i]?).getD 0 := by
  show m.bytes.data[i]! = _
  rw [Array.getElem!_eq_getD, Array.getD_eq_getD_getElem?]
  rfl

/-- **What a store leaves**: the low bytes of `bits` in the places from `address` on, the least
significant first, and all else as it was. -/
structure Stored (m : Memory) (address count bits : Nat) (m' : Memory) : Prop where
  size_eq : m'.size = m.size
  maxPages_eq : m'.maxPages = m.maxPages
  inside : ∀ i < count, m'.byteAt (address + i) = UInt8.ofNat (bits / 256 ^ i)
  outside : ∀ i, i < address ∨ address + count ≤ i → m'.byteAt i = m.byteAt i

/-- What was stored is the number that is there. -/
theorem Stored.number_eq {bits : Nat} (h : m.Stored address count bits m') :
    m'.number address count = bits % 256 ^ count := by
  -- the bytes in the range are the bytes that were written, one by one
  have hbytes : ((List.range count).map fun i => m'.byteAt (address + i))
      = LittleEndian.ofNat count bits := by
    refine List.ext_getElem? fun i => ?_
    by_cases hi : i < count
    · rw [List.getElem?_map, List.getElem?_range hi, Option.map_some, h.inside i hi,
        LittleEndian.getElem?_ofNat bits hi]
    · rw [List.getElem?_eq_none (by simpa using hi), List.getElem?_eq_none (by simpa using hi)]
  rw [number_eq_toNat, hbytes, LittleEndian.toNat_ofNat]
  rfl

/-- Overwriting with the bytes of a number stores it. -/
theorem stored_overwrite (bits : Nat) (h : address + count ≤ m.size) : m.Stored address count bits
    { m with bytes := overwrite m.bytes address (LittleEndian.ofNat count bits) } := by
  have hdata := data_overwrite m.bytes address (LittleEndian.ofNat count bits)
  constructor
  · show (overwrite m.bytes address (LittleEndian.ofNat count bits)).data.size = _
    rw [hdata, size_overwritten]
    rfl
  · rfl
  · intro i hi
    have hfits : address + (LittleEndian.ofNat count bits).length ≤ m.bytes.data.size := by
      rw [LittleEndian.length_ofNat]
      exact h
    have hbyte : (LittleEndian.ofNat count bits)[address + i - address]?
        = some (UInt8.ofNat (bits / 256 ^ i)) := by
      rw [Nat.add_sub_cancel_left]
      exact LittleEndian.getElem?_ofNat bits hi
    rw [byteAt_eq]
    dsimp only
    rw [hdata, getElem?_overwritten hfits (Nat.le_add_right address i) hbyte, Option.getD_some]
  · intro i hi
    have hnone : address ≤ i → (LittleEndian.ofNat count bits)[i - address]? = none := by
      intro hle
      rw [List.getElem?_eq_none_iff, LittleEndian.length_ofNat]
      omega
    rw [byteAt_eq, byteAt_eq]
    dsimp only
    rw [hdata, getElem?_overwritten_of_none _ _ _ hnone]

end Memory

/-! ### Opcodes -/

/-- The opcodes of the loads, each with the type of its result, the number of bytes that are read,
and whether they are extended with their sign. -/
def LoadOp.forms : List (UInt8 × ValType × Nat × Bool) := [
  (0x28, .i32, 4, false), (0x29, .i64, 8, false), (0x2A, .f32, 4, false), (0x2B, .f64, 8, false),
  (0x2C, .i32, 1, true), (0x2D, .i32, 1, false), (0x2E, .i32, 2, true), (0x2F, .i32, 2, false),
  (0x30, .i64, 1, true), (0x31, .i64, 1, false), (0x32, .i64, 2, true), (0x33, .i64, 2, false),
  (0x34, .i64, 4, true), (0x35, .i64, 4, false)]

/-- The opcodes of the stores, each with the type of its operand and the number of bytes that are
written. -/
def StoreOp.forms : List (UInt8 × ValType × Nat) := [
  (0x36, .i32, 4), (0x37, .i64, 8), (0x38, .f32, 4), (0x39, .f64, 8), (0x3A, .i32, 1),
  (0x3B, .i32, 2), (0x3C, .i64, 1), (0x3D, .i64, 2), (0x3E, .i64, 4)]

/-- **The opcodes are those of the tables.** A byte that is in a table stands for a load or a store
as it is described there, a byte that is not stands for none, and no load and no store is without.
-/
structure AccessOpcodes : Prop where
  load : ∀ code, (LoadOp.ofCode? code).map (fun op => (op.type, op.byteCount, op.isSigned))
    = LoadOp.forms.lookup code
  store : ∀ code, (StoreOp.ofCode? code).map (fun op => (op.type, op.byteCount))
    = StoreOp.forms.lookup code
  exists_load : ∀ op, ∃ code, LoadOp.ofCode? code = some op
  exists_store : ∀ op, ∃ code, StoreOp.ofCode? code = some op

/-- What holds of the 256 bytes holds of every byte. -/
theorem forall_byte {P : UInt8 → Prop} (h : ∀ i : Fin 256, P (.ofNat i)) (b : UInt8) : P b := by
  have hb := h ⟨b.toNat, b.toNat_lt⟩
  rwa [UInt8.ofNat_toNat] at hb

theorem accessOpcodes : AccessOpcodes where
  load := forall_byte (by decide +kernel)
  store := forall_byte (by decide +kernel)
  exists_load op := ⟨op.code, by cases op <;> rfl⟩
  exists_store op := ⟨op.code, by cases op <;> rfl⟩

/-! ### Results of loads -/

/-- The number that the bits of a value stand for in two's complement. -/
def Value.toInt : Value → Int
  | i32 b | f32 b => b.toInt
  | i64 b | f64 b => b.toInt

/-- **What a load makes of a number**: a value of the type of its result. Without a sign the number
is the bits, and with a sign it is read in two's complement first, as a number of the bytes that the
load reads. -/
structure LoadOp.Extends (op : LoadOp) (n : Nat) (v : Value) : Prop where
  type_eq : v.type = op.type
  unsigned : op.isSigned = false → v.bits = n
  signed : op.isSigned = true → v.toInt = (n : Int).bmod (2 ^ (8 * op.byteCount))

namespace Value

/-- Bits that fit are the bits of the value. -/
theorem bits_ofBits {t : ValType} {n : Nat} (h : n < 2 ^ t.width) : (ofBits t n).bits = n := by
  cases t <;> exact Nat.mod_eq_of_lt h

/-- The type and the bits are all there is to a value. -/
theorem eq_of_bits {v w : Value} (htype : v.type = w.type) (h : v.bits = w.bits) : v = w := by
  cases v <;> cases w <;> cases htype <;> exact congrArg _ (BitVec.eq_of_toNat_eq h)

theorem eq_of_toInt {v w : Value} (htype : v.type = w.type) (h : v.toInt = w.toInt) : v = w := by
  cases v <;> cases w <;> cases htype <;> exact congrArg _ (BitVec.eq_of_toInt_eq h)

theorem toInt_ofBits {t : ValType} (b : BitVec t.width) : (ofBits t b.toNat).toInt = b.toInt := by
  cases t <;> exact congrArg BitVec.toInt (BitVec.ofNat_toNat _ b |>.trans (BitVec.setWidth_eq b))

end Value

namespace LoadOp

/-- No load reads more bits than its result has. -/
theorem byteCount_le (op : LoadOp) : 8 * op.byteCount ≤ op.type.width := by
  cases op <;> decide

/-- The bytes of a load spell numbers of as many bits. -/
theorem pow_byteCount (op : LoadOp) : 256 ^ op.byteCount = 2 ^ (8 * op.byteCount) := by
  rw [Nat.pow_mul]

theorem result_extends (op : LoadOp) {n : Nat} (h : n < 256 ^ op.byteCount) :
    op.Extends n (op.result n) := by
  rw [pow_byteCount] at h
  refine ⟨Value.type_ofBits _ _, fun hsign => ?_, fun hsign => ?_⟩
  · have hfits : n < 2 ^ op.type.width :=
      h.trans_le (Nat.pow_le_pow_right (by decide) op.byteCount_le)
    unfold result
    rw [hsign]
    exact Value.bits_ofBits hfits
  · unfold result
    rw [hsign, if_pos rfl, Value.toInt_ofBits, BitVec.toInt_signExtend_of_le op.byteCount_le,
      BitVec.toInt_ofNat']

/-- A load makes one value of a number. -/
theorem Extends.unique {op : LoadOp} {n : Nat} {v w : Value} (hv : op.Extends n v)
    (hw : op.Extends n w) : v = w := by
  have htype : v.type = w.type := hv.type_eq.trans hw.type_eq.symm
  cases hsign : op.isSigned with
  | false => exact Value.eq_of_bits htype ((hv.unsigned hsign).trans (hw.unsigned hsign).symm)
  | true => exact Value.eq_of_toInt htype ((hv.signed hsign).trans (hw.signed hsign).symm)

end LoadOp

/-! ### On a memory -/

namespace Memory

variable {m : Memory} {address : Nat}

theorem load_of_fits (op : LoadOp) (h : address + op.byteCount ≤ m.size) :
    m.load op address = .ok (op.result (m.number address op.byteCount)) := by
  unfold load read
  rw [if_pos h, number_eq_toNat]
  rfl

theorem load_of_not_fits (op : LoadOp) (h : ¬ address + op.byteCount ≤ m.size) :
    m.load op address = .error (.memoryOutOfBounds address op.byteCount) := by
  unfold load read
  rw [if_neg h]
  rfl

/-- A load is a matter of the bytes that it reads. -/
theorem load_congr (op : LoadOp) {m' : Memory} (hsize : m.size = m'.size)
    (h : ∀ i < op.byteCount, m.byteAt (address + i) = m'.byteAt (address + i)) :
    m.load op address = m'.load op address := by
  by_cases hfits : address + op.byteCount ≤ m.size
  · rw [load_of_fits op hfits, load_of_fits op (hsize ▸ hfits), number_congr h]
  · rw [load_of_not_fits op hfits, load_of_not_fits op (hsize ▸ hfits)]

theorem store_of_fits {op : StoreOp} {v : Value} (htype : v.type = op.type)
    (h : address + op.byteCount ≤ m.size) :
    ∃ m', m.Stored address op.byteCount v.bits m' ∧ store op address v m = .ok () m' := by
  refine ⟨_, stored_overwrite v.bits h, ?_⟩
  unfold store
  rw [if_pos htype]
  unfold write
  rw [LittleEndian.length_ofNat, if_pos h]

theorem store_of_not_fits {op : StoreOp} {v : Value} (htype : v.type = op.type)
    (h : ¬ address + op.byteCount ≤ m.size) :
    store op address v m = .error (.memoryOutOfBounds address op.byteCount) m := by
  unfold store
  rw [if_pos htype]
  unfold write
  rw [LittleEndian.length_ofNat, if_neg h]

theorem store_of_conflict {op : StoreOp} {v : Value} (htype : v.type ≠ op.type) :
    store op address v m = .error (.typeConflict .storeOperand) m := by
  unfold store
  rw [if_neg htype]
  rfl

end Memory

/-! ### On a machine -/

/-- A load or a store, with its operands. The base is an operand, the offset is part of the
instruction. -/
inductive Access where
  | load (op : LoadOp) (base : BitVec 32) (offset : Nat)
  | store (op : StoreOp) (base : BitVec 32) (offset : Nat) (v : Value)

namespace Access

/-- The instruction. -/
def op : Access → Op
  | load op _ offset => .load op offset
  | store op _ offset _ => .store op offset

/-- The operands, the lowest first. -/
def operands : Access → List Value
  | load _ base _ => [.i32 base]
  | store _ base _ v => [.i32 base, v]

variable {σ : Type}

/-- The access is carried out, with its operands on top of the stack. -/
def perform (s : Setting σ) (access : Access) : Exec σ Unit := fun m =>
  Machine.step s (.op access.op) { m with operands := m.operands.pushAll access.operands }

end Access

/-- What was put on a stack is taken again, if the floor is not above it. -/
theorem Operands.pop_push {floor : Nat} {operands : OperandStack} (hfloor : floor ≤ operands.height)
    (v : Value) : pop floor (operands.push v) = .ok v operands := by
  have htop : (operands.push v).pop? = some (v, operands) := Stack.pop?_eq_some_iff.mpr rfl
  unfold pop
  rw [Stack.height_push, if_neg (by omega), htop]

theorem Operands.popInt_push {w : Width} {floor : Nat} {operands : OperandStack}
    (hfloor : floor ≤ operands.height) (bits : BitVec w.bits) :
    popInt w floor (operands.push (.int w bits)) = .ok bits operands := by
  unfold popInt
  rw [bind_of_ok (Operands.pop_push hfloor _), Value.int?_int]
  rfl

section

variable {σ : Type} {s : Setting σ} {m : Machine σ} {memory : Memory} {floor : Nat}

theorem Exec.pop_push (hfloor : floor ≤ m.operands.height) (v : Value) :
    Exec.pop floor { m with operands := m.operands.push v } = .ok v m :=
  onOperands_of_ok (m := { m with operands := m.operands.push v }) (Operands.pop_push hfloor v)

/-- The address of an access is its base, read without a sign, and its offset. -/
theorem Machine.popAddress_push (hfloor : floor ≤ m.operands.height) (base : BitVec 32)
    (offset : Nat) :
    popAddress floor offset { m with operands := m.operands.push (.i32 base) }
      = .ok (base.toNat + offset) m := by
  have hpop : Exec.popI32 floor { m with operands := m.operands.push (.i32 base) } = .ok base m :=
    Exec.onOperands_of_ok (m := { m with operands := m.operands.push (.i32 base) })
      (Operands.popInt_push (w := .w32) hfloor base)
  unfold popAddress
  rw [bind_of_ok hpop]
  rfl

namespace Access

/-- A load is carried out as one on the memory. -/
theorem perform_load (hmemory : m.store.memory = some memory)
    (hfloor : Machine.floor s m ≤ m.operands.height) (op : LoadOp) (base : BitVec 32)
    (offset : Nat) :
    (load op base offset).perform s m = match memory.load op (base.toNat + offset) with
      | .ok v => .ok () { m with operands := m.operands.push v }
      | .error t => .error (.trap t) m := by
  have haddress := Machine.popAddress_push hfloor base offset
  show (Machine.popAddress (Machine.floor s m) offset >>= fun address =>
    Exec.readMemory (fun memory => memory.load op address) >>= fun v => Exec.push v)
      { m with operands := m.operands.push (.i32 base) } = _
  -- with the base taken the machine is the one from before, so its memory is the given one
  rw [bind_of_ok haddress, bind_apply]
  unfold Exec.readMemory
  rw [hmemory]
  dsimp only
  cases memory.load op (base.toNat + offset) with
  | ok v => rfl
  | error t => rfl

/-- What a load puts on the stack is what it is on the memory. -/
theorem perform_load_eq_ok_iff (hmemory : m.store.memory = some memory)
    (hfloor : Machine.floor s m ≤ m.operands.height) {op : LoadOp} {base : BitVec 32}
    {offset : Nat} {v : Value} :
    (load op base offset).perform s m = .ok () { m with operands := m.operands.push v }
      ↔ memory.load op (base.toNat + offset) = .ok v := by
  rw [perform_load hmemory hfloor]
  cases memory.load op (base.toNat + offset) with
  | error t => exact iff_of_false (by rintro ⟨⟩) (by rintro ⟨⟩)
  | ok v' =>
    constructor
    · intro h
      -- the machines differ in their operands at most, and there in what is on top
      simp only [EStateM.Result.ok.injEq, Machine.mk.injEq, true_and, and_true] at h
      have hitems := congrArg Stack.items h
      rw [Stack.items_push, Stack.items_push] at hitems
      rw [(List.cons.inj hitems).1]
    · rintro ⟨⟩
      rfl

/-- A store is carried out as one on the memory. -/
theorem perform_store (hmemory : m.store.memory = some memory)
    (hfloor : Machine.floor s m ≤ m.operands.height) (op : StoreOp) (base : BitVec 32)
    (offset : Nat) (v : Value) :
    (store op base offset v).perform s m =
      match Memory.store op (base.toNat + offset) v memory with
      | .ok _ memory' => .ok () { m with store := { m.store with memory := some memory' } }
      | .error t memory' =>
        .error (.trap t) { m with store := { m.store with memory := some memory' } } := by
  have haddress := Machine.popAddress_push hfloor base offset
  have hvalue : Exec.pop (Machine.floor s m)
      { m with operands := (m.operands.push (.i32 base)).push v }
        = .ok v { m with operands := m.operands.push (.i32 base) } :=
    Exec.pop_push (m := { m with operands := m.operands.push (.i32 base) })
      (hfloor.trans (Nat.le_succ _)) v
  show (Exec.pop (Machine.floor s m) >>= fun v => Machine.popAddress (Machine.floor s m) offset >>=
    fun address => Exec.onMemory (Memory.store op address v))
      { m with operands := (m.operands.push (.i32 base)).push v } = _
  rw [bind_of_ok hvalue, bind_of_ok haddress, Exec.onMemory_apply, hmemory]
  dsimp only
  cases Memory.store op (base.toNat + offset) v memory with
  | ok _ memory' => rfl
  | error t memory' => rfl

/-- **What an access does** on a machine with the given memory. It traps if not all of its bytes are
there, and a store traps before that if its operand has another type; then everything is as it was
before. Otherwise a load puts on the stack what the bytes spell, and a store leaves the low bytes of
its operand. -/
def Behaves (s : Setting σ) (m : Machine σ) (memory : Memory) : Access → Prop
  | load op base offset =>
    (base.toNat + offset + op.byteCount ≤ memory.size →
      ∃ v, op.Extends (memory.number (base.toNat + offset) op.byteCount) v ∧
        (load op base offset).perform s m = .ok () { m with operands := m.operands.push v }) ∧
    (memory.size < base.toNat + offset + op.byteCount →
      (load op base offset).perform s m
        = .error (.trap (.memoryOutOfBounds (base.toNat + offset) op.byteCount)) m)
  | store op base offset v =>
    (v.type ≠ op.type →
      (store op base offset v).perform s m = .error (.trap (.typeConflict .storeOperand)) m) ∧
    (v.type = op.type → base.toNat + offset + op.byteCount ≤ memory.size →
      ∃ memory', memory.Stored (base.toNat + offset) op.byteCount v.bits memory' ∧
        (store op base offset v).perform s m
          = .ok () { m with store := { m.store with memory := some memory' } }) ∧
    (v.type = op.type → memory.size < base.toNat + offset + op.byteCount →
      (store op base offset v).perform s m
        = .error (.trap (.memoryOutOfBounds (base.toNat + offset) op.byteCount)) m)

/-- A machine is the same with the memory that it has. -/
theorem withMemory_self (hmemory : m.store.memory = some memory) :
    { m with store := { m.store with memory := some memory } } = m := by
  rw [← hmemory]

/-- **Every access behaves.** -/
theorem behaves (hmemory : m.store.memory = some memory)
    (hfloor : Machine.floor s m ≤ m.operands.height) (access : Access) :
    access.Behaves s m memory := by
  cases access with
  | load op base offset =>
    refine ⟨fun hfits => ?_, fun hfits => ?_⟩
    · refine ⟨_, op.result_extends (memory.number_lt _ _), ?_⟩
      rw [perform_load hmemory hfloor, Memory.load_of_fits op hfits]
    · rw [perform_load hmemory hfloor, Memory.load_of_not_fits op (Nat.not_le_of_lt hfits)]
  | store op base offset v =>
    refine ⟨fun htype => ?_, fun htype hfits => ?_, fun htype hfits => ?_⟩
    · rw [perform_store hmemory hfloor, Memory.store_of_conflict htype]
      exact congrArg (EStateM.Result.error _) (withMemory_self hmemory)
    · obtain ⟨memory', hstored, hstore⟩ := Memory.store_of_fits htype hfits
      refine ⟨memory', hstored, ?_⟩
      rw [perform_store hmemory hfloor, hstore]
    · rw [perform_store hmemory hfloor,
        Memory.store_of_not_fits htype (Nat.not_le_of_lt hfits)]
      exact congrArg (EStateM.Result.error _) (withMemory_self hmemory)

/-- A store that does not trap has stored its operand. -/
theorem exists_stored_of_perform (hmemory : m.store.memory = some memory)
    (hfloor : Machine.floor s m ≤ m.operands.height) {op : StoreOp} {base : BitVec 32}
    {offset : Nat} {v : Value} {m' : Machine σ}
    (h : (store op base offset v).perform s m = .ok () m') :
    base.toNat + offset + op.byteCount ≤ memory.size ∧
    ∃ memory', memory.Stored (base.toNat + offset) op.byteCount v.bits memory' ∧
      m' = { m with store := { m.store with memory := some memory' } } := by
  obtain ⟨hconflict, hstore, htrap⟩ := behaves hmemory hfloor (store op base offset v)
  by_cases htype : v.type = op.type
  · by_cases hfits : base.toNat + offset + op.byteCount ≤ memory.size
    · obtain ⟨memory', hstored, hperform⟩ := hstore htype hfits
      rw [hperform] at h
      cases h
      exact ⟨hfits, memory', hstored, rfl⟩
    · rw [htrap htype (Nat.lt_of_not_le hfits)] at h
      cases h
  · rw [hconflict htype] at h
    cases h

/-! ### One access after another -/

/-- The machine that an access leaves, whether or not it traps. -/
def after (s : Setting σ) (m : Machine σ) (access : Access) : Machine σ :=
  match access.perform s m with
  | .ok _ m' => m'
  | .error _ m' => m'

/-- The machine that is left by accesses one after another. -/
def afterAll (s : Setting σ) (m : Machine σ) (accesses : List Access) : Machine σ :=
  accesses.foldl (after s) m

/-- The byte that an access to a memory of the given size leaves at the address `i`, if it writes
there. -/
def written? (size i : Nat) : Access → Option UInt8
  | load .. => none
  | store op base offset v =>
    if v.type = op.type ∧ base.toNat + offset + op.byteCount ≤ size ∧ base.toNat + offset ≤ i ∧
        i < base.toNat + offset + op.byteCount then
      some (UInt8.ofNat (v.bits / 256 ^ (i - (base.toNat + offset))))
    else none

/-- The byte at the address `i` after accesses: what the last of them that writes there leaves, or
what was there before. -/
def byteAfter (memory : Memory) (accesses : List Access) (i : Nat) : UInt8 :=
  (accesses.reverse.findSome? (written? memory.size i)).getD (memory.byteAt i)

/-- All bytes that the access may write are outside of the range. -/
def Avoids (address count : Nat) : Access → Prop
  | load .. => True
  | store op base offset _ =>
    base.toNat + offset + op.byteCount ≤ address ∨ address + count ≤ base.toNat + offset

theorem after_of_ok {access : Access} {u : Unit} {m' : Machine σ}
    (h : access.perform s m = .ok u m') : access.after s m = m' := by
  unfold after
  rw [h]

theorem after_of_error {access : Access} {e : Stop} {m' : Machine σ}
    (h : access.perform s m = .error e m') : access.after s m = m' := by
  unfold after
  rw [h]

/-- What a store leaves, byte by byte. -/
theorem byteAt_of_stored {op : StoreOp} {base : BitVec 32} {offset : Nat} {v : Value}
    {memory' : Memory} (htype : v.type = op.type)
    (hfits : base.toNat + offset + op.byteCount ≤ memory.size)
    (h : memory.Stored (base.toNat + offset) op.byteCount v.bits memory') (i : Nat) :
    memory'.byteAt i
      = ((store op base offset v).written? memory.size i).getD (memory.byteAt i) := by
  by_cases hi : base.toNat + offset ≤ i ∧ i < base.toNat + offset + op.byteCount
  · have hwritten : (store op base offset v).written? memory.size i
        = some (UInt8.ofNat (v.bits / 256 ^ (i - (base.toNat + offset)))) :=
      if_pos ⟨htype, hfits, hi⟩
    rw [hwritten, Option.getD_some, ← h.inside _ (by omega), Nat.add_sub_of_le hi.1]
  · have hwritten : (store op base offset v).written? memory.size i = none :=
      if_neg fun hwrites => hi hwrites.2.2
    rw [hwritten, Option.getD_none, h.outside i (by omega)]

/-- **One step**: the memory that an access leaves, and room for the operands of the next one. -/
theorem exists_memory_after (hmemory : m.store.memory = some memory)
    (hfloor : Machine.floor s m ≤ m.operands.height) (access : Access) :
    ∃ memory', (access.after s m).store.memory = some memory' ∧
      Machine.floor s (access.after s m) ≤ (access.after s m).operands.height ∧
      memory'.size = memory.size ∧
      ∀ i, memory'.byteAt i = (access.written? memory.size i).getD (memory.byteAt i) := by
  cases access with
  | load op base offset =>
    obtain ⟨hload, htrap⟩ := behaves hmemory hfloor (load op base offset)
    by_cases hfits : base.toNat + offset + op.byteCount ≤ memory.size
    · obtain ⟨v, -, hperform⟩ := hload hfits
      rw [after_of_ok hperform]
      exact ⟨memory, hmemory, hfloor.trans (Nat.le_succ _), rfl, fun i => rfl⟩
    · rw [after_of_error (htrap (Nat.lt_of_not_le hfits))]
      exact ⟨memory, hmemory, hfloor, rfl, fun i => rfl⟩
  | store op base offset v =>
    obtain ⟨hconflict, hstore, htrap⟩ := behaves hmemory hfloor (store op base offset v)
    -- a store that traps does not count as one that writes
    have hnothing : ¬ (v.type = op.type ∧ base.toNat + offset + op.byteCount ≤ memory.size) →
        ∀ i, (store op base offset v).written? memory.size i = none := fun h i =>
      if_neg fun hwrites => h ⟨hwrites.1, hwrites.2.1⟩
    by_cases htype : v.type = op.type
    · by_cases hfits : base.toNat + offset + op.byteCount ≤ memory.size
      · obtain ⟨memory', hstored, hperform⟩ := hstore htype hfits
        rw [after_of_ok hperform]
        exact ⟨memory', rfl, hfloor, hstored.size_eq, byteAt_of_stored htype hfits hstored⟩
      · rw [after_of_error (htrap htype (Nat.lt_of_not_le hfits))]
        exact ⟨memory, hmemory, hfloor, rfl, fun i => by rw [hnothing fun h => hfits h.2]; rfl⟩
    · rw [after_of_error (hconflict htype)]
      exact ⟨memory, hmemory, hfloor, rfl, fun i => by rw [hnothing fun h => htype h.1]; rfl⟩

/-- An access in front of others writes first. -/
theorem byteAfter_cons {memory' : Memory} {access : Access} {accesses : List Access} {i : Nat}
    (hsize : memory'.size = memory.size)
    (hbyte : memory'.byteAt i = (access.written? memory.size i).getD (memory.byteAt i)) :
    byteAfter memory (access :: accesses) i = byteAfter memory' accesses i := by
  unfold byteAfter
  rw [List.reverse_cons, List.findSome?_append, List.findSome?_singleton, Option.getD_or, hsize,
    hbyte]

/-- **A run**: each byte is what the last store that reaches it has left. -/
theorem exists_memory_afterAll (hmemory : m.store.memory = some memory)
    (hfloor : Machine.floor s m ≤ m.operands.height) (accesses : List Access) :
    ∃ memory', (afterAll s m accesses).store.memory = some memory' ∧
      Machine.floor s (afterAll s m accesses) ≤ (afterAll s m accesses).operands.height ∧
      memory'.size = memory.size ∧ ∀ i, memory'.byteAt i = byteAfter memory accesses i := by
  induction accesses generalizing m memory with
  | nil => exact ⟨memory, hmemory, hfloor, rfl, fun i => rfl⟩
  | cons access accesses ih =>
    obtain ⟨memory₁, hmemory₁, hfloor₁, hsize₁, hbytes₁⟩ :=
      exists_memory_after hmemory hfloor access
    obtain ⟨memory', hmemory', hfloor', hsize', hbytes'⟩ := ih hmemory₁ hfloor₁
    refine ⟨memory', hmemory', hfloor', hsize'.trans hsize₁, fun i => ?_⟩
    calc memory'.byteAt i = byteAfter memory₁ accesses i := hbytes' i
      _ = byteAfter memory (access :: accesses) i := (byteAfter_cons hsize₁ (hbytes₁ i)).symm

/-- Bytes that all accesses avoid are left alone. -/
theorem byteAfter_of_avoids {accesses : List Access} {address count : Nat}
    (h : ∀ access ∈ accesses, access.Avoids address count) {i : Nat} (hi : i < count) :
    byteAfter memory accesses (address + i) = memory.byteAt (address + i) := by
  have hnone : accesses.reverse.findSome? (written? memory.size (address + i)) = none := by
    rw [List.findSome?_eq_none_iff]
    intro access haccess
    have havoids := h access (List.mem_reverse.mp haccess)
    cases access with
    | load op base offset => rfl
    | store op base offset v =>
      refine if_neg fun hwrites => ?_
      obtain ⟨-, -, hle, hlt⟩ := hwrites
      rcases havoids with havoids | havoids <;> omega
  unfold byteAfter
  rw [hnone, Option.getD_none]

/-- **What a run of accesses leaves to later ones.** -/
structure Agree (s : Setting σ) (m : Machine σ) (memory : Memory) (accesses : List Access)
    (memory' : Memory) : Prop where
  memory_eq : (afterAll s m accesses).store.memory = some memory'
  size_eq : memory'.size = memory.size
  /-- The memory has the bytes that were stored last. -/
  byteAt_eq : ∀ i, memory'.byteAt i = byteAfter memory accesses i
  /-- Whatever access comes next is an access to this memory. -/
  behaves : ∀ access : Access, access.Behaves s (afterAll s m accesses) memory'
  /-- A load of bytes that were not stored to gives what it would have given before. -/
  undisturbed : ∀ op base offset,
    (∀ access ∈ accesses, access.Avoids (base.toNat + offset) op.byteCount) → ∀ v,
      (load op base offset).perform s m = .ok () { m with operands := m.operands.push v } ↔
      (load op base offset).perform s (afterAll s m accesses) = .ok ()
        { afterAll s m accesses with operands := (afterAll s m accesses).operands.push v }
  /-- A load of bytes that have just been stored gives the bits that were stored. -/
  reloaded : ∀ (op : StoreOp) (base : BitVec 32) (offset : Nat) (v : Value) (m' : Machine σ)
    (op' : LoadOp) (base' : BitVec 32) (offset' : Nat), op'.byteCount = op.byteCount →
      base'.toNat + offset' = base.toNat + offset →
      (store op base offset v).perform s (afterAll s m accesses) = .ok () m' →
      ∃ w, op'.Extends (v.bits % 256 ^ op.byteCount) w ∧
        (load op' base' offset').perform s m' = .ok () { m' with operands := m'.operands.push w }

/-- A load whose bytes are all there puts on the stack the value that they spell. -/
theorem Agree.perform_load {accesses : List Access} {memory' : Memory}
    (h : Agree s m memory accesses memory') {op : LoadOp} {base : BitVec 32} {offset : Nat}
    {v : Value} (hfits : base.toNat + offset + op.byteCount ≤ memory'.size)
    (hv : op.Extends (memory'.number (base.toNat + offset) op.byteCount) v) :
    (load op base offset).perform s (afterAll s m accesses) = .ok ()
      { afterAll s m accesses with operands := (afterAll s m accesses).operands.push v } := by
  obtain ⟨w, hw, hperform⟩ := (h.behaves (load op base offset)).1 hfits
  rw [hv.unique hw]
  exact hperform

/-- **Loads and stores agree on one memory of bytes.** The opcodes say how wide they are, of which
type, and whether they have a sign. However the accesses before it went, an access is one to the
memory in which each byte is what the last store that reached it has left. -/
theorem accesses_agree (s : Setting σ) (hmemory : m.store.memory = some memory)
    (hfloor : Machine.floor s m ≤ m.operands.height) (accesses : List Access) :
    AccessOpcodes ∧ ∃ memory', Agree s m memory accesses memory' := by
  obtain ⟨memory', hmemory', hfloor', hsize, hbytes⟩ :=
    exists_memory_afterAll hmemory hfloor accesses
  have hbehaves : ∀ access : Access, access.Behaves s (afterAll s m accesses) memory' :=
    Access.behaves hmemory' hfloor'
  refine ⟨accessOpcodes, memory', hmemory', hsize, hbytes, hbehaves, ?_, ?_⟩
  · intro op base offset havoids v
    have hsame : memory.load op (base.toNat + offset) = memory'.load op (base.toNat + offset) := by
      refine Memory.load_congr op hsize.symm fun i hi => ?_
      calc memory.byteAt (base.toNat + offset + i)
          = byteAfter memory accesses (base.toNat + offset + i) :=
            (byteAfter_of_avoids havoids hi).symm
        _ = memory'.byteAt (base.toNat + offset + i) := (hbytes _).symm
    rw [perform_load_eq_ok_iff hmemory hfloor, perform_load_eq_ok_iff hmemory' hfloor', hsame]
  · intro op base offset v m' op' base' offset' hcount haddress hstore
    obtain ⟨hfits, memory'', hstored, rfl⟩ := exists_stored_of_perform hmemory' hfloor' hstore
    have hfits' : base'.toNat + offset' + op'.byteCount ≤ memory''.size := by
      rw [haddress, hcount, hstored.size_eq]
      exact hfits
    obtain ⟨hload, -⟩ := Access.behaves
      (m := { afterAll s m accesses with
        store := { (afterAll s m accesses).store with memory := some memory'' } })
      (show _ = some memory'' from rfl) hfloor' (load op' base' offset')
    obtain ⟨w, hw, hperform⟩ := hload hfits'
    rw [haddress, hcount, hstored.number_eq] at hw
    exact ⟨w, hw, hperform⟩

end Access

end

/-- A memory of eight bytes. -/
def Memory.eight : Memory where
  bytes := ⟨#[0, 1, 2, 3, 4, 5, 6, 7]⟩
  maxPages := 1

/-- A machine that has this memory and nothing else. -/
def Machine.withEight : Machine Unit where
  store := { memory := some .eight, table := none, globals := #[] }
  operands := .empty
  frames := .empty
  liveLocals := 0
  account := ()

/-- A setting without a program. -/
def Setting.bare : Setting Unit where
  program := { source := {}, signatures := #[], imported := 0, bodies := #[] }
  host := #[]
  pricing := {}
  checkpoint := .unmetered
  floor := 0

/-- Two stores that overlap, and one that is out of bounds because its address does not wrap
around. -/
def Access.overlapping : List Access := [
  .store .i32 2 1 (.i32 0x0D0C0B0A),
  .store .i64Low16 4 0 (.i64 (-1)),
  .store .i32Low8 0xFFFFFFFF 1 (.i32 0)]

/-- What the stores leave, and what loads make of it: with a sign, without one, of fewer bits than
the result has and of as many. -/
theorem Access.withEight_accesses_agree :
    AccessOpcodes ∧ ∃ memory', Agree .bare .withEight .eight overlapping memory' ∧
      (List.range 8).map memory'.byteAt = [0, 1, 2, 0x0A, 0xFF, 0xFF, 0x0D, 7] ∧
      ∀ op base v, (op, base, v) ∈ [
          (LoadOp.i32Signed8, 4, Value.i32 (-1)), (.i32Unsigned8, 4, .i32 0xFF),
          (.i64Signed32, 2, .i64 (-0xF5FE)), (.i64Unsigned32, 2, .i64 0xFFFF0A02),
          (.i32, 3, .i32 0x0DFFFF0A), (.f64, 0, .f64 0x070DFFFF0A020100)] →
        (load op base 0).perform .bare (afterAll .bare .withEight overlapping) = .ok ()
          { afterAll .bare .withEight overlapping with
            operands := (afterAll .bare .withEight overlapping).operands.push v } := by
  have hmemory : Machine.withEight.store.memory = some .eight := rfl
  have hfloor : Machine.withEight.floor .bare ≤ Machine.withEight.operands.height := Nat.le_refl 0
  obtain ⟨hopcodes, memory', h⟩ := accesses_agree .bare hmemory hfloor overlapping
  have hbytes : memory'.byteAt = byteAfter .eight overlapping := funext h.byteAt_eq
  refine ⟨hopcodes, memory', h, ?_, ?_⟩
  · rw [hbytes]
    rfl
  · intro op base v hmem
    simp only [List.mem_cons, Prod.mk.injEq, List.not_mem_nil, or_false] at hmem
    rcases hmem with ⟨rfl, rfl, rfl⟩ | ⟨rfl, rfl, rfl⟩ | ⟨rfl, rfl, rfl⟩ | ⟨rfl, rfl, rfl⟩ |
      ⟨rfl, rfl, rfl⟩ | ⟨rfl, rfl, rfl⟩
    all_goals
      refine h.perform_load (h.size_eq ▸ by decide) ?_
      rw [Memory.number_eq_toNat, hbytes]
      exact ⟨rfl, by decide, by decide⟩

end MeteredSandbox
