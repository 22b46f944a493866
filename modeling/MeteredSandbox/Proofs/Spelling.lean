import Mathlib
import MeteredSandbox.Bytes.Field
import MeteredSandbox.Proofs.Following

/-!
# Bytes that spell a value

A writer turns a value into bytes, and a reader is to get it back out of them. `Reads r bs a` says
that it does: wherever `bs` stand in a byte string, and whatever follows them, the reader `r` takes
exactly these bytes and gives `a`. The one condition is that the offset behind them is a 64-bit
number, which is all that a cursor can count.

Since nothing is assumed of what follows, the property is closed under sequencing
(`Reads.bind`): the bytes of a compound item are those of its parts, one after another. So it is
enough to look at the primitive parts. Here these are the integers of variable length
(`Reads.unsigned`, `Reads.signed`), numbers of fixed width, byte strings and names
(`Reads.name`), and vectors (`Reads.vector`).

An integer is written group by group, and the groups that are read back are those that were
written. That their number is within what a reader looks at is a matter of the width: `k` groups
have room for `7 * k` bits, and for one of them less with a sign.
-/

namespace MeteredSandbox

variable {ε α β : Type}

/-- **Reading.** The reader takes exactly `bs` and gives `a`, whatever follows. -/
def Reads (r : EStateM ε Cursor α) (bs : List UInt8) (a : α) : Prop :=
  ∀ offset rest, offset + bs.length < 0x1_0000_0000_0000_0000 →
    r ⟨offset, bs ++ rest⟩ = .ok a ⟨offset + bs.length, rest⟩

namespace Reads

/-! ### Sequencing -/

theorem pure (a : α) : Reads (pure a : EStateM ε Cursor α) [] a := fun _ _ _ => rfl

theorem bind {r : EStateM ε Cursor α} {k : α → EStateM ε Cursor β} {bs cs : List UInt8} {a : α}
    {b : β} (h : Reads r bs a) (hk : Reads (k a) cs b) : Reads (r >>= k) (bs ++ cs) b := by
  intro offset rest hroom
  rw [List.length_append] at hroom ⊢
  rw [List.append_assoc, bind_of_ok (h offset (cs ++ rest) (by omega)),
    hk (offset + bs.length) rest (by omega), Nat.add_assoc]

/-- A reader whose value is made into another. -/
theorem map {r : EStateM ε Cursor α} {bs : List UInt8} {a : α} (h : Reads r bs a) (f : α → β) :
    Reads (r >>= fun a => Pure.pure (f a)) bs (f a) := by
  have hmap := h.bind (k := fun a => Pure.pure (f a)) (Reads.pure (f a))
  rwa [List.append_nil] at hmap

/-- A reader that looks at its offset first. -/
theorem offset_bind {k : Nat → Reader β} {bs : List UInt8} {b : β} (h : ∀ n, Reads (k n) bs b) :
    Reads (Reader.offset >>= k) bs b := fun offset rest hroom => h offset offset rest hroom

theorem byte (b : UInt8) : Reads Reader.byte [b] b := fun _ _ _ => rfl

/-- A byte and then what depends on it. -/
theorem byte_bind {k : UInt8 → Reader β} {b : UInt8} {bs : List UInt8} {x : β}
    (h : Reads (k b) bs x) : Reads (Reader.byte >>= k) (b :: bs) x := (byte b).bind h

/-- A condition that holds of what has been read. -/
theorem ite {p : Prop} [Decidable p] {r r' : EStateM ε Cursor α} {bs : List UInt8} {a : α}
    (hp : p) (h : Reads r bs a) : Reads (if p then r else r') bs a := by
  rwa [if_pos hp]

/-- A condition that does not hold of what has been read. -/
theorem ite_else {p : Prop} [Decidable p] {r r' : EStateM ε Cursor α} {bs : List UInt8} {a : α}
    (hp : ¬ p) (h : Reads r' bs a) : Reads (if p then r else r') bs a := by
  rwa [if_neg hp]

theorem bytes (bs : List UInt8) : Reads (Reader.bytes bs.length) bs bs := by
  intro offset rest hroom
  have htake : (bs ++ rest).take bs.length = bs := List.take_left
  have hdrop : (bs ++ rest).drop bs.length = rest := List.drop_left
  unfold Reader.bytes
  dsimp only
  rw [if_neg (by omega), htake, if_pos rfl, hdrop]

/-- Items one after another. What is read of each may differ from what was written. -/
theorem times {item : EStateM ReadError Cursor β} {encode : α → List UInt8} {f : α → β}
    {xs : List α} (h : ∀ x ∈ xs, Reads item (encode x) (f x)) :
    Reads (Reader.times item xs.length) (xs.flatMap encode) (xs.map f) := by
  induction xs with
  | nil => exact Reads.pure []
  | cons x xs ih =>
    obtain ⟨hx, hxs⟩ := List.forall_mem_cons.mp h
    rw [List.flatMap_cons, List.map_cons]
    exact hx.bind ((ih hxs).map (f x :: ·))

/-- What is read of bytes on their own. -/
theorem runOn {r : Reader α} {bs : List UInt8} {a : α} (h : Reads r bs a)
    (hroom : bs.length < 0x1_0000_0000_0000_0000) :
    r (.start bs) = .ok a ⟨bs.length, []⟩ := by
  have hread := h 0 [] (by omega)
  rwa [List.append_nil, Nat.zero_add] at hread

end Reads

/-! ### Integers of variable length -/

namespace Leb128

section Groups

variable (limit : Nat) {left : Nat}

/-- The last group of an integer. -/
theorem reads_last_group {g : Nat} (h : g < 128) :
    Reads (groups limit (left + 1)) [UInt8.ofNat g] [g] := by
  have hbyte : (UInt8.ofNat g).toNat = g := by
    rw [UInt8.toNat_ofNat', Nat.mod_eq_of_lt (by omega)]
  refine Reads.byte_bind (.ite (by omega) ?_)
  rw [hbyte]
  exact .pure [g]

/-- A group that others follow. -/
theorem reads_group {g : Nat} (h : g < 128) {bs : List UInt8} {gs : List Nat}
    (hgs : Reads (groups limit left) bs gs) :
    Reads (groups limit (left + 1)) (UInt8.ofNat (g + 128) :: bs) (g :: gs) := by
  have hbyte : (UInt8.ofNat (g + 128)).toNat = g + 128 := by
    rw [UInt8.toNat_ofNat', Nat.mod_eq_of_lt (by omega)]
  refine Reads.byte_bind (.ite_else (by omega) ?_)
  rw [hbyte, Nat.add_sub_cancel]
  exact hgs.map (g :: ·)

/-- The groups of an unsigned integer, if there is room for them. -/
theorem reads_groups_unsigned {n : Nat} (h : n < 128 ^ (left + 1)) :
    ∃ gs, Reads (groups limit (left + 1)) (encodeUnsigned n) gs ∧ unsignedValue gs = n := by
  induction left generalizing n with
  | zero =>
    have hn : n < 128 := by simpa using h
    rw [encodeUnsigned, if_pos hn]
    exact ⟨[n], reads_last_group limit hn, by simp [unsignedValue]⟩
  | succ left ih =>
    rw [encodeUnsigned]
    by_cases hn : n < 128
    · rw [if_pos hn]
      exact ⟨[n], reads_last_group limit hn, by simp [unsignedValue]⟩
    · -- one group is split off, and the others spell the quotient
      have hquotient : n / 128 < 128 ^ (left + 1) := by
        rw [Nat.div_lt_iff_lt_mul (by decide), ← Nat.pow_succ]
        exact h
      obtain ⟨gs, hgs, hvalue⟩ := ih hquotient
      rw [if_neg hn]
      refine ⟨n % 128 :: gs, reads_group limit (Nat.mod_lt n (by decide)) hgs, ?_⟩
      rw [unsignedValue, hvalue]
      omega

/-- A group in front of others adds to them with its weight. -/
theorem signedValue_cons (g : Nat) {gs : List Nat} (h : gs ≠ []) :
    signedValue (g :: gs) = g + 128 * signedValue gs := by
  have hlast : isNegative (g :: gs) = isNegative gs := by
    unfold isNegative
    rw [List.getLast?_cons_of_ne_nil h]
  unfold signedValue
  rw [hlast, unsignedValue, List.length_cons, Nat.pow_eq, Nat.pow_eq, Nat.pow_succ]
  split
  · push_cast
    ring
  · push_cast
    ring

/-- The groups of a signed integer, if there is room for them and the sign. -/
theorem reads_groups_signed {n : Int} (hlow : -(64 * 128 ^ left) ≤ n)
    (hhigh : n < 64 * 128 ^ left) :
    ∃ gs, gs ≠ [] ∧ Reads (groups limit (left + 1)) (encodeSigned n) gs ∧ signedValue gs = n := by
  -- the last group has the sign in its high bit
  have hlast : ∀ m : Int, -64 ≤ m → m < 64 → signedValue [(m % 128).toNat] = m := by
    intro m hlow hhigh
    unfold signedValue isNegative unsignedValue unsignedValue
    rw [List.getLast?_singleton, Option.any_some, List.length_singleton]
    split
    next hneg =>
      have := of_decide_eq_true hneg
      push_cast
      omega
    next hpos =>
      have : ¬ 64 ≤ (m % 128).toNat := fun h => hpos (decide_eq_true h)
      omega
  have hgroup : (n % 128).toNat < 128 := by omega
  induction left generalizing n with
  | zero =>
    have hsmall : -64 ≤ n ∧ n < 64 := by simpa using And.intro hlow hhigh
    rw [encodeSigned, if_pos hsmall]
    exact ⟨[(n % 128).toNat], List.cons_ne_nil _ _, reads_last_group limit hgroup,
      hlast n hsmall.1 hsmall.2⟩
  | succ left ih =>
    rw [encodeSigned]
    by_cases hsmall : -64 ≤ n ∧ n < 64
    · rw [if_pos hsmall]
      exact ⟨[(n % 128).toNat], List.cons_ne_nil _ _, reads_last_group limit hgroup,
        hlast n hsmall.1 hsmall.2⟩
    · have hpow : (64 : Int) * 128 ^ (left + 1) = 64 * 128 ^ left * 128 := by ring
      rw [hpow] at hlow hhigh
      obtain ⟨gs, hne, hgs, hvalue⟩ := ih (n := n / 128) (by omega) (by omega) (by omega)
      rw [if_neg hsmall]
      refine ⟨(n % 128).toNat :: gs, List.cons_ne_nil _ _, reads_group limit hgroup hgs, ?_⟩
      rw [signedValue_cons _ hne, hvalue]
      omega

end Groups

/-- A reader looks at enough groups for all the bits of its width. -/
theorem le_maxLength (bits : Nat) : bits ≤ 7 * maxLength bits := by
  unfold maxLength
  omega

/-- A reader looks at one group at least. -/
theorem exists_maxLength {bits : Nat} (h : 0 < bits) : ∃ left, maxLength bits = left + 1 := by
  refine ⟨maxLength bits - 1, ?_⟩
  unfold maxLength
  omega

end Leb128

namespace Reads

open Leb128

/-- **Unsigned integers** that fit into the width are read back. -/
theorem unsigned {bits n : Nat} (h : n < Nat.pow 2 bits) (hbits : 0 < bits) :
    Reads (Leb128.unsigned bits) (encodeUnsigned n) n := by
  obtain ⟨left, hleft⟩ := exists_maxLength hbits
  have hroom : n < 128 ^ (left + 1) :=
    calc n < 2 ^ bits := h
      _ ≤ 2 ^ (7 * (left + 1)) := Nat.pow_le_pow_right (by decide) (hleft ▸ le_maxLength bits)
      _ = 128 ^ (left + 1) := by rw [Nat.pow_mul]
  obtain ⟨gs, hgs, hvalue⟩ := reads_groups_unsigned (maxLength bits) hroom
  rw [← hleft] at hgs
  have hread := hgs.bind (k := fun gs => if unsignedValue gs < Nat.pow 2 bits then
    Pure.pure (unsignedValue gs) else overflow bits) (.ite (hvalue.symm ▸ h) (.pure _))
  rw [List.append_nil, hvalue] at hread
  exact hread

/-- **Signed integers** that fit into the width are read back. -/
theorem signed {bits : Nat} {n : Int} (hlow : -(Nat.pow 2 (bits - 1) : Int) ≤ n)
    (hhigh : n < Nat.pow 2 (bits - 1)) (hbits : 0 < bits) :
    Reads (Leb128.signed bits) (encodeSigned n) n := by
  obtain ⟨left, hleft⟩ := exists_maxLength hbits
  -- the sign takes one bit of the last group
  have hroom : ((Nat.pow 2 (bits - 1) : Nat) : Int) ≤ 64 * 128 ^ left := by
    have hle := le_maxLength bits
    have hnat : Nat.pow 2 (bits - 1) ≤ 64 * 128 ^ left :=
      calc Nat.pow 2 (bits - 1)
          ≤ 2 ^ (7 * left + 6) := Nat.pow_le_pow_right (by decide) (by omega)
        _ = 64 * 128 ^ left := by rw [Nat.pow_add, Nat.pow_mul, Nat.mul_comm]
    exact_mod_cast hnat
  obtain ⟨gs, -, hgs, hvalue⟩ := reads_groups_signed (maxLength bits)
    (show -(64 * 128 ^ left) ≤ n by omega) (by omega)
  rw [← hleft] at hgs
  have hread := hgs.bind (k := fun gs => if -(Nat.pow 2 (bits - 1) : Int) ≤ signedValue gs ∧
    signedValue gs < Nat.pow 2 (bits - 1) then Pure.pure (signedValue gs) else overflow bits)
    (.ite (hvalue.symm ▸ ⟨hlow, hhigh⟩) (.pure _))
  rw [List.append_nil, hvalue] at hread
  exact hread

/-! ### Fields -/

/-- An index, a count or a length. -/
theorem index {n : Nat} (h : n < 0x1_0000_0000) : Reads Reader.index (encodeUnsigned n) n :=
  unsigned h (by decide)

/-- A number of fixed width. -/
theorem littleEndian {count n : Nat} (h : n < Nat.pow 256 count) :
    Reads (Reader.littleEndian count) (LittleEndian.ofNat count n) n := by
  have hread := (bytes (LittleEndian.ofNat count n)).map LittleEndian.toNat
  rw [LittleEndian.length_ofNat, LittleEndian.toNat_ofNat, Nat.mod_eq_of_lt h] at hread
  exact hread

/-- A byte string with its length in front. -/
theorem lengthPrefixed {bs : List UInt8} (h : bs.length < 0x1_0000_0000) :
    Reads Reader.lengthPrefixed (encodeUnsigned bs.length ++ bs) bs := (index h).bind (bytes bs)

/-- A **vector** with its count in front. What is read of an item may differ from what was
written. -/
theorem vector {item : Reader β} {encode : α → List UInt8} {f : α → β} {xs : List α}
    (hcount : xs.length < 0x1_0000_0000) (h : ∀ x ∈ xs, Reads item (encode x) (f x)) :
    Reads (Reader.vector item) (encodeUnsigned xs.length ++ xs.flatMap encode) (xs.map f) :=
  (index hcount).bind (times h)

private theorem toList_loop (bs : ByteArray) (i : Nat) (acc : List UInt8) :
    ByteArray.toList.loop bs i acc = acc.reverse ++ bs.data.toList.drop i := by
  induction hn : bs.size - i generalizing i acc with
  | zero =>
    have hle : bs.size ≤ i := Nat.le_of_sub_eq_zero hn
    rw [ByteArray.toList.loop, if_neg (Nat.not_lt.mpr hle), List.drop_eq_nil_of_le hle,
      List.append_nil]
  | succ n ih =>
    have hlt : i < bs.size := Nat.lt_of_sub_eq_succ hn
    have hget : bs.get! i = bs.data.toList[i] := getElem!_pos bs.data i hlt
    rw [ByteArray.toList.loop, if_pos hlt, ih (i + 1) _ (by omega), hget, List.reverse_cons,
      List.append_assoc, List.singleton_append, ← List.drop_eq_getElem_cons hlt]

/-- The bytes of a byte array, put into an array again. -/
theorem toByteArray_toList (bs : ByteArray) : bs.toList.toByteArray = bs := by
  have hlist : bs.toList = bs.data.toList := by
    unfold ByteArray.toList
    rw [toList_loop]
    rfl
  apply ByteArray.ext
  rw [hlist, List.data_toByteArray, Array.toArray_toList]

/-- The bytes of a text are UTF-8, and spell the text. -/
theorem nameOfBytes (start : Nat) (name : String) :
    Reads (Reader.nameOfBytes start name.toUTF8.toList) [] name := by
  have htext : String.fromUTF8? name.toUTF8 = some name := by
    unfold String.fromUTF8?
    exact dif_pos name.isValidUTF8
  unfold Reader.nameOfBytes
  rw [toByteArray_toList, htext]
  exact .pure name

/-- **Names** are read back. -/
theorem name {name : String} (h : name.toUTF8.toList.length < 0x1_0000_0000) :
    Reads Reader.name (encodeUnsigned name.toUTF8.toList.length ++ name.toUTF8.toList) name := by
  refine .offset_bind fun start => ?_
  have hread := (lengthPrefixed h).bind (nameOfBytes start name)
  rwa [List.append_nil] at hread

end Reads

end MeteredSandbox
