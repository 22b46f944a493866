import MeteredSandbox.Code.Opcode
import MeteredSandbox.Proofs.Spelling

/-!
# Integers of variable length, byte by byte

What a reader of integers does is said here from the bytes in front of the cursor. An integer ends
at the first byte whose top bit is clear (`Leb128.EndsAt`). If that is among the first `⌈bits / 7⌉`
bytes, the reader takes the bytes up to it and nothing else, and its value is the sum of their low
seven bits, each with its weight (`Leb128.unsignedSum`), which has to be in range. If it is not, the
reader stops behind the last byte that it may look at, or at the end of the input.
`Leb128.ReadsIntegers` is that law. One of its clauses applies at every cursor (`Leb128.endsAt_or`),
so there is at most one reader that obeys it (`Leb128.ReadsIntegers.unique`).

The readers of the library collect the groups and add them up as unbounded numbers. A loop that
keeps a word of 128 bits, puts each group into its place with a shift, and fills up the sign with
another, obeys the same law (`Leb128.accumulate`), because nothing is ever shifted out and no two
parts of the word overlap: shifts are multiplications and unions are sums (`Accumulator.Exact`).

Both are runs of one loop over bytes (`Leb128.loop`), and what is common to them is shown of it.
-/

namespace MeteredSandbox

namespace Cursor

/-- The cursor `n` bytes further on. -/
def advance (c : Cursor) (n : Nat) : Cursor := ⟨c.offset + n, c.rest.drop n⟩

theorem advance_cons (offset : Nat) (b : UInt8) (rest : List UInt8) (n : Nat) :
    advance ⟨offset, b :: rest⟩ (n + 1) = advance ⟨offset + 1, rest⟩ n := by
  unfold advance
  rw [List.drop_succ_cons, Nat.add_right_comm, Nat.add_assoc]

end Cursor

namespace Leb128

variable {σ α : Type}

/-! ### Where an integer ends -/

/-- Another byte of the same integer follows: the top bit is set. -/
def GoesOn (b : UInt8) : Prop := b.toNat.testBit 7 = true

/-- The low seven bits of a byte. -/
def group (b : UInt8) : Nat := b.toNat % 128

theorem goesOn_iff {b : UInt8} : GoesOn b ↔ 128 ≤ b.toNat := by
  have hlt : b.toNat < 256 := b.toNat_lt
  unfold GoesOn
  rw [Nat.testBit_eq_decide_div_mod_eq, decide_eq_true_iff]
  omega

instance (b : UInt8) : Decidable (GoesOn b) := decidable_of_iff _ goesOn_iff.symm

theorem group_lt (b : UInt8) : group b < 2 ^ 7 := Nat.mod_lt _ (by decide)

/-- **Where an integer ends.** The first byte whose top bit is clear stands at position `k`. -/
structure EndsAt (bs : List UInt8) (k : Nat) : Prop where
  last : ∃ b, bs[k]? = some b ∧ ¬ GoesOn b
  before : ∀ i < k, ∀ b, bs[i]? = some b → GoesOn b

theorem not_endsAt_nil {k : Nat} : ¬ EndsAt [] k := by
  rintro ⟨⟨b, hb, -⟩, -⟩
  cases hb

theorem endsAt_cons_zero {b : UInt8} {bs : List UInt8} : EndsAt (b :: bs) 0 ↔ ¬ GoesOn b := by
  constructor
  · rintro ⟨⟨b', hb', hlast⟩, -⟩
    cases hb'
    exact hlast
  · intro hlast
    exact ⟨⟨b, rfl, hlast⟩, fun i hi => absurd hi (Nat.not_lt_zero i)⟩

theorem endsAt_cons_succ {b : UInt8} {bs : List UInt8} {k : Nat} :
    EndsAt (b :: bs) (k + 1) ↔ GoesOn b ∧ EndsAt bs k := by
  constructor
  · rintro ⟨hlast, hbefore⟩
    refine ⟨hbefore 0 (Nat.succ_pos k) b rfl, hlast, fun i hi => ?_⟩
    exact hbefore (i + 1) (Nat.succ_lt_succ hi)
  · rintro ⟨hb, hlast, hbefore⟩
    refine ⟨hlast, fun i hi => ?_⟩
    cases i with
    | zero =>
      intro b' hb'
      cases hb'
      exact hb
    | succ i => exact hbefore i (Nat.lt_of_succ_lt_succ hi)

/-- One of three things is in front: an integer of at most `limit` bytes, so many bytes without an
end, or the end of the input. -/
theorem endsAt_or (bs : List UInt8) (limit : Nat) :
    (∃ k < limit, EndsAt bs k) ∨ (limit ≤ bs.length ∧ ∀ b ∈ bs.take limit, GoesOn b) ∨
      (bs.length < limit ∧ ∀ b ∈ bs, GoesOn b) := by
  induction limit generalizing bs with
  | zero => exact .inr (.inl ⟨Nat.zero_le _, by simp⟩)
  | succ limit ih =>
    cases bs with
    | nil => exact .inr (.inr ⟨Nat.succ_pos limit, by simp⟩)
    | cons b bs =>
      by_cases hb : GoesOn b
      · -- the integer is longer than one byte, so the question is put to the bytes behind
        rcases ih bs with ⟨k, hk, h⟩ | ⟨hlength, h⟩ | ⟨hlength, h⟩
        · exact .inl ⟨k + 1, Nat.succ_lt_succ hk, endsAt_cons_succ.mpr ⟨hb, h⟩⟩
        · refine .inr (.inl ⟨Nat.succ_le_succ hlength, ?_⟩)
          rw [List.take_succ_cons]
          exact List.forall_mem_cons.mpr ⟨hb, h⟩
        · exact .inr (.inr ⟨Nat.succ_lt_succ hlength, List.forall_mem_cons.mpr ⟨hb, h⟩⟩)
      · exact .inl ⟨0, Nat.succ_pos limit, endsAt_cons_zero.mpr hb⟩

/-! ### The loop over bytes -/

/-- A loop that keeps a state, looks at `left` more bytes of an integer, and finishes with the byte
that ends it. -/
def loop (limit : Nat) (next : σ → UInt8 → σ) (finish : σ → UInt8 → Reader α) :
    (left : Nat) → σ → Reader α
  | 0, _ => fun c => .error (.integerTooLong limit c.offset) c
  | left + 1, s => do
    let b ← Reader.byte
    if b &&& 0x80 = 0 then finish (next s b) b else loop limit next finish left (next s b)

/-- Masking the top bit tells whether it is set. -/
theorem and_top_eq_zero_iff (b : UInt8) : b &&& 0x80 = 0 ↔ ¬ GoesOn b := by
  have hmask : (b &&& 0x80).toNat = (b.toNat.testBit 7).toNat * 2 ^ 7 :=
    (UInt8.toNat_and b 0x80).trans (Nat.and_two_pow b.toNat 7)
  rw [← UInt8.toNat_inj, hmask]
  unfold GoesOn
  cases b.toNat.testBit 7 with
  | false => exact iff_of_true rfl Bool.false_ne_true
  | true => exact iff_of_false (by decide) (not_not_intro rfl)

section Loop

variable (limit : Nat) (next : σ → UInt8 → σ) (finish : σ → UInt8 → Reader α) {left : Nat} (s : σ)

/-- One turn of the loop. -/
theorem loop_cons (offset : Nat) (b : UInt8) (rest : List UInt8) :
    loop limit next finish (left + 1) s ⟨offset, b :: rest⟩ =
      if GoesOn b then loop limit next finish left (next s b) ⟨offset + 1, rest⟩
      else finish (next s b) b ⟨offset + 1, rest⟩ := by
  have hbyte : Reader.byte ⟨offset, b :: rest⟩ = .ok b ⟨offset + 1, rest⟩ := rfl
  rw [loop, bind_of_ok hbyte]
  by_cases hb : GoesOn b
  · rw [if_pos hb, if_neg (mt (and_top_eq_zero_iff b).mp (not_not_intro hb))]
  · rw [if_neg hb, if_pos ((and_top_eq_zero_iff b).mpr hb)]

variable {c : Cursor}

/-- An integer that ends in time: all of its bytes have been put into the state. -/
theorem loop_of_endsAt {k : Nat} {b : UInt8} (h : EndsAt c.rest k) (hb : c.rest[k]? = some b)
    (hk : k < left) : loop limit next finish left s c
      = finish ((c.rest.take (k + 1)).foldl next s) b (c.advance (k + 1)) := by
  induction left generalizing c k s with
  | zero => exact absurd hk (Nat.not_lt_zero k)
  | succ left ih =>
    obtain ⟨offset, rest⟩ := c
    cases rest with
    | nil => exact absurd h not_endsAt_nil
    | cons b' rest =>
      cases k with
      | zero =>
        cases hb
        rw [loop_cons, if_neg (endsAt_cons_zero.mp h), Cursor.advance_cons]
        rfl
      | succ k =>
        -- the first byte goes on, so it is in the state when the others are looked at
        obtain ⟨hb', hrest⟩ := endsAt_cons_succ.mp h
        rw [loop_cons, if_pos hb', Cursor.advance_cons]
        exact ih (next s b') (c := ⟨offset + 1, rest⟩) hrest hb (Nat.lt_of_succ_lt_succ hk)

/-- An integer that goes on after the last byte that is looked at. -/
theorem loop_of_tooLong (hlength : left ≤ c.rest.length) (h : ∀ b ∈ c.rest.take left, GoesOn b) :
    loop limit next finish left s c
      = .error (.integerTooLong limit (c.offset + left)) (c.advance left) := by
  induction left generalizing c s with
  | zero => rfl
  | succ left ih =>
    obtain ⟨offset, rest⟩ := c
    cases rest with
    | nil => exact absurd hlength (Nat.not_succ_le_zero left)
    | cons b rest =>
      rw [List.take_succ_cons] at h
      obtain ⟨hb, hrest⟩ := List.forall_mem_cons.mp h
      rw [loop_cons, if_pos hb, Cursor.advance_cons,
        ih (next s b) (c := ⟨offset + 1, rest⟩) (Nat.le_of_succ_le_succ hlength) hrest,
        Nat.add_right_comm, Nat.add_assoc]

/-- An integer that is cut off by the end of the input. -/
theorem loop_of_ended (hlength : c.rest.length < left) (h : ∀ b ∈ c.rest, GoesOn b) :
    loop limit next finish left s c
      = .error (.unexpectedEnd (c.offset + c.rest.length)) (c.advance c.rest.length) := by
  induction left generalizing c s with
  | zero => exact absurd hlength (Nat.not_lt_zero _)
  | succ left ih =>
    obtain ⟨offset, rest⟩ := c
    cases rest with
    | nil => rfl
    | cons b rest =>
      obtain ⟨hb, hrest⟩ := List.forall_mem_cons.mp h
      rw [loop_cons, if_pos hb, List.length_cons, Cursor.advance_cons,
        ih (next s b) (c := ⟨offset + 1, rest⟩) (Nat.lt_of_succ_lt_succ hlength) hrest,
        Nat.add_right_comm, Nat.add_assoc]

/-- What is done with the result of a loop can be done when it finishes. -/
theorem loop_bind {β : Type} (k : α → Reader β) :
    (loop limit next finish left s >>= k)
      = loop limit next (fun s b => finish s b >>= k) left s := by
  induction left generalizing s with
  | zero => rfl
  | succ left ih =>
    rw [loop, loop, bind_assoc]
    refine bind_congr fun b => ?_
    split
    · rfl
    · exact ih (next s b)

end Loop

/-- The groups are read by a loop that puts each behind those before it. By induction on the bytes
that are left, for a loop that has some groups already. -/
theorem loop_groups (limit left : Nat) (gs : List Nat) :
    loop limit (fun gs b => gs ++ [group b]) (fun gs _ => pure gs) left gs
      = (groups limit left >>= fun more => pure (gs ++ more)) := by
  induction left generalizing gs with
  | zero => rfl
  | succ left ih =>
    funext ⟨offset, rest⟩
    cases rest with
    | nil => rfl
    | cons b rest =>
      have hlt : b.toNat < 256 := b.toNat_lt
      have hbyte : Reader.byte ⟨offset, b :: rest⟩ = .ok b ⟨offset + 1, rest⟩ := rfl
      rw [loop_cons, groups, bind_assoc, bind_of_ok hbyte]
      -- taking the top bit off and taking the remainder are the same for a byte that has it set
      by_cases hb : GoesOn b
      · have htop := goesOn_iff.mp hb
        have hgroup : group b = b.toNat - 128 := by
          unfold group
          omega
        rw [if_pos hb, if_neg (by omega), ih, bind_assoc, hgroup]
        simp only [pure_bind, List.append_assoc, List.singleton_append]
      · have htop := mt goesOn_iff.mpr hb
        have hgroup : group b = b.toNat := Nat.mod_eq_of_lt (by omega)
        rw [if_neg hb, if_pos (by omega), hgroup]
        rfl

theorem groups_eq_loop (limit left : Nat) :
    groups limit left = loop limit (fun gs b => gs ++ [group b]) (fun gs _ => pure gs) left [] := by
  rw [loop_groups]
  simp

theorem foldl_concat_group (gs : List Nat) (bs : List UInt8) :
    bs.foldl (fun gs b => gs ++ [group b]) gs = gs ++ bs.map group := by
  induction bs generalizing gs with
  | nil => exact (List.append_nil gs).symm
  | cons b bs ih =>
    rw [List.foldl_cons, ih, List.map_cons, List.append_assoc, List.singleton_append]

/-! ### Values -/

/-- The low seven bits of the bytes, those of byte `i` with the weight `2 ^ (7 * i)`. -/
def unsignedSum (bs : List UInt8) : Nat := ∑ i : Fin bs.length, bs[i].toNat % 128 * 2 ^ (7 * i.val)

/-- The same sum, less the weight that one more byte would have if bit 6 of the last byte is set. -/
def signedSum (bs : List UInt8) : Int :=
  if bs.getLast?.any (·.toNat.testBit 6) then (unsignedSum bs : Int) - 2 ^ (7 * bs.length)
  else unsignedSum bs

/-- The groups of some bytes have the value of the bytes. -/
theorem unsignedValue_map_group (bs : List UInt8) :
    unsignedValue (bs.map group) = unsignedSum bs := by
  induction bs with
  | nil => rfl
  | cons b bs ih =>
    -- behind a first byte every weight is 128 times what it was
    have hcons : unsignedSum (b :: bs) = group b * 2 ^ (7 * 0)
        + ∑ i : Fin bs.length, bs[i].toNat % 128 * 2 ^ (7 * (i.val + 1)) :=
      Fin.sum_univ_succ fun i : Fin (bs.length + 1) => (b :: bs)[i].toNat % 128 * 2 ^ (7 * i.val)
    calc unsignedValue ((b :: bs).map group)
        = group b + 128 * ∑ i : Fin bs.length, bs[i].toNat % 128 * 2 ^ (7 * i.val) := by
          rw [List.map_cons, unsignedValue, ih, unsignedSum]
      _ = group b * 2 ^ (7 * 0)
            + ∑ i : Fin bs.length, bs[i].toNat % 128 * 2 ^ (7 * (i.val + 1)) := by
          rw [Finset.mul_sum, Nat.mul_zero, Nat.pow_zero, Nat.mul_one]
          refine congrArg _ (Finset.sum_congr rfl fun i _ => ?_)
          ring
      _ = unsignedSum (b :: bs) := hcons.symm

/-- Bit 6 is the high bit of the group. -/
theorem testBit_six_iff (b : UInt8) : b.toNat.testBit 6 = true ↔ 64 ≤ group b := by
  unfold group
  rw [Nat.testBit_eq_decide_div_mod_eq, decide_eq_true_iff]
  omega

theorem signedValue_map_group (bs : List UInt8) : signedValue (bs.map group) = signedSum bs := by
  have hsign : isNegative (bs.map group) = bs.getLast?.any (·.toNat.testBit 6) := by
    unfold isNegative
    rw [List.getLast?_map]
    cases bs.getLast? with
    | none => rfl
    | some b =>
      rw [Bool.eq_iff_iff]
      simp [testBit_six_iff]
  have hweight : Nat.pow 128 bs.length = 2 ^ (7 * bs.length) := (Nat.pow_mul 2 7 bs.length).symm
  unfold signedValue signedSum
  rw [hsign, unsignedValue_map_group, List.length_map, hweight]
  push_cast
  rfl

/-- Another byte adds its low seven bits with the next weight. -/
theorem unsignedSum_concat (bs : List UInt8) (b : UInt8) :
    unsignedSum (bs ++ [b]) = unsignedSum bs + group b * 2 ^ (7 * bs.length) := by
  have hvalue : ∀ gs g, unsignedValue (gs ++ [g]) = unsignedValue gs + g * 2 ^ (7 * gs.length) := by
    intro gs g
    induction gs with
    | nil => simp [unsignedValue]
    | cons g' gs ih =>
      rw [List.cons_append, unsignedValue, unsignedValue, ih, List.length_cons]
      ring
  rw [← unsignedValue_map_group, ← unsignedValue_map_group, List.map_append, List.map_singleton,
    hvalue, List.length_map]

/-! ### The law of a reader -/

/-- **The law of a reader** of integers of `bits` bits. It looks at `⌈bits / 7⌉` bytes at most. -/
structure ReadsIntegers (bits : Nat) (value : List UInt8 → α) (InRange : α → Prop)
    (r : Reader α) : Prop where
  /-- The bytes up to the first whose top bit is clear are taken, and their value is returned. -/
  inRange : ∀ c k, k < maxLength bits → EndsAt c.rest k → InRange (value (c.rest.take (k + 1))) →
    r c = .ok (value (c.rest.take (k + 1))) (c.advance (k + 1))
  /-- A value out of range is an error, behind the same bytes. -/
  outOfRange : ∀ c k, k < maxLength bits → EndsAt c.rest k →
    ¬ InRange (value (c.rest.take (k + 1))) →
    r c = .error (.integerOverflow bits (c.offset + (k + 1))) (c.advance (k + 1))
  /-- All bytes that may be looked at have the top bit set. -/
  tooLong : ∀ c, maxLength bits ≤ c.rest.length → (∀ b ∈ c.rest.take (maxLength bits), GoesOn b) →
    r c = .error (.integerTooLong (maxLength bits) (c.offset + maxLength bits))
      (c.advance (maxLength bits))
  /-- The input ends first. -/
  ended : ∀ c, c.rest.length < maxLength bits → (∀ b ∈ c.rest, GoesOn b) →
    r c = .error (.unexpectedEnd (c.offset + c.rest.length)) (c.advance c.rest.length)

namespace ReadsIntegers

variable {bits : Nat} {value : List UInt8 → α} {P : α → Prop}

/-- The law says what a reader does at every cursor. -/
theorem unique {r r' : Reader α} (h : ReadsIntegers bits value P r)
    (h' : ReadsIntegers bits value P r') : r = r' := by
  funext c
  rcases endsAt_or c.rest (maxLength bits) with ⟨k, hk, hends⟩ | ⟨hlength, hall⟩ | ⟨hlength, hall⟩
  · by_cases hrange : P (value (c.rest.take (k + 1)))
    · rw [h.inRange c k hk hends hrange, h'.inRange c k hk hends hrange]
    · rw [h.outOfRange c k hk hends hrange, h'.outOfRange c k hk hends hrange]
  · rw [h.tooLong c hlength hall, h'.tooLong c hlength hall]
  · rw [h.ended c hlength hall, h'.ended c hlength hall]

variable [DecidablePred P]

/-- A loop obeys the law if it finishes with the value of the bytes, or refuses it. -/
theorem of_loop {next : σ → UInt8 → σ} {finish : σ → UInt8 → Reader α} {s : σ}
    (hfinish : ∀ bs b, bs.length < maxLength bits → finish ((bs ++ [b]).foldl next s) b
      = if P (value (bs ++ [b])) then pure (value (bs ++ [b])) else overflow bits) :
    ReadsIntegers bits value P (loop (maxLength bits) next finish (maxLength bits) s) := by
  have hends : ∀ c k, k < maxLength bits → EndsAt c.rest k →
      loop (maxLength bits) next finish (maxLength bits) s c
        = (if P (value (c.rest.take (k + 1))) then pure (value (c.rest.take (k + 1)))
            else overflow bits : Reader α) (c.advance (k + 1)) := by
    intro c k hk hends
    obtain ⟨b, hb, -⟩ := hends.last
    have htake : c.rest.take (k + 1) = c.rest.take k ++ [b] := by
      rw [List.take_add_one, hb, Option.toList_some]
    rw [loop_of_endsAt _ _ _ _ hends hb hk, htake,
      hfinish _ b ((List.length_take_le k c.rest).trans_lt hk)]
  constructor
  · intro c k hk hat hrange
    rw [hends c k hk hat, if_pos hrange]
    rfl
  · intro c k hk hat hrange
    rw [hends c k hk hat, if_neg hrange]
    rfl
  · intro c hlength hall
    exact loop_of_tooLong _ _ _ _ hlength hall
  · intro c hlength hall
    exact loop_of_ended _ _ _ _ hlength hall

/-- A reader obeys the law if it makes the value of the groups and looks at it afterwards. -/
theorem of_groups {of : List Nat → α} (h : ∀ bs, of (bs.map group) = value bs) :
    ReadsIntegers bits value P (groups (maxLength bits) (maxLength bits) >>= fun gs =>
      if P (of gs) then pure (of gs) else overflow bits) := by
  rw [groups_eq_loop, loop_bind]
  refine of_loop fun bs b _ => ?_
  rw [foldl_concat_group, List.nil_append, ← h]
  rfl

end ReadsIntegers

theorem unsigned_readsIntegers (bits : Nat) :
    ReadsIntegers bits unsignedSum (fun v => v < 2 ^ bits) (unsigned bits) :=
  ReadsIntegers.of_groups (P := fun v => v < 2 ^ bits) unsignedValue_map_group

theorem signed_readsIntegers (bits : Nat) :
    ReadsIntegers bits signedSum (fun v => -2 ^ (bits - 1) ≤ v ∧ v < 2 ^ (bits - 1))
      (signed bits) := by
  have hpow : ((Nat.pow 2 (bits - 1) : Nat) : Int) = 2 ^ (bits - 1) := by
    rw [Nat.pow_eq]
    push_cast
    rfl
  unfold signed
  rw [hpow]
  exact ReadsIntegers.of_groups (P := fun v : Int => -2 ^ (bits - 1) ≤ v ∧ v < 2 ^ (bits - 1))
    signedValue_map_group

/-! ### A word of 128 bits -/

/-- **The accumulator**: a word of 128 bits, and how many bytes have been put into it. -/
structure Accumulator where
  word : BitVec 128
  count : Nat

namespace Accumulator

/-- Nothing has been put in. -/
def empty : Accumulator := ⟨0, 0⟩

/-- The low seven bits of a byte, shifted to their place. -/
def part (a : Accumulator) (b : UInt8) : BitVec 128 :=
  (b &&& 0x7F).toBitVec.setWidth 128 <<< (7 * a.count)

/-- One more byte is put in. -/
def add (a : Accumulator) (b : UInt8) : Accumulator := ⟨a.word ||| a.part b, a.count + 1⟩

/-- Ones above all that has been put in. -/
def sign (a : Accumulator) : BitVec 128 := (-1 : BitVec 128) <<< (7 * a.count)

/-- What is accumulated of some bytes. -/
def ofBytes (bs : List UInt8) : Accumulator := bs.foldl add empty

theorem ofBytes_concat (bs : List UInt8) (b : UInt8) :
    ofBytes (bs ++ [b]) = (ofBytes bs).add b := List.foldl_concat ..

@[simp] theorem count_add (a : Accumulator) (b : UInt8) : (a.add b).count = a.count + 1 := rfl

@[simp] theorem count_ofBytes (bs : List UInt8) : (ofBytes bs).count = bs.length := by
  induction bs using List.reverseRecOn with
  | nil => rfl
  | append_singleton bs b ih => simp [ofBytes_concat, ih]

/-- **Nothing is lost** when another byte is put in and its sign filled up: shifts are products,
unions are sums, and the word stays below its highest bit, so that with and without a sign it is the
same number. -/
structure Exact (a : Accumulator) (b : UInt8) : Prop where
  amount : 7 * (a.count + 1) < 128
  part : (a.part b).toNat = b.toNat % 128 * 2 ^ (7 * a.count)
  word : (a.add b).word.toNat = a.word.toNat + (a.part b).toNat
  small : (a.add b).word.toNat < 2 ^ 127
  sign : (a.add b).sign.toInt = -2 ^ (7 * (a.count + 1))
  signed : ((a.add b).word ||| (a.add b).sign).toInt = (a.add b).word.toInt + (a.add b).sign.toInt

section Parts

variable {a : Accumulator} {b : UInt8}

theorem toNat_low (b : UInt8) : ((b &&& 0x7F).toBitVec.setWidth 128).toNat = group b := by
  have hmask : b.toNat &&& 127 = group b := Nat.and_two_pow_sub_one_eq_mod b.toNat 7
  have hlow : (b &&& 0x7F).toBitVec.toNat = group b := (UInt8.toNat_and b 0x7F).trans hmask
  have hlt := group_lt b
  rw [BitVec.toNat_setWidth, hlow, Nat.mod_eq_of_lt (by omega)]

theorem toNat_part (hroom : 7 * (a.count + 1) < 128) :
    (a.part b).toNat = group b * 2 ^ (7 * a.count) := by
  -- nothing is shifted out at the top
  have hfits : group b * 2 ^ (7 * a.count) < 2 ^ 128 :=
    calc group b * 2 ^ (7 * a.count)
        < 2 ^ 7 * 2 ^ (7 * a.count) := Nat.mul_lt_mul_of_pos_right (group_lt b) (Nat.two_pow_pos _)
      _ = 2 ^ (7 * (a.count + 1)) := by ring
      _ ≤ 2 ^ 128 := Nat.pow_le_pow_right (by decide) hroom.le
  unfold part
  rw [BitVec.toNat_shiftLeft, toNat_low, Nat.shiftLeft_eq, Nat.mod_eq_of_lt hfits]

section

variable (hlow : a.word.toNat < 2 ^ (7 * a.count))
include hlow

/-- The part of a byte lies above all that has been put in. -/
theorem toNat_word_add (hroom : 7 * (a.count + 1) < 128) :
    (a.add b).word.toNat = a.word.toNat + (a.part b).toNat := by
  -- bits that do not overlap are united as they are added
  show (a.word ||| a.part b).toNat = a.word.toNat + (a.part b).toNat
  rw [BitVec.toNat_or, toNat_part hroom, Nat.or_comm, Nat.mul_comm,
    ← Nat.two_pow_add_eq_or_of_lt hlow, Nat.add_comm]

theorem toNat_word_add_lt (hroom : 7 * (a.count + 1) < 128) :
    (a.add b).word.toNat < 2 ^ (7 * (a.add b).count) :=
  calc (a.add b).word.toNat
      = a.word.toNat + group b * 2 ^ (7 * a.count) := by
        rw [toNat_word_add hlow hroom, toNat_part hroom]
    _ < 2 ^ (7 * a.count) + group b * 2 ^ (7 * a.count) := Nat.add_lt_add_right hlow _
    _ = (group b + 1) * 2 ^ (7 * a.count) := by ring
    _ ≤ 2 ^ 7 * 2 ^ (7 * a.count) := Nat.mul_le_mul_right _ (group_lt b)
    _ = 2 ^ (7 * (a.count + 1)) := by ring

end

theorem two_pow_mul_two_pow_sub {n : Nat} (h : n < 128) : 2 ^ n * 2 ^ (128 - n) = 2 ^ 128 := by
  rw [← Nat.pow_add, Nat.add_sub_cancel' h.le]

/-- Of the ones those are left that are not shifted out at the top. -/
theorem toNat_sign (hroom : 7 * a.count < 128) :
    a.sign.toNat = 2 ^ (7 * a.count) * (2 ^ (128 - 7 * a.count) - 1) := by
  have hpos : 0 < 2 ^ (7 * a.count) := Nat.two_pow_pos _
  have hle : 2 ^ (7 * a.count) ≤ 2 ^ 128 := Nat.pow_le_pow_right (by decide) hroom.le
  have hones : (-1 : BitVec 128).toNat = 2 ^ 128 - 1 := rfl
  -- the shifted ones, written as what stays and a multiple of the modulus
  have hwrap : (2 ^ 128 - 1) * 2 ^ (7 * a.count)
      = (2 ^ 128 - 2 ^ (7 * a.count)) + 2 ^ 128 * (2 ^ (7 * a.count) - 1) := by
    rw [Nat.sub_mul, Nat.mul_sub, Nat.one_mul, Nat.mul_one]
    have := Nat.mul_le_mul_left (2 ^ 128) hpos
    omega
  unfold sign
  rw [BitVec.toNat_shiftLeft, Nat.shiftLeft_eq, hones, hwrap, Nat.add_mul_mod_self_left,
    Nat.mod_eq_of_lt (by omega), Nat.mul_sub, Nat.mul_one, two_pow_mul_two_pow_sub hroom]

/-- With the sign filled up the word is less by the weight of one more byte. -/
theorem toInt_or_sign (hlow : a.word.toNat < 2 ^ (7 * a.count)) (hroom : 7 * a.count < 127) :
    (a.word ||| a.sign).toInt = a.word.toNat - 2 ^ (7 * a.count) := by
  have hle : 2 ^ (7 * a.count) ≤ 2 ^ 126 := Nat.pow_le_pow_right (by decide) (by omega)
  have hor : (a.word ||| a.sign).toNat = 2 ^ 128 - 2 ^ (7 * a.count) + a.word.toNat := by
    rw [BitVec.toNat_or, toNat_sign (by omega), Nat.or_comm, ← Nat.two_pow_add_eq_or_of_lt hlow,
      Nat.mul_sub, Nat.mul_one, two_pow_mul_two_pow_sub (by omega)]
  rw [BitVec.toInt_eq_toNat_cond, if_neg (by omega), hor, Nat.cast_add,
    Nat.cast_sub (hle.trans (by decide))]
  push_cast
  ring

theorem toInt_sign (hroom : 7 * a.count < 127) : a.sign.toInt = -2 ^ (7 * a.count) := by
  -- the sign alone is the sign filled up over an empty word
  have hempty := toInt_or_sign (a := ⟨0, a.count⟩) (Nat.two_pow_pos _) hroom
  simpa [sign] using hempty

end Parts

/-- What has been put in is the sum of the low seven bits, and lies below the next place. -/
theorem toNat_word_ofBytes {bs : List UInt8} (hroom : 7 * bs.length < 128) :
    (ofBytes bs).word.toNat = unsignedSum bs ∧ (ofBytes bs).word.toNat < 2 ^ (7 * bs.length) := by
  induction bs using List.reverseRecOn with
  | nil => exact ⟨rfl, by decide⟩
  | append_singleton bs b ih =>
    rw [List.length_append, List.length_singleton] at hroom
    obtain ⟨hword, hlow⟩ := ih (by omega)
    rw [← count_ofBytes] at hlow hroom
    rw [ofBytes_concat, List.length_append, List.length_singleton, ← count_ofBytes]
    refine ⟨?_, toNat_word_add_lt hlow hroom⟩
    rw [toNat_word_add hlow hroom, toNat_part hroom, hword, unsignedSum_concat, count_ofBytes]

theorem exact_ofBytes {bs : List UInt8} (hroom : 7 * (bs.length + 1) < 127) (b : UInt8) :
    (ofBytes bs).Exact b := by
  obtain ⟨-, hlow⟩ := toNat_word_ofBytes (show 7 * bs.length < 128 by omega)
  rw [← count_ofBytes] at hlow hroom
  have hroom' : 7 * ((ofBytes bs).count + 1) < 128 := hroom.trans (by decide)
  have hlow' := toNat_word_add_lt (b := b) hlow hroom'
  have hsmall : ((ofBytes bs).add b).word.toNat < 2 ^ 127 :=
    hlow'.trans (Nat.pow_lt_pow_right (by decide) hroom)
  refine ⟨hroom', toNat_part hroom', toNat_word_add hlow hroom', hsmall, toInt_sign hroom, ?_⟩
  rw [toInt_or_sign hlow' hroom, toInt_sign hroom, BitVec.toInt_eq_toNat_of_lt (by omega)]
  rfl

end Accumulator

/-- The end of an unsigned integer that has been accumulated: no bit may stand above its width. -/
def finishUnsigned (bits : Nat) (a : Accumulator) (_ : UInt8) : Reader Nat :=
  if a.word >>> bits = 0 then pure a.word.toNat else overflow bits

/-- The end of a signed integer that has been accumulated: bit 6 of the last byte is its sign, and
the value has to lie between the least and the greatest of its width. -/
def finishSigned (bits : Nat) (a : Accumulator) (last : UInt8) : Reader Int :=
  let v := if last &&& 0x40 = 0 then a.word else a.word ||| a.sign
  let least : BitVec 128 := -(1 <<< (bits - 1))
  let greatest : BitVec 128 := 1 <<< (bits - 1) - 1
  if v.slt least || greatest.slt v then overflow bits else pure v.toInt

/-- A reader whose loop keeps a word of 128 bits. -/
def accumulate (bits : Nat) (finish : Accumulator → UInt8 → Reader α) : Reader α :=
  loop (maxLength bits) Accumulator.add finish (maxLength bits) .empty

theorem and_six_eq_zero_iff (b : UInt8) : b &&& 0x40 = 0 ↔ ¬ b.toNat.testBit 6 = true := by
  have hmask : (b &&& 0x40).toNat = (b.toNat.testBit 6).toNat * 2 ^ 6 :=
    (UInt8.toNat_and b 0x40).trans (Nat.and_two_pow b.toNat 6)
  rw [← UInt8.toNat_inj, hmask]
  cases b.toNat.testBit 6 with
  | false => exact iff_of_true rfl Bool.false_ne_true
  | true => exact iff_of_false (by decide) (not_not_intro rfl)

theorem maxLength_le_ten (w : Width) : maxLength w.bits ≤ 10 := by
  cases w <;> decide

theorem finishUnsigned_ofBytes (w : Width) {bs : List UInt8} {b : UInt8}
    (hbs : bs.length < maxLength w.bits) :
    finishUnsigned w.bits (.ofBytes (bs ++ [b])) b
      = if unsignedSum (bs ++ [b]) < 2 ^ w.bits then pure (unsignedSum (bs ++ [b]))
        else overflow w.bits := by
  have hlength := maxLength_le_ten w
  have hroom : 7 * (bs ++ [b]).length < 128 := by
    rw [List.length_append, List.length_singleton]
    omega
  obtain ⟨hword, -⟩ := Accumulator.toNat_word_ofBytes hroom
  have hshift : (Accumulator.ofBytes (bs ++ [b])).word >>> w.bits = 0
      ↔ unsignedSum (bs ++ [b]) < 2 ^ w.bits := by
    rw [← BitVec.toNat_inj, BitVec.toNat_ushiftRight, hword, Nat.shiftRight_eq_div_pow]
    exact Nat.div_eq_zero_iff_lt (Nat.two_pow_pos _)
  unfold finishUnsigned
  rw [hword]
  exact if_congr hshift rfl rfl

theorem finishSigned_ofBytes (w : Width) {bs : List UInt8} {b : UInt8}
    (hbs : bs.length < maxLength w.bits) :
    finishSigned w.bits (.ofBytes (bs ++ [b])) b
      = if -2 ^ (w.bits - 1) ≤ signedSum (bs ++ [b]) ∧ signedSum (bs ++ [b]) < 2 ^ (w.bits - 1)
        then pure (signedSum (bs ++ [b])) else overflow w.bits := by
  have hlength := maxLength_le_ten w
  have hroom : 7 * (bs ++ [b]).length < 127 := by
    rw [List.length_append, List.length_singleton]
    omega
  obtain ⟨hword, hlow⟩ := Accumulator.toNat_word_ofBytes (hroom.trans (by decide))
  rw [← Accumulator.count_ofBytes] at hlow hroom
  have hsmall : (Accumulator.ofBytes (bs ++ [b])).word.toNat < 2 ^ 127 :=
    hlow.trans (Nat.pow_lt_pow_right (by decide) hroom)
  -- the word, with its sign filled up where it has one, is the value
  have hvalue : (if b &&& 0x40 = 0 then (Accumulator.ofBytes (bs ++ [b])).word
      else (Accumulator.ofBytes (bs ++ [b])).word ||| (Accumulator.ofBytes (bs ++ [b])).sign).toInt
        = signedSum (bs ++ [b]) := by
    unfold signedSum
    rw [List.getLast?_concat, Option.any_some]
    by_cases hb : b.toNat.testBit 6 = true
    · rw [if_pos hb, if_neg (mt (and_six_eq_zero_iff b).mp (not_not_intro hb)),
        Accumulator.toInt_or_sign hlow hroom, hword, Accumulator.count_ofBytes]
    · rw [if_neg hb, if_pos ((and_six_eq_zero_iff b).mpr hb), ← hword]
      exact BitVec.toInt_eq_toNat_of_lt (by omega)
  have hleast : (-(1 <<< (w.bits - 1)) : BitVec 128).toInt = -2 ^ (w.bits - 1) := by
    cases w <;> decide
  have hgreatest : (1 <<< (w.bits - 1) - 1 : BitVec 128).toInt = 2 ^ (w.bits - 1) - 1 := by
    cases w <;> decide
  unfold finishSigned
  dsimp only
  rw [hvalue]
  simp only [Bool.or_eq_true, BitVec.slt_iff_toInt_lt, hvalue, hleast, hgreatest]
  by_cases hrange : -2 ^ (w.bits - 1) ≤ signedSum (bs ++ [b]) ∧
      signedSum (bs ++ [b]) < 2 ^ (w.bits - 1)
  · rw [if_pos hrange, if_neg (by omega)]
  · rw [if_neg hrange, if_pos (by omega)]

/-- **Integers of variable length are read exactly.** Of each width and with or without a sign, a
reader returns the value of the bytes up to the first whose top bit is clear, if that is one of the
first `⌈bits / 7⌉` bytes and the value in range; otherwise it tells which of these failed, and
where. A loop that accumulates the value in 128 bits is the same reader, and loses nothing in any of
its steps. -/
theorem reads_integers (w : Width) :
    ReadsIntegers w.bits unsignedSum (fun v => v < 2 ^ w.bits) (unsigned w.bits) ∧
    ReadsIntegers w.bits signedSum (fun v => -2 ^ (w.bits - 1) ≤ v ∧ v < 2 ^ (w.bits - 1))
      (signed w.bits) ∧
    unsigned w.bits = accumulate w.bits (finishUnsigned w.bits) ∧
    signed w.bits = accumulate w.bits (finishSigned w.bits) ∧
    ∀ bs b, bs.length < maxLength w.bits → (Accumulator.ofBytes bs).Exact b := by
  have hunsigned := unsigned_readsIntegers w.bits
  have hsigned := signed_readsIntegers w.bits
  -- the loops obey the same laws, and a law leaves room for one reader only
  refine ⟨hunsigned, hsigned, hunsigned.unique ?_, hsigned.unique ?_, fun bs b hbs => ?_⟩
  · exact ReadsIntegers.of_loop fun bs b hbs => finishUnsigned_ofBytes w hbs
  · exact ReadsIntegers.of_loop fun bs b hbs => finishSigned_ofBytes w hbs
  · have hlength := maxLength_le_ten w
    exact Accumulator.exact_ofBytes (by omega) b

/-- Five bytes are enough for 32 bits, but they have room for more. -/
example : (unsigned 32).runOn [0x80, 0x80, 0x80, 0x80, 0x10, 0x01]
    = .error (.integerOverflow 32 5) := by decide

end Leb128

end MeteredSandbox
