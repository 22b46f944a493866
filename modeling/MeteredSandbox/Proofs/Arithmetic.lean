import Mathlib
import MeteredSandbox.Proofs.Accessing

/-!
# Integer instructions as arithmetic

At either width an integer instruction takes its operands, however high the stack and wherever the
floor below them, and puts back one result, or it traps (`NumericOp.Yields`). What the result is can
be said without bit vectors, in terms of the numbers that the operands stand for with a sign and
without one (`Width.integers_exact`).

Two of the operations need a word. Division truncates, so that a remainder has the sign of the
dividend; the quotient exists unless the divisor is zero, and fits unless it is the negative of the
least integer. Shifts and rotations take their count modulo the width, and the statements about them
name the reduced count once, so that nothing is assumed about the operand.
-/

namespace MeteredSandbox

variable {n : Nat}

/-! ### Instructions and their operands -/

/-- An instruction makes a result of its operands, the last of which is on top: on every stack, with
every floor that is not above the rest, it leaves the rest and puts the result on it. If the result
is a trap, it leaves the rest alone. -/
def NumericOp.Yields (op : NumericOp) (operands : List Value) : Except Trap Value → Prop
  | .ok v => ∀ (floor : Nat) (rest : OperandStack), floor ≤ rest.height →
      op.execute floor (rest.pushAll operands) = .ok () (rest.push v)
  | .error t => ∀ (floor : Nat) (rest : OperandStack), floor ≤ rest.height →
      op.execute floor (rest.pushAll operands) = .error t rest

/-- The value of a comparison. -/
def Value.truth (b : Bool) : Value := .i32 (if b then 1 else 0)

section

variable {w : Width} {floor : Nat} {rest : OperandStack} {β : Type}

theorem Operands.popInt_bind_push (hfloor : floor ≤ rest.height) (a : BitVec w.bits)
    (f : BitVec w.bits → Operands β) :
    (popInt w floor >>= f) (rest.push (.int w a)) = f a rest :=
  bind_of_ok (popInt_push hfloor a) f

/-- The second operand is taken first. -/
theorem Operands.popInt_bind_push_push (hfloor : floor ≤ rest.height) (a b : BitVec w.bits)
    (f : BitVec w.bits → BitVec w.bits → Operands β) :
    (popInt w floor >>= fun b => popInt w floor >>= fun a => f a b)
      ((rest.push (.int w a)).push (.int w b)) = f a b rest := by
  rw [popInt_bind_push (hfloor.trans (Nat.le_succ _)), popInt_bind_push hfloor]

end

namespace NumericOp

theorem intArith_yields_ok {w : Width} {op : IntArith} {a b r : BitVec w.bits}
    (h : op.apply a b = .ok r) :
    (intArith w op).Yields [.int w a, .int w b] (.ok (.int w r)) := by
  intro floor rest hfloor
  refine (Operands.popInt_bind_push_push hfloor a b _).trans ?_
  rw [h]
  rfl

theorem intArith_yields_error {w : Width} {op : IntArith} {a b : BitVec w.bits} {t : Trap}
    (h : op.apply a b = .error t) :
    (intArith w op).Yields [.int w a, .int w b] (.error t) := by
  intro floor rest hfloor
  refine (Operands.popInt_bind_push_push hfloor a b _).trans ?_
  rw [h]
  rfl

theorem intCompare_yields (w : Width) (r : IntRelation) (a b : BitVec w.bits) :
    (intCompare w r).Yields [.int w a, .int w b] (.ok (.truth (r.holds a b))) :=
  fun _ _ hfloor => Operands.popInt_bind_push_push hfloor a b _

theorem intIsZero_yields (w : Width) (a : BitVec w.bits) :
    (intIsZero w).Yields [.int w a] (.ok (.truth (a == 0))) :=
  fun _ _ hfloor => Operands.popInt_bind_push hfloor a _

theorem intCount_yields (w : Width) (c : IntCount) (a : BitVec w.bits) :
    (intCount w c).Yields [.int w a] (.ok (.int w (c.apply a))) :=
  fun _ _ hfloor => Operands.popInt_bind_push hfloor a _

end NumericOp

/-! ### Sums, differences and products -/

/-- A bit vector stands for an integer modulo `2 ^ n`. -/
def StandsFor (r : BitVec n) (z : ℤ) : Prop := (r.toNat : ℤ) ≡ z [ZMOD 2 ^ n]

theorem standsFor_iff {r : BitVec n} {z : ℤ} : StandsFor r z ↔ r = BitVec.ofInt n z := by
  unfold StandsFor Int.ModEq
  rw [← BitVec.toNat_inj, BitVec.toNat_ofInt, Nat.cast_pow, Nat.cast_ofNat]
  have hpos : (0 : ℤ) < 2 ^ n := by positivity
  have hr : (r.toNat : ℤ) % 2 ^ n = r.toNat :=
    Int.emod_eq_of_lt (Int.natCast_nonneg _) (by exact_mod_cast r.isLt)
  have hz := Int.emod_nonneg z hpos.ne'
  -- the remainder of `z` is not negative, so it is the same number as a natural one
  omega

/-- A bit vector stands for what it is without a sign. -/
theorem standsFor_toNat (a : BitVec n) : StandsFor a a.toNat := rfl

/-- A bit vector stands for what it is with a sign. -/
theorem standsFor_toInt (a : BitVec n) : StandsFor a a.toInt :=
  standsFor_iff.mpr BitVec.ofInt_toInt.symm

theorem StandsFor.add {a b : BitVec n} {x y : ℤ} (ha : StandsFor a x) (hb : StandsFor b y) :
    StandsFor (a + b) (x + y) := by
  rw [standsFor_iff, BitVec.ofInt_add, ← standsFor_iff.mp ha, ← standsFor_iff.mp hb]

theorem StandsFor.mul {a b : BitVec n} {x y : ℤ} (ha : StandsFor a x) (hb : StandsFor b y) :
    StandsFor (a * b) (x * y) := by
  rw [standsFor_iff, BitVec.ofInt_mul, ← standsFor_iff.mp ha, ← standsFor_iff.mp hb]

theorem StandsFor.sub {a b : BitVec n} {x y : ℤ} (ha : StandsFor a x) (hb : StandsFor b y) :
    StandsFor (a - b) (x - y) := by
  rw [standsFor_iff, sub_eq_add_neg x y, BitVec.ofInt_add, BitVec.ofInt_neg,
    ← standsFor_iff.mp ha, ← standsFor_iff.mp hb, BitVec.sub_eq_add_neg]

/-! ### Division -/

/-- The one quotient that does not fit: the least integer by the negative of one. -/
theorem toInt_intMin_and_neg_one_iff (hn : 0 < n) (a b : BitVec n) :
    a = BitVec.intMin n ∧ b = -1 ↔ a.toInt = -2 ^ (n - 1) ∧ b.toInt = -1 := by
  rw [← BitVec.toInt_inj (x := a), ← BitVec.toInt_inj (x := b), BitVec.toInt_intMin_of_pos hn,
    show (-1 : BitVec n) = BitVec.allOnes n from BitVec.neg_one_eq_allOnes,
    BitVec.toInt_allOnes, if_pos hn]

/-- Truncating division. -/
structure Divides (a b q r : ℤ) : Prop where
  eq_mul_add : a = q * b + r
  abs_lt : |r| < |b|
  sign : r = 0 ∨ r.sign = a.sign

theorem divides_tdiv_tmod {a b : ℤ} (hb : b ≠ 0) : Divides a b (a.tdiv b) (a.tmod b) where
  eq_mul_add := by
    rw [mul_comm, Int.mul_tdiv_add_tmod]
  abs_lt := by
    rw [Int.abs_eq_natAbs, Int.abs_eq_natAbs, Int.natAbs_tmod]
    exact_mod_cast Nat.mod_lt _ (Int.natAbs_pos.mpr hb)
  sign := by
    rw [Int.sign_tmod]
    split
    · next hdvd => exact .inl (Int.tmod_eq_zero_of_dvd hdvd)
    · exact .inr rfl

theorem toInt_ne_zero {b : BitVec n} (hb : b ≠ 0) : b.toInt ≠ 0 := fun h =>
  hb (BitVec.eq_of_toInt_eq (h.trans BitVec.toInt_zero.symm))

theorem IntArith.apply_zero {op : IntArith}
    (hop : op ∈ [divSigned, divUnsigned, remSigned, remUnsigned]) (a : BitVec n) :
    op.apply a 0 = .error .divideByZero := by
  simp only [List.mem_cons, List.not_mem_nil, or_false] at hop
  obtain rfl | rfl | rfl | rfl := hop <;> rw [apply, if_pos rfl]

theorem IntArith.apply_corner (hn : 0 < n) {a b : BitVec n} (ha : a.toInt = -2 ^ (n - 1))
    (hb : b.toInt = -1) :
    divSigned.apply a b = .error .integerOverflow ∧ remSigned.apply a b = .ok 0 := by
  have hzero : b ≠ 0 := by
    rintro rfl
    exact absurd (BitVec.toInt_zero.symm.trans hb) (by decide)
  refine ⟨?_, (if_neg hzero).trans (congrArg _ (BitVec.eq_of_toInt_eq ?_))⟩
  · show (if b = 0 then _ else if _ then _ else _) = _
    rw [if_neg hzero, if_pos ((toInt_intMin_and_neg_one_iff hn a b).mpr ⟨ha, hb⟩)]
  · -- the remainder has no test for the corner and needs none
    rw [BitVec.toInt_srem, hb, Int.tmod_neg, Int.tmod_one]
    exact BitVec.toInt_zero.symm

/-- **Signed division.** -/
theorem IntArith.apply_signed (hn : 0 < n) {a b : BitVec n} (hb : b ≠ 0)
    (hfits : ¬ (a.toInt = -2 ^ (n - 1) ∧ b.toInt = -1)) :
    ∃ q r, divSigned.apply a b = .ok q ∧ remSigned.apply a b = .ok r ∧
      Divides a.toInt b.toInt q.toInt r.toInt := by
  have hneg := mt (toInt_intMin_and_neg_one_iff hn a b).mp hfits
  refine ⟨a.sdiv b, a.srem b, ?_, if_neg hb, ?_⟩
  · show (if b = 0 then _ else if _ then _ else _) = _
    rw [if_neg hb, if_neg hneg]
  · rw [BitVec.toInt_srem, BitVec.toInt_sdiv_of_ne_or_ne a b (not_and_or.mp hneg)]
    exact divides_tdiv_tmod (toInt_ne_zero hb)

theorem IntArith.apply_unsigned {a b : BitVec n} (hb : b ≠ 0) :
    ∃ q r, divUnsigned.apply a b = .ok q ∧ remUnsigned.apply a b = .ok r ∧
      a.toNat = q.toNat * b.toNat + r.toNat ∧ r.toNat < b.toNat := by
  refine ⟨a.udiv b, a.umod b, if_neg hb, if_neg hb, ?_, ?_⟩
  · show a.toNat = a.toNat / b.toNat * b.toNat + (a % b).toNat
    rw [BitVec.toNat_umod, Nat.div_add_mod']
  · show (a % b).toNat < b.toNat
    rw [BitVec.toNat_umod]
    exact Nat.mod_lt _ (Nat.pos_of_ne_zero fun h => hb (BitVec.eq_of_toNat_eq h))

/-! ### Shifts and rotations -/

theorem getLsbD_rotateLeft_add {a : BitVec n} {k i : Nat} (hk : k < n) (hi : i < n) :
    (a.rotateLeft k).getLsbD ((i + k) % n) = a.getLsbD i := by
  rw [BitVec.getLsbD_rotateLeft_of_le hk]
  -- the bit stays within the word, or leaves at the top and comes in at the bottom
  rcases Nat.lt_or_ge (i + k) n with hlt | hge
  · rw [Nat.mod_eq_of_lt hlt, Bool.cond_eq_ite, if_neg (by simp), decide_eq_true hlt,
      Bool.true_and, Nat.add_sub_cancel]
  · have hmod : (i + k) % n = i + k - n := by
      rw [Nat.mod_eq_sub_mod hge, Nat.mod_eq_of_lt (by omega)]
    have hback : n - k + (i + k - n) = i := by omega
    rw [hmod, Bool.cond_eq_ite, if_pos (by simp; omega), hback]

theorem getLsbD_rotateRight {a : BitVec n} {k i : Nat} (hk : k < n) (hi : i < n) :
    (a.rotateRight k).getLsbD i = a.getLsbD ((i + k) % n) := by
  rw [BitVec.getLsbD_rotateRight_of_lt hk]
  rcases Nat.lt_or_ge i (n - k) with hlt | hge
  · rw [Bool.cond_eq_ite, if_pos (by simpa using hlt), Nat.mod_eq_of_lt (by omega), Nat.add_comm]
  · have hmod : (i + k) % n = i - (n - k) := by
      rw [Nat.mod_eq_sub_mod (by omega), Nat.mod_eq_of_lt (by omega)]
      omega
    rw [Bool.cond_eq_ite, if_neg (by simpa using hge), decide_eq_true hi, Bool.true_and, hmod]

theorem rotateRight_rotateLeft {a : BitVec n} {k : Nat} (hk : k < n) :
    (a.rotateLeft k).rotateRight k = a := by
  apply BitVec.eq_of_getLsbD_eq
  intro i hi
  rw [getLsbD_rotateRight hk hi, getLsbD_rotateLeft_add hk hi]

theorem rotateLeft_rotateRight {a : BitVec n} {k : Nat} (hk : k < n) :
    (a.rotateRight k).rotateLeft k = a := by
  apply BitVec.eq_of_getLsbD_eq
  intro i hi
  -- the bit was moved here from `k` places below, counted around
  have hpos : 0 < n := by omega
  have hround : ((i + (n - k)) % n + k) % n = i := by
    rw [Nat.mod_add_mod, show i + (n - k) + k = i + n by omega, Nat.add_mod_right,
      Nat.mod_eq_of_lt hi]
  have hmoved := getLsbD_rotateLeft_add (a := a.rotateRight k) hk
    (Nat.mod_lt (i + (n - k)) hpos)
  rw [getLsbD_rotateRight hk (Nat.mod_lt _ hpos), hround] at hmoved
  exact hmoved

/-! ### Comparisons and counts -/

/-- A relation between integers: with a sign or without one, as its name says. -/
def IntRelation.Stands (a b : BitVec n) : IntRelation → Prop
  | eq => a = b
  | ne => a ≠ b
  | ltSigned => a.toInt < b.toInt
  | ltUnsigned => a.toNat < b.toNat
  | gtSigned => b.toInt < a.toInt
  | gtUnsigned => b.toNat < a.toNat
  | leSigned => a.toInt ≤ b.toInt
  | leUnsigned => a.toNat ≤ b.toNat
  | geSigned => b.toInt ≤ a.toInt
  | geUnsigned => b.toNat ≤ a.toNat

theorem IntRelation.holds_iff (r : IntRelation) (a b : BitVec n) :
    r.holds a b = true ↔ r.Stands a b := by
  cases r with
  | eq => exact beq_iff_eq
  | ne => exact bne_iff_ne
  | ltSigned | gtSigned => exact BitVec.slt_iff_toInt_lt
  | ltUnsigned | gtUnsigned => exact BitVec.ult_iff_toNat_lt
  | leSigned | geSigned => exact BitVec.sle_iff_toInt_le
  | leUnsigned | geUnsigned => exact BitVec.ule_iff_toNat_le

/-- A row of `n` bits starts with exactly `count` zeros. -/
structure StartsWithZeros (n : Nat) (bit : Nat → Bool) (count : Nat) : Prop where
  le : count ≤ n
  zeros : ∀ i < count, bit i = false
  one : count < n → bit count = true

theorem toNat_clz_le (a : BitVec n) : a.clz.toNat ≤ n := by
  have hle := BitVec.le_def.mp (BitVec.clz_le (x := a))
  rwa [BitVec.natCast_eq_ofNat, BitVec.toNat_ofNat, Nat.mod_eq_of_lt Nat.lt_two_pow_self] at hle

theorem startsWithZeros_ctz (a : BitVec n) : StartsWithZeros n a.getLsbD a.ctz.toNat where
  le := by
    rw [BitVec.ctz_eq_reverse_clz]
    exact toNat_clz_le _
  zeros _ hi := BitVec.getLsbD_false_of_lt_ctz hi
  one h := by
    refine BitVec.getLsbD_true_ctz_of_ne_zero (BitVec.ctz_lt_iff_ne_zero.mp ?_)
    rwa [BitVec.lt_def, BitVec.natCast_eq_ofNat, BitVec.toNat_ofNat,
      Nat.mod_eq_of_lt Nat.lt_two_pow_self]

/-- The leading zeros are the trailing zeros of the bits in reverse. -/
theorem startsWithZeros_clz (a : BitVec n) : StartsWithZeros n a.getMsbD a.clz.toNat := by
  have hreverse : a.getMsbD = a.reverse.getLsbD := by
    ext i
    rw [BitVec.getLsbD_reverse]
  rw [hreverse, BitVec.clz_eq_reverse_ctz]
  exact startsWithZeros_ctz a.reverse

theorem clz_zero : (0 : BitVec n).clz = BitVec.ofNat n n :=
  BitVec.clz_eq_iff_eq_zero.mpr rfl

theorem ctz_zero : (0 : BitVec n).ctz = BitVec.ofNat n n := by
  rw [BitVec.ctz_eq_reverse_clz,
    show (0 : BitVec n).reverse = 0 from BitVec.reverse_eq_zero_iff.mpr rfl, clz_zero]

theorem cpopNatRec_eq_countP (a : BitVec n) (k : Nat) :
    a.cpopNatRec k 0 = (List.range k).countP a.getLsbD := by
  induction k with
  | zero => rfl
  | succ k ih =>
    rw [BitVec.cpopNatRec_succ, BitVec.cpopNatRec_eq, ih, List.range_succ, List.countP_append,
      Nat.zero_add, List.countP_singleton]
    cases a.getLsbD k <;> rfl

theorem toNat_cpop (a : BitVec n) : a.cpop.toNat = (List.range n).countP a.getLsbD :=
  (BitVec.toNat_cpop a).trans (cpopNatRec_eq_countP a n)

/-! ### The instructions of a width -/

namespace Width

/-- An integer instruction with its opcode at either width. -/
structure IntOpcode where
  code32 : UInt8
  code64 : UInt8
  op : Width → NumericOp

/-- The opcode for a width. -/
def IntOpcode.code (o : IntOpcode) : Width → UInt8
  | w32 => o.code32
  | w64 => o.code64

open NumericOp in
/-- The opcodes of the integer instructions. -/
def intOpcodes : List IntOpcode := [
  ⟨0x45, 0x50, intIsZero⟩,
  ⟨0x46, 0x51, (intCompare · .eq)⟩,
  ⟨0x47, 0x52, (intCompare · .ne)⟩,
  ⟨0x48, 0x53, (intCompare · .ltSigned)⟩,
  ⟨0x49, 0x54, (intCompare · .ltUnsigned)⟩,
  ⟨0x4A, 0x55, (intCompare · .gtSigned)⟩,
  ⟨0x4B, 0x56, (intCompare · .gtUnsigned)⟩,
  ⟨0x4C, 0x57, (intCompare · .leSigned)⟩,
  ⟨0x4D, 0x58, (intCompare · .leUnsigned)⟩,
  ⟨0x4E, 0x59, (intCompare · .geSigned)⟩,
  ⟨0x4F, 0x5A, (intCompare · .geUnsigned)⟩,
  ⟨0x67, 0x79, (intCount · .leadingZeros)⟩,
  ⟨0x68, 0x7A, (intCount · .trailingZeros)⟩,
  ⟨0x69, 0x7B, (intCount · .ones)⟩,
  ⟨0x6A, 0x7C, (intArith · .add)⟩,
  ⟨0x6B, 0x7D, (intArith · .sub)⟩,
  ⟨0x6C, 0x7E, (intArith · .mul)⟩,
  ⟨0x6D, 0x7F, (intArith · .divSigned)⟩,
  ⟨0x6E, 0x80, (intArith · .divUnsigned)⟩,
  ⟨0x6F, 0x81, (intArith · .remSigned)⟩,
  ⟨0x70, 0x82, (intArith · .remUnsigned)⟩,
  ⟨0x71, 0x83, (intArith · .and)⟩,
  ⟨0x72, 0x84, (intArith · .or)⟩,
  ⟨0x73, 0x85, (intArith · .xor)⟩,
  ⟨0x74, 0x86, (intArith · .shiftLeft)⟩,
  ⟨0x75, 0x87, (intArith · .shiftRightSigned)⟩,
  ⟨0x76, 0x88, (intArith · .shiftRightUnsigned)⟩,
  ⟨0x77, 0x89, (intArith · .rotateLeft)⟩,
  ⟨0x78, 0x8A, (intArith · .rotateRight)⟩]

open NumericOp in
/-- The integer instructions of a width are exact. -/
structure IntegersExact (w : Width) : Prop where
  opcodes : ∀ o ∈ intOpcodes, ofCode? (o.code w) = some (o.op w)
  add : ∀ a b : BitVec w.bits, ∃ r,
    (intArith w .add).Yields [.int w a, .int w b] (.ok (.int w r)) ∧
    StandsFor r (a.toNat + b.toNat) ∧ StandsFor r (a.toInt + b.toInt)
  sub : ∀ a b : BitVec w.bits, ∃ r,
    (intArith w .sub).Yields [.int w a, .int w b] (.ok (.int w r)) ∧
    StandsFor r (a.toNat - b.toNat) ∧ StandsFor r (a.toInt - b.toInt)
  mul : ∀ a b : BitVec w.bits, ∃ r,
    (intArith w .mul).Yields [.int w a, .int w b] (.ok (.int w r)) ∧
    StandsFor r (a.toNat * b.toNat) ∧ StandsFor r (a.toInt * b.toInt)
  divide_zero : ∀ op ∈ [IntArith.divSigned, .divUnsigned, .remSigned, .remUnsigned],
    ∀ a : BitVec w.bits,
      (intArith w op).Yields [.int w a, .int w 0] (.error .divideByZero)
  /-- The quotient that does not fit traps, and its remainder is zero. -/
  divide_overflow : ∀ a b : BitVec w.bits, a.toInt = -2 ^ (w.bits - 1) → b.toInt = -1 →
    (intArith w .divSigned).Yields [.int w a, .int w b] (.error .integerOverflow) ∧
    (intArith w .remSigned).Yields [.int w a, .int w b] (.ok (.int w 0))
  divide_signed : ∀ a b : BitVec w.bits, b ≠ 0 →
    ¬ (a.toInt = -2 ^ (w.bits - 1) ∧ b.toInt = -1) → ∃ q r,
      (intArith w .divSigned).Yields [.int w a, .int w b] (.ok (.int w q)) ∧
      (intArith w .remSigned).Yields [.int w a, .int w b] (.ok (.int w r)) ∧
      Divides a.toInt b.toInt q.toInt r.toInt
  divide_unsigned : ∀ a b : BitVec w.bits, b ≠ 0 → ∃ q r,
    (intArith w .divUnsigned).Yields [.int w a, .int w b] (.ok (.int w q)) ∧
    (intArith w .remUnsigned).Yields [.int w a, .int w b] (.ok (.int w r)) ∧
    a.toNat = q.toNat * b.toNat + r.toNat ∧ r.toNat < b.toNat
  bitwise : ∀ op f, (op, f) ∈ [(IntArith.and, and), (.or, or), (.xor, xor)] →
    ∀ a b : BitVec w.bits, ∃ r,
      (intArith w op).Yields [.int w a, .int w b] (.ok (.int w r)) ∧
      ∀ i < w.bits, r.getLsbD i = f (a.getLsbD i) (b.getLsbD i)
  shiftLeft : ∀ a b : BitVec w.bits, ∃ r,
    (intArith w .shiftLeft).Yields [.int w a, .int w b] (.ok (.int w r)) ∧
    r.toNat = a.toNat * 2 ^ (b.toNat % w.bits) % 2 ^ w.bits
  shiftRightUnsigned : ∀ a b : BitVec w.bits, ∃ r,
    (intArith w .shiftRightUnsigned).Yields [.int w a, .int w b] (.ok (.int w r)) ∧
    r.toNat = a.toNat / 2 ^ (b.toNat % w.bits)
  shiftRightSigned : ∀ a b : BitVec w.bits, ∃ r,
    (intArith w .shiftRightSigned).Yields [.int w a, .int w b] (.ok (.int w r)) ∧
    r.toInt = a.toInt.fdiv (2 ^ (b.toNat % w.bits))
  /-- The bits go up, the highest around to the lowest, and a rotation to the right is undone. -/
  rotateLeft : ∀ a b : BitVec w.bits, ∃ r,
    (intArith w .rotateLeft).Yields [.int w a, .int w b] (.ok (.int w r)) ∧
    (∀ i < w.bits, r.getLsbD ((i + b.toNat % w.bits) % w.bits) = a.getLsbD i) ∧
    (intArith w .rotateRight).Yields [.int w r, .int w b] (.ok (.int w a))
  rotateRight : ∀ a b : BitVec w.bits, ∃ r,
    (intArith w .rotateRight).Yields [.int w a, .int w b] (.ok (.int w r)) ∧
    (∀ i < w.bits, r.getLsbD i = a.getLsbD ((i + b.toNat % w.bits) % w.bits)) ∧
    (intArith w .rotateLeft).Yields [.int w r, .int w b] (.ok (.int w a))
  isZero : ∀ a : BitVec w.bits, ∃ t,
    (intIsZero w).Yields [.int w a] (.ok (.truth t)) ∧ (t = true ↔ a.toNat = 0)
  compare : ∀ (r : IntRelation) (a b : BitVec w.bits), ∃ t,
    (intCompare w r).Yields [.int w a, .int w b] (.ok (.truth t)) ∧ (t = true ↔ r.Stands a b)
  leadingZeros : ∀ a : BitVec w.bits, ∃ r,
    (intCount w .leadingZeros).Yields [.int w a] (.ok (.int w r)) ∧
    StartsWithZeros w.bits a.getMsbD r.toNat
  trailingZeros : ∀ a : BitVec w.bits, ∃ r,
    (intCount w .trailingZeros).Yields [.int w a] (.ok (.int w r)) ∧
    StartsWithZeros w.bits a.getLsbD r.toNat
  ones : ∀ a : BitVec w.bits, ∃ r,
    (intCount w .ones).Yields [.int w a] (.ok (.int w r)) ∧
    r.toNat = (List.range w.bits).countP a.getLsbD
  /-- Zero has as many leading and trailing zeros as bits. -/
  count_zero : ∀ c ∈ [IntCount.leadingZeros, .trailingZeros],
    (intCount w c).Yields [.int w 0] (.ok (.int w (.ofNat _ w.bits)))

theorem bits_pos (w : Width) : 0 < w.bits := by
  cases w <;> decide

open NumericOp in
/-- **Integer instructions are exact.** -/
theorem integers_exact (w : Width) : w.IntegersExact where
  opcodes := by cases w <;> decide +kernel
  add a b := ⟨a + b, intArith_yields_ok rfl, (standsFor_toNat a).add (standsFor_toNat b),
    (standsFor_toInt a).add (standsFor_toInt b)⟩
  sub a b := ⟨a - b, intArith_yields_ok rfl, (standsFor_toNat a).sub (standsFor_toNat b),
    (standsFor_toInt a).sub (standsFor_toInt b)⟩
  mul a b := ⟨a * b, intArith_yields_ok rfl, (standsFor_toNat a).mul (standsFor_toNat b),
    (standsFor_toInt a).mul (standsFor_toInt b)⟩
  divide_zero op hop a := intArith_yields_error (IntArith.apply_zero hop a)
  divide_overflow a b ha hb :=
    have ⟨hdiv, hrem⟩ := IntArith.apply_corner w.bits_pos ha hb
    ⟨intArith_yields_error hdiv, intArith_yields_ok hrem⟩
  divide_signed a b hb hfits :=
    have ⟨q, r, hq, hr, hdivides⟩ := IntArith.apply_signed w.bits_pos hb hfits
    ⟨q, r, intArith_yields_ok hq, intArith_yields_ok hr, hdivides⟩
  divide_unsigned a b hb :=
    have ⟨q, r, hq, hr, hdivides⟩ := IntArith.apply_unsigned hb
    ⟨q, r, intArith_yields_ok hq, intArith_yields_ok hr, hdivides⟩
  bitwise op f h a b := by
    simp only [List.mem_cons, Prod.mk.injEq, List.not_mem_nil, or_false] at h
    obtain ⟨rfl, rfl⟩ | ⟨rfl, rfl⟩ | ⟨rfl, rfl⟩ := h
    · exact ⟨_, intArith_yields_ok rfl, fun _ _ => BitVec.getLsbD_and⟩
    · exact ⟨_, intArith_yields_ok rfl, fun _ _ => BitVec.getLsbD_or⟩
    · exact ⟨_, intArith_yields_ok rfl, fun _ _ => BitVec.getLsbD_xor⟩
  shiftLeft a b := ⟨_, intArith_yields_ok rfl, by
    rw [BitVec.toNat_shiftLeft, Nat.shiftLeft_eq]⟩
  shiftRightUnsigned a b := ⟨_, intArith_yields_ok rfl, by
    rw [BitVec.toNat_ushiftRight, Nat.shiftRight_eq_div_pow]⟩
  shiftRightSigned a b := ⟨_, intArith_yields_ok rfl, by
    rw [BitVec.toInt_sshiftRight, Int.shiftRight_eq_div_pow,
      Int.fdiv_eq_ediv_of_nonneg _ (by positivity), Nat.cast_pow, Nat.cast_ofNat]⟩
  rotateLeft a b :=
    have hcount := Nat.mod_lt b.toNat w.bits_pos
    ⟨_, intArith_yields_ok rfl, fun _ hi => getLsbD_rotateLeft_add hcount hi,
      intArith_yields_ok (congrArg _ (rotateRight_rotateLeft hcount))⟩
  rotateRight a b :=
    have hcount := Nat.mod_lt b.toNat w.bits_pos
    ⟨_, intArith_yields_ok rfl, fun _ hi => getLsbD_rotateRight hcount hi,
      intArith_yields_ok (congrArg _ (rotateLeft_rotateRight hcount))⟩
  isZero a := ⟨_, intIsZero_yields w a, by
    rw [beq_iff_eq]
    exact BitVec.toNat_inj.symm⟩
  compare r a b := ⟨_, intCompare_yields w r a b, r.holds_iff a b⟩
  leadingZeros a := ⟨_, intCount_yields w _ a, startsWithZeros_clz a⟩
  trailingZeros a := ⟨_, intCount_yields w _ a, startsWithZeros_ctz a⟩
  ones a := ⟨_, intCount_yields w _ a, toNat_cpop a⟩
  count_zero c hc := by
    simp only [List.mem_cons, List.not_mem_nil, or_false] at hc
    obtain rfl | rfl := hc
    · rw [← clz_zero]
      exact intCount_yields w .leadingZeros 0
    · rw [← ctz_zero]
      exact intCount_yields w .trailingZeros 0

/-- To shift a word of 32 bits by 33 is to shift it by one. -/
example : IntArith.shiftLeft.apply 3#32 33#32 = .ok 6 := by decide

end Width

end MeteredSandbox
