import MeteredSandbox.Proofs.Grouping

/-!
# Integers are written in their shortest form

The bytes of an integer are its groups, all but the last with the top bit set (`Leb128.IsForm`). An
integer has many forms, since groups that say nothing new may follow. A form of a given length is
known by its value (`Leb128.IsForm.eq_of_sum_eq`), with and without a sign, and `k` groups have
values of one range only (`Leb128.unsignedSum_lt`,
`Leb128.IsForm.signedSum_mem`). The writers stop as soon as the value
is in the range of the groups that have been written, so no form is shorter, and no other form is as
short.

A writer is a loop over machine words that appends one byte in each turn (`Leb128.Writes`). That it
ends is not taken for granted: a run of the loop is a derivation, and the values that are left come
closer to zero, negative ones too, since the shift rounds down and stops at -1. Its bytes are those
of the number that the word stands for (`Leb128.writes_unsigned`, `Leb128.writes_signed`).
-/

namespace MeteredSandbox

namespace Cursor

theorem advance_advance (c : Cursor) (m n : Nat) : (c.advance m).advance n = c.advance (m + n) := by
  unfold advance
  rw [List.drop_drop, Nat.add_assoc]

/-- The cursor in the input `front ++ back` that stands between the two. -/
def between (front back : List UInt8) : Cursor := (start (front ++ back)).advance front.length

@[simp] theorem rest_between (front back : List UInt8) : (between front back).rest = back :=
  List.drop_left

/-- Going on over the first bytes behind the cursor. -/
theorem advance_between (front bs back : List UInt8) :
    (between front (bs ++ back)).advance bs.length = between (front ++ bs) back := by
  unfold between
  rw [advance_advance, List.append_assoc, List.length_append]

end Cursor

namespace Leb128

/-! ### Forms -/

/-- The bytes of one integer: only the last of them has its top bit clear. -/
inductive IsForm : List UInt8 → Prop
  | last {b : UInt8} (h : ¬ GoesOn b) : IsForm [b]
  | more {b : UInt8} {bs : List UInt8} (h : GoesOn b) (hbs : IsForm bs) : IsForm (b :: bs)

theorem IsForm.ne_nil {bs : List UInt8} (h : IsForm bs) : bs ≠ [] := by
  cases h with
  | last h => exact List.cons_ne_nil _ _
  | more h hbs => exact List.cons_ne_nil _ _

/-- Whatever follows a form, its integer ends where it ends. -/
theorem IsForm.endsAt {bs : List UInt8} (h : IsForm bs) (rest : List UInt8) :
    ∃ k, bs.length = k + 1 ∧ EndsAt (bs ++ rest) k := by
  induction h with
  | last h => exact ⟨0, rfl, endsAt_cons_zero.mpr h⟩
  | more h hbs ih =>
    obtain ⟨k, hlength, hends⟩ := ih
    exact ⟨k + 1, congrArg Nat.succ hlength, endsAt_cons_succ.mpr ⟨h, hends⟩⟩

/-- The bytes up to the end of an integer are a form. -/
theorem EndsAt.isForm {bs : List UInt8} {k : Nat} (h : EndsAt bs k) : IsForm (bs.take (k + 1)) := by
  induction bs generalizing k with
  | nil => exact absurd h not_endsAt_nil
  | cons b bs ih =>
    cases k with
    | zero => exact .last (endsAt_cons_zero.mp h)
    | succ k =>
      obtain ⟨hb, hbs⟩ := endsAt_cons_succ.mp h
      exact .more hb (ih hbs)

/-- **What a reader takes** are the forms that are short enough and have a value in range. -/
theorem ReadsIntegers.eq_ok_iff {α : Type} {bits : Nat} {value : List UInt8 → α} {P : α → Prop}
    {r : Reader α} (hr : ReadsIntegers bits value P r) {c c' : Cursor} {v : α} :
    r c = .ok v c' ↔ ∃ bs rest, IsForm bs ∧ bs.length ≤ maxLength bits ∧ value bs = v ∧ P v ∧
      c.rest = bs ++ rest ∧ c' = c.advance bs.length := by
  constructor
  · intro h
    rcases endsAt_or c.rest (maxLength bits) with ⟨k, hk, hends⟩ | ⟨hlength, hall⟩ | ⟨hlength, hall⟩
    · obtain ⟨hat, -⟩ := List.getElem?_eq_some_iff.mp hends.last.choose_spec.1
      have hlength : (c.rest.take (k + 1)).length = k + 1 := List.length_take_of_le hat
      by_cases hrange : P (value (c.rest.take (k + 1)))
      · rw [hr.inRange c k hk hends hrange] at h
        cases h
        refine ⟨c.rest.take (k + 1), c.rest.drop (k + 1), hends.isForm, ?_, rfl, hrange, ?_, ?_⟩
        · rw [hlength]
          exact hk
        · exact (List.take_append_drop _ _).symm
        · rw [hlength]
      · rw [hr.outOfRange c k hk hends hrange] at h
        cases h
    · rw [hr.tooLong c hlength hall] at h
      cases h
    · rw [hr.ended c hlength hall] at h
      cases h
  · rintro ⟨bs, rest, hform, hlength, rfl, hrange, hrest, rfl⟩
    obtain ⟨k, hk, hends⟩ := hform.endsAt rest
    have htake : c.rest.take (k + 1) = bs := by
      rw [hrest, ← hk, List.take_left]
    rw [← hrest] at hends
    rw [← htake] at hrange
    rw [hr.inRange c k (by omega) hends hrange, htake, hk]

/-! ### The values of forms -/

theorem unsignedSum_cons (b : UInt8) (bs : List UInt8) :
    unsignedSum (b :: bs) = group b + 128 * unsignedSum bs := by
  rw [← unsignedValue_map_group, ← unsignedValue_map_group, List.map_cons, unsignedValue]

theorem unsignedSum_lt (bs : List UInt8) : unsignedSum bs < 128 ^ bs.length := by
  induction bs with
  | nil => exact Nat.one_pos
  | cons b bs ih =>
    have hb := group_lt b
    rw [unsignedSum_cons, List.length_cons, Nat.pow_succ]
    omega

/-- The group and the top bit make the byte. -/
theorem eq_of_group_eq {b b' : UInt8} (htop : GoesOn b ↔ GoesOn b') (h : group b = group b') :
    b = b' := by
  rw [goesOn_iff, goesOn_iff] at htop
  have hlt : b.toNat < 256 := b.toNat_lt
  have hlt' : b'.toNat < 256 := b'.toNat_lt
  unfold group at h
  apply UInt8.toNat_inj.mp
  omega

/-- **A form is known by its length and value.** -/
theorem IsForm.eq_of_sum_eq {bs cs : List UInt8} (hbs : IsForm bs) (hcs : IsForm cs)
    (hlength : bs.length = cs.length) (hsum : unsignedSum bs = unsignedSum cs) : bs = cs := by
  induction hbs generalizing cs with
  | @last b hb =>
    cases hcs with
    | @last c hc =>
      rw [unsignedSum_cons, unsignedSum_cons] at hsum
      have hgroup : group b = group c := Nat.add_right_cancel hsum
      rw [eq_of_group_eq (iff_of_false hb hc) hgroup]
    | more hc hcs =>
      exact absurd (List.length_eq_zero_iff.mp (Nat.succ.inj hlength).symm) hcs.ne_nil
  | @more b bs hb hbs ih =>
    cases hcs with
    | last hc => exact absurd (List.length_eq_zero_iff.mp (Nat.succ.inj hlength)) hbs.ne_nil
    | @more c cs hc hcs =>
      rw [unsignedSum_cons, unsignedSum_cons] at hsum
      have hb' := group_lt b
      have hc' := group_lt c
      -- the first group is the remainder by 128, the others are the quotient
      have hgroup : group b = group c := by omega
      have hrest : unsignedSum bs = unsignedSum cs := by omega
      rw [eq_of_group_eq (iff_of_true hb hc) hgroup, ih hcs (Nat.succ.inj hlength) hrest]

/-- A group in front of others adds to them with its weight, also below a sign. -/
theorem signedSum_cons (b : UInt8) {bs : List UInt8} (h : bs ≠ []) :
    signedSum (b :: bs) = group b + 128 * signedSum bs := by
  rw [← signedValue_map_group, ← signedValue_map_group, List.map_cons,
    signedValue_cons _ (mt List.map_eq_nil_iff.mp h)]

theorem signedSum_singleton (b : UInt8) :
    signedSum [b] = if 64 ≤ group b then (group b : Int) - 128 else group b := by
  unfold signedSum
  rw [List.getLast?_singleton, Option.any_some, unsignedSum_cons]
  exact if_congr (testBit_six_iff b) rfl rfl

/-- The values of a form of `k + 1` bytes with a sign, which takes one bit of the last group. -/
theorem IsForm.signedSum_mem {bs : List UInt8} (h : IsForm bs) {k : Nat} (hk : bs.length = k + 1) :
    -(64 * 128 ^ k) ≤ signedSum bs ∧ signedSum bs < 64 * 128 ^ k := by
  induction h generalizing k with
  | @last b hb =>
    have hlt := group_lt b
    obtain rfl : k = 0 := (Nat.succ.inj hk).symm
    rw [signedSum_singleton, pow_zero]
    split
    · omega
    · omega
  | @more b bs hb hbs ih =>
    have hlt := group_lt b
    obtain ⟨j, hj⟩ := Nat.exists_eq_succ_of_ne_zero (mt List.length_eq_zero_iff.mp hbs.ne_nil)
    obtain rfl : k = j + 1 := by
      rw [List.length_cons] at hk
      omega
    -- the sign is that of the groups behind, whose bounds are taken 128 times
    obtain ⟨hlow, hhigh⟩ := ih hj
    rw [signedSum_cons b hbs.ne_nil, pow_succ]
    omega

/-- A form with a sign is known by its length and value. -/
theorem IsForm.eq_of_signedSum_eq {bs cs : List UInt8} (hbs : IsForm bs) (hcs : IsForm cs)
    (hlength : bs.length = cs.length) (hsum : signedSum bs = signedSum cs) : bs = cs := by
  refine hbs.eq_of_sum_eq hcs hlength ?_
  have hb := unsignedSum_lt bs
  have hc := unsignedSum_lt cs
  have hpow : ((128 ^ cs.length : Nat) : Int) = 2 ^ (7 * cs.length) := by
    rw [pow_mul]
    push_cast
    rfl
  rw [hlength] at hb
  unfold signedSum at hsum
  rw [hlength, ← hpow] at hsum
  -- the sums are below the weight of the sign, so the sign can be told from the value
  split at hsum
  · split at hsum
    · omega
    · omega
  · split at hsum
    · omega
    · omega

/-! ### What the writers produce -/

theorem not_goesOn_ofNat {n : Nat} (h : n < 128) : ¬ GoesOn (UInt8.ofNat n) := by
  rw [goesOn_iff, UInt8.toNat_ofNat']
  omega

theorem group_ofNat {n : Nat} (h : n < 128) : group (UInt8.ofNat n) = n := by
  unfold group
  rw [UInt8.toNat_ofNat']
  omega

theorem goesOn_ofNat {n : Nat} (h : n < 128) : GoesOn (UInt8.ofNat (n + 128)) := by
  rw [goesOn_iff, UInt8.toNat_ofNat']
  omega

theorem group_ofNat_add {n : Nat} (h : n < 128) : group (UInt8.ofNat (n + 128)) = n := by
  unfold group
  rw [UInt8.toNat_ofNat']
  omega

/-- What is written of a number without a sign is a form of it. -/
theorem encodeUnsigned_isForm (n : Nat) :
    IsForm (encodeUnsigned n) ∧ unsignedSum (encodeUnsigned n) = n := by
  induction n using Nat.strongRecOn with
  | ind n ih =>
    rw [encodeUnsigned]
    split
    next hn =>
      refine ⟨.last (not_goesOn_ofNat hn), ?_⟩
      rw [unsignedSum_cons, group_ofNat hn]
      rfl
    next hn =>
      have hmod : n % 128 < 128 := Nat.mod_lt n (by decide)
      obtain ⟨hform, hsum⟩ := ih (n / 128) (by omega)
      refine ⟨.more (goesOn_ofNat hmod) hform, ?_⟩
      rw [unsignedSum_cons, group_ofNat_add hmod, hsum]
      omega

/-- What is written of a number with a sign is a form of it. -/
theorem encodeSigned_isForm (n : Int) :
    IsForm (encodeSigned n) ∧ signedSum (encodeSigned n) = n := by
  induction h : n.natAbs using Nat.strongRecOn generalizing n with
  | ind k ih =>
    have hmod : (n % 128).toNat < 128 := by omega
    rw [encodeSigned]
    split
    next hn =>
      refine ⟨.last (not_goesOn_ofNat hmod), ?_⟩
      rw [signedSum_singleton, group_ofNat hmod]
      split
      · omega
      · omega
    next hn =>
      obtain ⟨hform, hsum⟩ := ih (n / 128).natAbs (by omega) (n / 128) rfl
      refine ⟨.more (goesOn_ofNat hmod) hform, ?_⟩
      rw [signedSum_cons _ hform.ne_nil, group_ofNat_add hmod, hsum]
      omega

/-- A number that `k + 1` groups have room for is written in no more. -/
theorem length_encodeUnsigned_le_of_lt {n k : Nat} (h : n < 128 ^ (k + 1)) :
    (encodeUnsigned n).length ≤ k + 1 := by
  induction k generalizing n with
  | zero =>
    rw [encodeUnsigned, if_pos (by simpa using h)]
    exact Nat.le_refl 1
  | succ k ih =>
    rw [encodeUnsigned]
    split
    · exact Nat.succ_le_succ (Nat.zero_le _)
    · rw [pow_succ, ← Nat.div_lt_iff_lt_mul (by decide)] at h
      exact Nat.succ_le_succ (ih h)

/-- A number that `k + 1` groups have room for, with its sign, is written in no more. -/
theorem length_encodeSigned_le_of_mem {n : Int} {k : Nat} (hlow : -(64 * 128 ^ k) ≤ n)
    (hhigh : n < 64 * 128 ^ k) : (encodeSigned n).length ≤ k + 1 := by
  induction k generalizing n with
  | zero =>
    rw [encodeSigned, if_pos (by simpa using And.intro hlow hhigh)]
    exact Nat.le_refl 1
  | succ k ih =>
    rw [encodeSigned]
    split
    · exact Nat.succ_le_succ (Nat.zero_le _)
    · rw [pow_succ] at hlow hhigh
      exact Nat.succ_le_succ (ih (by omega) (by omega))

/-- **No form is shorter** than the one that is written, and no other is as short. -/
theorem IsForm.eq_encodeUnsigned {bs : List UInt8} (h : IsForm bs)
    (hle : bs.length ≤ (encodeUnsigned (unsignedSum bs)).length) :
    bs = encodeUnsigned (unsignedSum bs) := by
  -- a form has room for its value, and what is written of a value takes no more room than that
  obtain ⟨hform, hsum⟩ := encodeUnsigned_isForm (unsignedSum bs)
  obtain ⟨k, hk, -⟩ := h.endsAt []
  have hroom := unsignedSum_lt bs
  rw [hk] at hroom
  have hge := length_encodeUnsigned_le_of_lt hroom
  exact h.eq_of_sum_eq hform (by omega) hsum.symm

theorem IsForm.eq_encodeSigned {bs : List UInt8} (h : IsForm bs)
    (hle : bs.length ≤ (encodeSigned (signedSum bs)).length) :
    bs = encodeSigned (signedSum bs) := by
  obtain ⟨hform, hsum⟩ := encodeSigned_isForm (signedSum bs)
  obtain ⟨k, hk, -⟩ := h.endsAt []
  obtain ⟨hlow, hhigh⟩ := h.signedSum_mem hk
  have hge := length_encodeSigned_le_of_mem hlow hhigh
  exact h.eq_of_signedSum_eq hform (by omega) hsum.symm

/-! ### The loops that write -/

/-- **A run of a loop that writes.** In each turn a byte is appended to the buffer, and the loop
goes on with what is left of the value, or ends. -/
inductive Writes {σ : Type} (turn : σ → UInt8 × Option σ) : σ → List UInt8 → List UInt8 → Prop
  | last {v : σ} {b : UInt8} {out : List UInt8} (h : turn v = (b, none)) :
    Writes turn v out (out ++ [b])
  | more {v v' : σ} {b : UInt8} {out out' : List UInt8} (h : turn v = (b, some v'))
    (hrest : Writes turn v' (out ++ [b]) out') : Writes turn v out out'

/-- A turn of the loop for integers without a sign: the low seven bits, and the others if any of
them is set. -/
def unsignedTurn (v : BitVec 32) : UInt8 × Option (BitVec 32) :=
  let b := UInt8.ofNat (v &&& 0x7F).toNat
  let rest := v >>> 7
  if rest = 0 then (b, none) else (b ||| 0x80, some rest)

/-- A turn of the loop for integers with a sign. It is the last one if what is left is made of
copies of bit 6. -/
def signedTurn (v : BitVec 64) : UInt8 × Option (BitVec 64) :=
  let b := UInt8.ofNat (v &&& 0x7F).toNat
  let rest := v.sshiftRight 7
  if (rest = 0 ∧ b &&& 0x40 = 0) ∨ (rest = -1 ∧ b &&& 0x40 ≠ 0) then (b, none)
  else (b ||| 0x80, some rest)

/-- A loop has one run from each value and buffer. -/
theorem Writes.unique {σ : Type} {turn : σ → UInt8 × Option σ} {v : σ} {out out₁ out₂ : List UInt8}
    (h₁ : Writes turn v out out₁) (h₂ : Writes turn v out out₂) : out₁ = out₂ := by
  induction h₁ with
  | last h =>
    cases h₂ with
    | last h' =>
      cases h.symm.trans h'
      rfl
    | more h' _ => cases h.symm.trans h'
  | more h _ ih =>
    cases h₂ with
    | last h' => cases h.symm.trans h'
    | more h' hrest =>
      cases h.symm.trans h'
      exact ih hrest

theorem ofNat_or_top {n : Nat} (h : n < 128) : UInt8.ofNat n ||| 0x80 = UInt8.ofNat (n + 128) := by
  apply UInt8.toNat_inj.mp
  have hor : n ||| 128 = n + 128 := by
    rw [Nat.or_comm, Nat.add_comm]
    exact (Nat.two_pow_add_eq_or_of_lt (i := 7) h 1).symm
  have hn : (UInt8.ofNat n).toNat = n := by
    rw [UInt8.toNat_ofNat']
    omega
  rw [UInt8.toNat_or, hn, UInt8.toNat_ofNat']
  show n ||| 128 = (n + 128) % 2 ^ 8
  rw [hor]
  omega

/-- Shifting out a group divides by 128. -/
theorem toNat_shift (v : BitVec 32) : (v >>> 7).toNat = v.toNat / 128 := by
  rw [BitVec.toNat_ushiftRight, Nat.shiftRight_eq_div_pow]

/-- With copies of the sign coming in, the quotient is rounded down. -/
theorem toInt_shift (v : BitVec 64) : (v.sshiftRight 7).toInt = v.toInt / 128 := by
  rw [BitVec.toInt_sshiftRight, Int.shiftRight_eq_div_pow]
  rfl

/-- A turn in terms of numbers. -/
theorem unsignedTurn_eq (v : BitVec 32) : unsignedTurn v =
    if v.toNat < 128 then (UInt8.ofNat v.toNat, none)
    else (UInt8.ofNat (v.toNat % 128 + 128), some (v >>> 7)) := by
  have hlow : (v &&& 0x7F).toNat = v.toNat % 128 := by
    rw [BitVec.toNat_and]
    exact Nat.and_two_pow_sub_one_eq_mod v.toNat 7
  have hrest : v >>> 7 = 0 ↔ v.toNat < 128 := by
    rw [← BitVec.toNat_inj, toNat_shift]
    show v.toNat / 128 = 0 ↔ v.toNat < 128
    omega
  unfold unsignedTurn
  dsimp only
  rw [hlow, ofNat_or_top (Nat.mod_lt _ (by decide))]
  by_cases hv : v.toNat < 128
  · rw [if_pos hv, if_pos (hrest.mpr hv), Nat.mod_eq_of_lt hv]
  · rw [if_neg hv, if_neg (mt hrest.mp hv)]

theorem signedTurn_eq (v : BitVec 64) : signedTurn v =
    if -64 ≤ v.toInt ∧ v.toInt < 64 then (UInt8.ofNat (v.toInt % 128).toNat, none)
    else (UInt8.ofNat ((v.toInt % 128).toNat + 128), some (v.sshiftRight 7)) := by
  have hlow : (v &&& 0x7F).toNat = (v.toInt % 128).toNat := by
    rw [BitVec.toNat_and, BitVec.toInt_eq_toNat_cond]
    have hmask : v.toNat &&& 127 = v.toNat % 128 := Nat.and_two_pow_sub_one_eq_mod v.toNat 7
    show v.toNat &&& 127 = _
    rw [hmask]
    split
    · omega
    · omega
  have hzero : v.sshiftRight 7 = 0 ↔ v.toInt / 128 = 0 := by
    rw [← BitVec.toInt_inj, toInt_shift]
    rfl
  have hones : v.sshiftRight 7 = -1 ↔ v.toInt / 128 = -1 := by
    rw [← BitVec.toInt_inj, toInt_shift]
    rfl
  have hmod : (v.toInt % 128).toNat < 128 := by omega
  have hsix : UInt8.ofNat (v.toInt % 128).toNat &&& 0x40 = 0 ↔ v.toInt % 128 < 64 := by
    rw [and_six_eq_zero_iff, testBit_six_iff, group_ofNat hmod]
    omega
  unfold signedTurn
  dsimp only
  rw [hlow, ofNat_or_top hmod]
  simp only [ne_eq, hzero, hones, hsix]
  by_cases hv : -64 ≤ v.toInt ∧ v.toInt < 64
  · rw [if_pos hv, if_pos (by omega)]
  · rw [if_neg hv, if_neg (by omega)]

/-- The loop ends, with the bytes of the number behind what was in the buffer. The number becomes
smaller in each turn. -/
theorem writes_unsigned (v : BitVec 32) (out : List UInt8) :
    Writes unsignedTurn v out (out ++ encodeUnsigned v.toNat) := by
  induction h : v.toNat using Nat.strongRecOn generalizing v out with
  | ind n ih =>
    subst h
    rw [encodeUnsigned]
    split
    next hv => exact .last (by rw [unsignedTurn_eq, if_pos hv])
    next hv =>
      -- what is left is a smaller number, and its bytes come behind the one of this turn
      have hrest := ih (v.toNat / 128) (by omega) (v >>> 7)
        (out ++ [UInt8.ofNat (v.toNat % 128 + 128)]) (toNat_shift v)
      rw [← List.append_cons] at hrest
      exact .more (by rw [unsignedTurn_eq, if_neg hv]) hrest

/-- The loop ends for negative numbers, too: what is left comes closer to zero until it is -1. -/
theorem writes_signed (v : BitVec 64) (out : List UInt8) :
    Writes signedTurn v out (out ++ encodeSigned v.toInt) := by
  induction h : v.toInt.natAbs using Nat.strongRecOn generalizing v out with
  | ind n ih =>
    subst h
    rw [encodeSigned]
    split
    next hv => exact .last (by rw [signedTurn_eq, if_pos hv])
    next hv =>
      -- a number that needs more than one byte comes closer to zero when it is divided
      have hsmaller : (v.sshiftRight 7).toInt.natAbs < v.toInt.natAbs := by
        rw [toInt_shift]
        omega
      have hrest := ih _ hsmaller (v.sshiftRight 7)
        (out ++ [UInt8.ofNat ((v.toInt % 128).toNat + 128)]) rfl
      rw [← List.append_cons, toInt_shift] at hrest
      exact .more (by rw [signedTurn_eq, if_neg hv]) hrest

/-! ### Writing in the shortest form -/

/-- **A writer of shortest forms** and the reader that matches it. Words are entered into a loop,
which appends the bytes of the numbers that they stand for. -/
structure WritesShortest {β σ α : Type} (turn : σ → UInt8 × Option σ) (enter : β → σ)
    (value : β → α) (encode : α → List UInt8) (r : Reader α) (limit : Nat) : Prop where
  /-- The loop ends from every value, and does nothing to the buffer but append to it. -/
  writes : ∀ v out out', Writes turn (enter v) out out' ↔ out' = out ++ encode (value v)
  length_le : ∀ v, (encode (value v)).length ≤ limit
  /-- From the old end of the buffer the value is read, up to the new end. -/
  reads : ∀ v out rest, r (.between out (encode (value v) ++ rest))
    = .ok (value v) (.between (out ++ encode (value v)) rest)
  /-- Nothing that is not longer is read as the same value. -/
  shortest : ∀ v c c', r c = .ok (value v) c' → c.rest.length ≤ (encode (value v)).length →
    c.rest = encode (value v)
  /-- Values that are written one after another are read one after another. -/
  readsAll : ∀ (vs : List β) (out rest : List UInt8),
    Reader.times r vs.length (.between out (vs.flatMap (fun v => encode (value v)) ++ rest))
      = .ok (vs.map value) (.between (out ++ vs.flatMap fun v => encode (value v)) rest)

/-- Items that are read wherever they stand are read one after another. -/
theorem times_between {α β : Type} {r : Reader α} {value : β → α} {encode : β → List UInt8}
    (h : ∀ v out rest, r (.between out (encode v ++ rest))
      = .ok (value v) (.between (out ++ encode v) rest))
    (vs : List β) (out rest : List UInt8) :
    Reader.times r vs.length (.between out (vs.flatMap encode ++ rest))
      = .ok (vs.map value) (.between (out ++ vs.flatMap encode) rest) := by
  induction vs generalizing out with
  | nil =>
    rw [List.flatMap_nil, List.append_nil]
    rfl
  | cons v vs ih =>
    rw [List.flatMap_cons, List.append_assoc, List.length_cons, Reader.times,
      bind_of_ok (h v out _), bind_of_ok (ih (out ++ encode v)), List.append_assoc]
    rfl

section

variable {β σ α : Type} {bits : Nat} {sum : List UInt8 → α} {P : α → Prop} {r : Reader α}
  {turn : σ → UInt8 × Option σ} {enter : β → σ} {value : β → α} {encode : α → List UInt8}

/-- A writer whose bytes are the one shortest form of each value that it writes. -/
theorem WritesShortest.of_forms (hr : ReadsIntegers bits sum P r)
    (hform : ∀ n, IsForm (encode n) ∧ sum (encode n) = n)
    (hshortest : ∀ bs, IsForm bs → bs.length ≤ (encode (sum bs)).length → bs = encode (sum bs))
    (hrange : ∀ v, P (value v)) (hlength : ∀ v, (encode (value v)).length ≤ maxLength bits)
    (hwrites : ∀ v out, Writes turn (enter v) out (out ++ encode (value v))) :
    WritesShortest turn enter value encode r (maxLength bits) := by
  have hread : ∀ v out rest, r (.between out (encode (value v) ++ rest))
      = .ok (value v) (.between (out ++ encode (value v)) rest) := by
    intro v out rest
    obtain ⟨hv, hsum⟩ := hform (value v)
    exact hr.eq_ok_iff.mpr ⟨_, rest, hv, hlength v, hsum, hrange v, Cursor.rest_between _ _,
      (Cursor.advance_between _ _ _).symm⟩
  refine ⟨fun v out out' => ⟨fun h => h.unique (hwrites v out), ?_⟩, hlength, hread, ?_,
    times_between hread⟩
  · rintro rfl
    exact hwrites v out
  · intro v c c' hok hle
    obtain ⟨bs, rest, hbs, -, hsum, -, hrest, -⟩ := hr.eq_ok_iff.mp hok
    rw [hrest, List.length_append] at hle
    -- what is read is a form of the value, and as long as the input
    have hsame : bs = encode (value v) := by
      rw [← hsum]
      exact hshortest bs hbs (by rw [hsum]; omega)
    have hnone : rest = [] := by
      apply List.length_eq_zero_iff.mp
      rw [← hsame] at hle
      omega
    rw [hrest, hnone, List.append_nil, hsame]

end

/-- **Integers are written in their one shortest form.** This holds of 32-bit integers without a
sign, and of 32-bit and 64-bit integers with a sign, the former of which are written as the latter:
the loop ends, appends at most 5, 5 and 10 bytes, the matching reader gets the value back from where
they begin and stops where they end, and no other bytes that are as short are read as the value. -/
theorem writes_shortest :
    WritesShortest unsignedTurn id BitVec.toNat encodeUnsigned (unsigned 32) 5 ∧
    WritesShortest signedTurn (BitVec.signExtend 64 : BitVec 32 → BitVec 64) BitVec.toInt
      encodeSigned (signed 32) 5 ∧
    WritesShortest signedTurn id BitVec.toInt encodeSigned (signed 64) 10 := by
  refine ⟨.of_forms (unsigned_readsIntegers 32) encodeUnsigned_isForm
      (fun bs hbs => hbs.eq_encodeUnsigned) BitVec.isLt (fun v => ?_) writes_unsigned,
    .of_forms (signed_readsIntegers 32) encodeSigned_isForm (fun bs hbs => hbs.eq_encodeSigned)
      (fun v => ⟨v.le_toInt, v.toInt_lt⟩) (fun v => ?_) (fun v out => ?_),
    .of_forms (signed_readsIntegers 64) encodeSigned_isForm (fun bs hbs => hbs.eq_encodeSigned)
      (fun v => ⟨v.le_toInt, v.toInt_lt⟩) (fun v => ?_) writes_signed⟩
  · have hlt := v.isLt
    exact length_encodeUnsigned_le_of_lt (k := 4) (by omega)
  · have hlow := v.le_toInt
    have hhigh := v.toInt_lt
    exact length_encodeSigned_le_of_mem (k := 4) (by omega) (by omega)
  · have hentered : (v.signExtend 64).toInt = v.toInt := BitVec.toInt_signExtend_of_le (by decide)
    rw [← hentered]
    exact writes_signed (v.signExtend 64) out
  · have hlow := v.le_toInt
    have hhigh := v.toInt_lt
    exact length_encodeSigned_le_of_mem (k := 9) (by omega) (by omega)

end Leb128

end MeteredSandbox
