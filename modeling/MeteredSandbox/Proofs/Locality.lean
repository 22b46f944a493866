import MeteredSandbox.Proofs.Contents

/-!
# Readers that look at nothing but what they take

A reader is **local** if it could have stopped looking where it stopped reading: the bytes that it
took would have given the same value at any other offset and with anything else behind them
(`Local`). So what a local reader makes of bytes on their own (`Reader.whole`) is what it makes of
them wherever they stand (`Local.reads_of_whole`), and a compound item may be cut into its parts.

Like going forward, the property is closed under sequencing, and it holds of every reader that does
not give its offset away. Here it is shown of the integers of variable length, which are all that
stands between one section of a binary and the next, and used to say what it means that bytes begin
with a name (`Reader.name_iff`).
-/

namespace MeteredSandbox

variable {ε α β : Type}

/-- **Locality.** What a successful reader has taken gives the same value wherever it stands. -/
def Local (r : EStateM ε Cursor α) : Prop :=
  ∀ c a c', r c = .ok a c' →
    ∃ used, c.rest = used ++ c'.rest ∧ c'.offset = c.offset + used.length ∧ Reads r used a

/-- Reading bytes on their own is reading them up to the end. -/
theorem Reader.whole_eq_ok {r : Reader α} {bs : List UInt8} {a : α}
    (h : Reader.whole r bs = .ok a) : ∃ c, r (.start bs) = .ok a c ∧ c.rest = [] := by
  unfold Reader.whole at h
  cases hread : r (.start bs) with
  | error e c =>
    rw [hread] at h
    cases h
  | ok b c =>
    rw [hread] at h
    dsimp only at h
    split at h
    next hend =>
      cases h
      exact ⟨c, rfl, List.isEmpty_iff.mp hend⟩
    next => cases h

namespace Local

theorem pure (a : α) : Local (pure a : EStateM ε Cursor α) := by
  intro c b c' h
  cases h
  exact ⟨[], rfl, rfl, Reads.pure a⟩

/-- A reader that never succeeds. -/
theorem of_error {r : EStateM ε Cursor α} (h : ∀ c, ∃ e c', r c = .error e c') : Local r := by
  intro c a c' hok
  obtain ⟨e, c'', herror⟩ := h c
  rw [herror] at hok
  cases hok

theorem bind {r : EStateM ε Cursor α} {k : α → EStateM ε Cursor β} (hr : Local r)
    (hk : ∀ a, Local (k a)) : Local (r >>= k) := by
  intro c b c'' h
  rw [bind_apply] at h
  cases hfirst : r c with
  | error e c' =>
    rw [hfirst] at h
    cases h
  | ok a c' =>
    rw [hfirst] at h
    obtain ⟨u, hrest, hoffset, hreads⟩ := hr c a c' hfirst
    obtain ⟨v, hrest', hoffset', hreads'⟩ := hk a c' b c'' h
    refine ⟨u ++ v, ?_, ?_, hreads.bind hreads'⟩
    · rw [hrest, hrest', List.append_assoc]
    · rw [hoffset', hoffset, List.length_append, Nat.add_assoc]

theorem ite {p : Prop} [Decidable p] {r r' : EStateM ε Cursor α} (h : Local r) (h' : Local r') :
    Local (if p then r else r') := by
  split
  · exact h
  · exact h'

theorem byte : Local Reader.byte := by
  intro c b c' h
  obtain ⟨hrest, hoffset⟩ := Reader.byte_eq_ok h
  exact ⟨[b], hrest, hoffset, Reads.byte b⟩

/-- The groups of an integer end with the first byte that says so. -/
theorem groups (limit left : Nat) : Local (Leb128.groups limit left) := by
  induction left with
  | zero => exact of_error fun c => ⟨_, c, rfl⟩
  | succ left ih => exact byte.bind fun b => .ite (.pure _) (ih.bind fun _ => .pure _)

theorem unsigned (bits : Nat) : Local (Leb128.unsigned bits) :=
  (groups _ _).bind fun _ => .ite (.pure _) (of_error fun c => ⟨_, c, rfl⟩)

theorem signed (bits : Nat) : Local (Leb128.signed bits) :=
  (groups _ _).bind fun _ => .ite (.pure _) (of_error fun c => ⟨_, c, rfl⟩)

theorem index : Local Reader.index := unsigned 32

/-- Items one after another, by induction on how many there are. -/
theorem times {item : Reader α} (h : Local item) (n : Nat) : Local (Reader.times item n) := by
  induction n with
  | zero => exact .pure []
  | succ n ih => exact h.bind fun _ => ih.bind fun _ => .pure _

theorem vector {item : Reader α} (h : Local item) : Local (Reader.vector item) :=
  index.bind fun n => times h n

/-- **What is read of bytes on their own** is read of them wherever they stand. -/
theorem reads_of_whole {r : Reader α} (hr : Local r) {bs : List UInt8} {a : α}
    (h : Reader.whole r bs = .ok a) : Reads r bs a := by
  obtain ⟨c, hread, hend⟩ := Reader.whole_eq_ok h
  obtain ⟨used, hrest, -, hreads⟩ := hr _ _ _ hread
  -- nothing is left, so all has been used
  have hused : used = bs := by
    rw [hend, List.append_nil] at hrest
    exact hrest.symm
  rwa [hused] at hreads

end Local

/-! ### Names in front -/

/-- The bytes begin with a name: the length of a text, in any form that a reader takes, and as many
bytes that spell a text in UTF-8. -/
def BeginsWithName (bs : List UInt8) : Prop :=
  ∃ size text rest, bs = size ++ (text ++ rest) ∧ Reader.whole .index size = .ok text.length ∧
    text.toByteArray.IsValidUTF8

namespace Reader

/-- Bytes are a name if they are UTF-8. -/
theorem nameOfBytes_of_valid (start : Nat) {bs : List UInt8} (h : bs.toByteArray.IsValidUTF8)
    (c : Cursor) : ∃ text, nameOfBytes start bs c = .ok text c := by
  unfold nameOfBytes String.fromUTF8?
  rw [dif_pos h]
  exact ⟨_, rfl⟩

theorem nameOfBytes_of_not_valid (start : Nat) {bs : List UInt8}
    (h : ¬ bs.toByteArray.IsValidUTF8) (c : Cursor) :
    nameOfBytes start bs c = .error (.invalidName start) c := by
  unfold nameOfBytes String.fromUTF8?
  rw [dif_neg h]
  rfl

/-- Bytes that are read are cut off the front, and what is behind them is a 64-bit offset. -/
theorem bytes_eq_ok {n : Nat} {chunk : List UInt8} {c c' : Cursor}
    (h : Reader.bytes n c = .ok chunk c') :
    c.rest = chunk ++ c'.rest ∧ chunk.length = n ∧ c'.offset = c.offset + n ∧
      c'.offset < 0x1_0000_0000_0000_0000 := by
  unfold Reader.bytes at h
  split at h
  next => cases h
  next hroom =>
    dsimp only at h
    split at h
    next hlength =>
      cases h
      exact ⟨(List.take_append_drop n c.rest).symm, hlength, rfl, Nat.lt_of_not_le hroom⟩
    next => cases h

/-- A byte string with its length in front, in whichever form the length is written. -/
theorem lengthPrefixed_eq_ok {bs chunk : List UInt8} {c : Cursor}
    (h : lengthPrefixed (.start bs) = .ok chunk c) :
    ∃ size, bs = size ++ (chunk ++ c.rest) ∧ Reads index size chunk.length := by
  unfold lengthPrefixed at h
  rw [bind_apply] at h
  cases hindex : index (.start bs) with
  | error e c₁ =>
    rw [hindex] at h
    cases h
  | ok n c₁ =>
    rw [hindex] at h
    obtain ⟨size, hsize, -, hreads⟩ := Local.index _ _ _ hindex
    -- what follows the length is cut where the length says
    obtain ⟨hrest, hlength, -, -⟩ := bytes_eq_ok h
    refine ⟨size, ?_, hlength.symm ▸ hreads⟩
    rw [← hrest]
    exact hsize

/-- The bytes of a name are cut off first, and have to be UTF-8 then. -/
theorem name_runOn (bs : List UInt8) :
    (∃ text c, Reader.name.runOn bs = .ok (text, c)) ↔
      ∃ chunk c, lengthPrefixed (.start bs) = .ok chunk c ∧ chunk.toByteArray.IsValidUTF8 := by
  -- the offset in front of the name is 0, since the bytes are read on their own
  have hname : Reader.name (.start bs) = (lengthPrefixed >>= nameOfBytes 0) (.start bs) := rfl
  unfold runOn
  rw [hname, bind_apply]
  cases lengthPrefixed (.start bs) with
  | error e c => exact iff_of_false (by rintro ⟨text, c', ⟨⟩⟩) (by rintro ⟨chunk, c', ⟨⟩, -⟩)
  | ok chunk c =>
    dsimp only
    by_cases hvalid : chunk.toByteArray.IsValidUTF8
    · obtain ⟨text, htext⟩ := nameOfBytes_of_valid 0 hvalid c
      rw [htext]
      exact iff_of_true ⟨text, c, rfl⟩ ⟨chunk, c, rfl, hvalid⟩
    · rw [nameOfBytes_of_not_valid 0 hvalid]
      refine iff_of_false (by rintro ⟨text, c', ⟨⟩⟩) ?_
      rintro ⟨chunk', c', hsame, hvalid'⟩
      cases hsame
      exact hvalid hvalid'

/-- **A name is read** from bytes that begin with one, and from no others. -/
theorem name_iff {bs : List UInt8} (hroom : bs.length < 0x1_0000_0000_0000_0000) :
    (∃ text c, Reader.name.runOn bs = .ok (text, c)) ↔ BeginsWithName bs := by
  rw [name_runOn]
  constructor
  · rintro ⟨chunk, c, hchunk, hvalid⟩
    obtain ⟨size, hbs, hreads⟩ := lengthPrefixed_eq_ok hchunk
    have hshort : size.length < 0x1_0000_0000_0000_0000 := by
      rw [hbs, List.length_append] at hroom
      omega
    exact ⟨size, chunk, c.rest, hbs, hreads.whole hshort, hvalid⟩
  · rintro ⟨size, text, rest, rfl, hsize, hvalid⟩
    have hreads : Reads lengthPrefixed (size ++ text) text :=
      (Local.index.reads_of_whole hsize).bind (.bytes text)
    rw [← List.append_assoc] at hroom ⊢
    have hchunk := hreads 0 rest (by
      rw [List.length_append] at hroom
      omega)
    exact ⟨text, _, hchunk, hvalid⟩

end Reader

end MeteredSandbox
