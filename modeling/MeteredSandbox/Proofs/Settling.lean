import MeteredSandbox.Proofs.Locality

/-!
# Readers that are settled by what they take

A reader may be run on bytes of which more are still to come, as long as nothing that comes later
changes what it has said. It is **settled** (`Settled`) if what it has passed decides about it:

* the cursor that it leaves is between the place where it started and the end of the input, whether
  it succeeded or failed;
* if it succeeded, it does the same on any input that has the same bytes between these two places;
* if it failed, and not because the input ends, it fails in the same way when bytes are appended.

Locality (`Local`) says less of an input as a whole and more of its parts: there the bytes may stand
at another offset. Here the place stays, so a reader may give its offset away, as those of names
(in an error) and of section headers (in a value) do.

The property is closed under sequencing (`Settled.bind`). What a failure needs for this is that the
part in front of it, which was read, is read again when bytes are appended. The parts are single
bytes, byte strings, and readers that stay where they are and look at nothing but their offset
(`Settled.of_still`). Among the latter is a reader that runs on bytes of its own (`Reader.nested`),
whatever it does with these. The main statement (`readers_settled`) goes through the readers of the
format (`OfFormat`), the vectors of anything settled among them.
-/

namespace MeteredSandbox

variable {α β : Type}

/-! ### Places in an input -/

/-- The cursor at a position of an input. -/
def Cursor.on (input : List UInt8) (position : Nat) : Cursor := ⟨position, input.drop position⟩

/-- Two inputs have the same bytes from `start` up to `stop`. -/
def SameBetween (start stop : Nat) (input input' : List UInt8) : Prop :=
  ∀ i, start ≤ i → i < stop → input'[i]? = input[i]?

namespace SameBetween

variable {start stop start' stop' : Nat} {input input' : List UInt8}

theorem mono (h : SameBetween start stop input input') (hstart : start ≤ start')
    (hstop : stop' ≤ stop) : SameBetween start' stop' input input' :=
  fun i hi hlt => h i (hstart.trans hi) (hlt.trans_le hstop)

/-- Appending bytes leaves those in front of them as they are. -/
theorem append (h : stop ≤ input.length) (more : List UInt8) :
    SameBetween start stop input (input ++ more) :=
  fun _ _ hlt => List.getElem?_append_left (hlt.trans_le h)

/-- An input that has the bytes up to `stop` reaches as far. -/
theorem le_length (h : SameBetween start stop input input') (hstop : stop ≤ input.length)
    (hstart : start ≤ input'.length) : stop ≤ input'.length := by
  by_contra hshort
  -- the first position behind the shorter input would have a byte in one input only
  have hlt : input'.length < stop := Nat.lt_of_not_le hshort
  have hsame : input'[input'.length]? = input[input'.length]? := h _ hstart hlt
  rw [List.getElem?_eq_none le_rfl, List.getElem?_eq_getElem (hlt.trans_le hstop)] at hsame
  cases hsame

/-- The bytes between the two places, as a list. -/
theorem take_drop {n : Nat} (h : SameBetween start (start + n) input input') :
    (input'.drop start).take n = (input.drop start).take n := by
  apply List.ext_getElem?
  intro i
  rw [List.getElem?_take, List.getElem?_take, List.getElem?_drop, List.getElem?_drop]
  split
  next hi => exact h (start + i) (Nat.le_add_right start i) (Nat.add_lt_add_left hi start)
  next => rfl

end SameBetween

/-! ### Being settled -/

/-- The cursor that a run leaves behind, by a success or by a failure. -/
def cursorLeft : EStateM.Result ReadError Cursor α → Cursor
  | .ok _ c => c
  | .error _ c => c

theorem ok_on_inj {a a' : α} {input : List UInt8} {stop stop' : Nat}
    (h : (.ok a (.on input stop) : EStateM.Result ReadError Cursor α) = .ok a' (.on input stop')) :
    a = a' ∧ stop = stop' := by
  obtain ⟨ha, hcursor⟩ := EStateM.Result.ok.inj h
  exact ⟨ha, congrArg Cursor.offset hcursor⟩

theorem error_on_inj {e e' : ReadError} {input : List UInt8} {stop stop' : Nat}
    (h : (.error e (.on input stop) : EStateM.Result ReadError Cursor α)
      = .error e' (.on input stop')) : e = e' ∧ stop = stop' := by
  obtain ⟨he, hcursor⟩ := EStateM.Result.error.inj h
  exact ⟨he, congrArg Cursor.offset hcursor⟩

/-- **Settled readers.** By the first condition every run ends in a place of its input; the others
say what this place decides. -/
structure Settled (r : Reader α) : Prop where
  /-- The cursor goes neither backwards nor past the end of the input. -/
  bounded : ∀ {input start}, start ≤ input.length →
    ∃ stop, start ≤ stop ∧ stop ≤ input.length ∧ cursorLeft (r (.on input start)) = .on input stop
  /-- A success depends on the bytes that were passed, whatever stands around them. -/
  same_value : ∀ {input start stop a}, start ≤ input.length →
    r (.on input start) = .ok a (.on input stop) →
      ∀ {input'}, start ≤ input'.length → SameBetween start stop input input' →
        r (.on input' start) = .ok a (.on input' stop)
  /-- A failure is final unless it is for want of bytes. -/
  same_error : ∀ {input start stop e}, start ≤ input.length →
    r (.on input start) = .error e (.on input stop) → (∀ place, e ≠ .unexpectedEnd place) →
      ∀ more, r (.on (input ++ more) start) = .error e (.on (input ++ more) stop)

namespace Settled

variable {r : Reader α} {k : α → Reader β} {input : List UInt8} {start stop : Nat}

theorem bounded_ok (h : Settled r) (hstart : start ≤ input.length) {a : α} {c : Cursor}
    (hr : r (.on input start) = .ok a c) :
    ∃ stop, start ≤ stop ∧ stop ≤ input.length ∧ c = .on input stop := by
  obtain ⟨stop, hle, hend, hleft⟩ := h.bounded hstart
  rw [hr] at hleft
  exact ⟨stop, hle, hend, hleft⟩

/-- Where a success ends is not in front of where it started, nor behind the input. -/
theorem le_of_ok (h : Settled r) (hstart : start ≤ input.length) {a : α}
    (hr : r (.on input start) = .ok a (.on input stop)) : start ≤ stop ∧ stop ≤ input.length := by
  obtain ⟨stop', hle, hend, hcursor⟩ := h.bounded_ok hstart hr
  have hstop : stop = stop' := congrArg Cursor.offset hcursor
  rw [hstop]
  exact ⟨hle, hend⟩

/-- What was read is read again when bytes are appended. -/
theorem append (h : Settled r) (hstart : start ≤ input.length) {a : α}
    (hr : r (.on input start) = .ok a (.on input stop)) (more : List UInt8) :
    r (.on (input ++ more) start) = .ok a (.on (input ++ more) stop) := by
  have hlonger : start ≤ (input ++ more).length :=
    calc start ≤ input.length := hstart
      _ ≤ (input ++ more).length := (List.prefix_append input more).length_le
  exact h.same_value hstart hr hlonger (.append (h.le_of_ok hstart hr).2 more)

/-- **One after another.** The second reader starts in the place where the first one stops, and that
is the same place on both inputs. -/
theorem bind (hr : Settled r) (hk : ∀ a, Settled (k a)) : Settled (r >>= k) where
  bounded := by
    intro input start hstart
    rw [bind_apply]
    cases hfirst : r (.on input start) with
    | error e c =>
      have hstop := hr.bounded hstart
      rw [hfirst] at hstop
      exact hstop
    | ok a c =>
      obtain ⟨middle, hle, hend, rfl⟩ := hr.bounded_ok hstart hfirst
      obtain ⟨stop, hle', hend', hleft⟩ := (hk a).bounded hend
      exact ⟨stop, hle.trans hle', hend', hleft⟩
  same_value := by
    intro input start stop b hstart hboth input' hstart' hsame
    obtain ⟨a, c, hfirst, hsecond⟩ := exists_of_bind_ok hboth
    obtain ⟨middle, hle, hend, rfl⟩ := hr.bounded_ok hstart hfirst
    have hle' : middle ≤ stop := ((hk a).le_of_ok hend hsecond).1
    -- the inputs agree on what either reader passes
    have hfirst' := hr.same_value hstart hfirst hstart' (hsame.mono le_rfl hle')
    have hend' : middle ≤ input'.length := (hr.le_of_ok hstart' hfirst').2
    calc (r >>= k) (.on input' start)
        = k a (.on input' middle) := bind_of_ok hfirst' k
      _ = .ok b (.on input' stop) := (hk a).same_value hend hsecond hend' (hsame.mono hle le_rfl)
  same_error := by
    intro input start stop e hstart hboth hfinal more
    rw [bind_apply] at hboth
    cases hfirst : r (.on input start) with
    | error e' c =>
      -- the first reader fails, and what it says is final
      rw [hfirst] at hboth
      cases hboth
      exact bind_of_error (hr.same_error hstart hfirst hfinal more) k
    | ok a c =>
      rw [hfirst] at hboth
      obtain ⟨middle, -, hend, rfl⟩ := hr.bounded_ok hstart hfirst
      calc (r >>= k) (.on (input ++ more) start)
          = k a (.on (input ++ more) middle) := bind_of_ok (hr.append hstart hfirst more) k
        _ = .error e (.on (input ++ more) stop) := (hk a).same_error hend hboth hfinal more

theorem ite {p : Prop} [Decidable p] {r r' : Reader α} (h : Settled r) (h' : Settled r') :
    Settled (if p then r else r') := by
  split
  · exact h
  · exact h'

/-! ### Readers that stay where they are -/

/-- **Staying.** A reader that looks at its offset only, and leaves the cursor where it is. -/
theorem of_still (h : ∀ position,
    (∃ a, ∀ rest, r ⟨position, rest⟩ = .ok a ⟨position, rest⟩) ∨
      ∃ e, ∀ rest, r ⟨position, rest⟩ = .error e ⟨position, rest⟩) : Settled r where
  bounded := by
    intro input start hstart
    refine ⟨start, le_rfl, hstart, ?_⟩
    rcases h start with ⟨a, hok⟩ | ⟨e, herror⟩
    · exact congrArg cursorLeft (hok (input.drop start))
    · exact congrArg cursorLeft (herror (input.drop start))
  same_value := by
    intro input start stop a hstart hr input' hstart' hsame
    rcases h start with ⟨a', hok⟩ | ⟨e, herror⟩
    · obtain ⟨rfl, rfl⟩ := ok_on_inj ((hok (input.drop start)).symm.trans hr)
      exact hok (input'.drop start)
    · cases (herror (input.drop start)).symm.trans hr
  same_error := by
    intro input start stop e hstart hr hfinal more
    rcases h start with ⟨a, hok⟩ | ⟨e', herror⟩
    · cases (hok (input.drop start)).symm.trans hr
    · obtain ⟨rfl, rfl⟩ := error_on_inj ((herror (input.drop start)).symm.trans hr)
      exact herror ((input ++ more).drop start)

theorem pure (a : α) : Settled (pure a : Reader α) :=
  of_still fun _ => .inl ⟨a, fun _ => rfl⟩

theorem throw (e : ReadError) : Settled (throw e : Reader α) :=
  of_still fun _ => .inr ⟨e, fun _ => rfl⟩

theorem offset : Settled Reader.offset :=
  of_still fun position => .inl ⟨position, fun _ => rfl⟩

theorem malformed (what : Malformation) : Settled (Reader.malformed what : Reader α) :=
  of_still fun position => .inr ⟨.malformed position what, fun _ => rfl⟩

theorem overflow (bits : Nat) : Settled (Leb128.overflow bits : Reader α) :=
  of_still fun position => .inr ⟨.integerOverflow bits position, fun _ => rfl⟩

/-- Bytes that are read on a cursor of their own. Where this is, and what is around it, they do not
see, so nothing is asked of their reader. -/
theorem nested (r : Reader α) (payload : List UInt8) : Settled (Reader.nested r payload) := by
  refine of_still fun position => ?_
  unfold Reader.nested
  cases r (.start payload) with
  | ok a c => exact .inl ⟨a, fun _ => rfl⟩
  | error e c => exact .inr ⟨e, fun _ => rfl⟩

end Settled

/-! ### Bytes -/

namespace Reader

variable {input : List UInt8} {start : Nat}

theorem byte_on (input : List UInt8) (start : Nat) : byte (.on input start) =
    match input[start]? with
    | some b => .ok b (.on input (start + 1))
    | none => .error (.unexpectedEnd start) (.on input start) := by
  by_cases hlt : start < input.length
  · have hrest : input.drop start = input[start] :: input.drop (start + 1) :=
      List.drop_eq_getElem_cons hlt
    rw [List.getElem?_eq_getElem hlt]
    unfold byte Cursor.on
    rw [hrest]
  · have hnone : input.drop start = [] := List.drop_eq_nil_of_le (Nat.le_of_not_lt hlt)
    rw [List.getElem?_eq_none (Nat.le_of_not_lt hlt)]
    unfold byte Cursor.on
    rw [hnone]

/-- Bytes are there if the input reaches as far. -/
theorem bytes_on (n : Nat) (hstart : start ≤ input.length) : bytes n (.on input start) =
    if 0x1_0000_0000_0000_0000 ≤ start + n then
      .error (.malformed start .lengthOverflow) (.on input start)
    else if start + n ≤ input.length then
      .ok ((input.drop start).take n) (.on input (start + n))
    else .error (.unexpectedEnd start) (.on input start) := by
  have hlength : ((input.drop start).take n).length = n ↔ start + n ≤ input.length := by
    rw [List.length_take, List.length_drop]
    omega
  unfold bytes Cursor.on
  simp only [hlength, List.drop_drop]

theorem byte_error_stays {c c' : Cursor} {e : ReadError} (h : byte c = .error e c') : c' = c := by
  unfold byte at h
  split at h
  · cases h
    rfl
  · cases h

theorem bytes_error_stays {n : Nat} {c c' : Cursor} {e : ReadError} (h : bytes n c = .error e c') :
    c' = c := by
  unfold bytes at h
  split at h
  · cases h
    rfl
  · dsimp only at h
    split at h
    · cases h
    · cases h
      rfl

theorem littleEndian_error_stays {count : Nat} {c c' : Cursor} {e : ReadError}
    (h : littleEndian count c = .error e c') : c' = c := by
  unfold littleEndian at h
  rw [bind_apply] at h
  cases hbytes : bytes count c with
  | ok bs c₁ =>
    rw [hbytes] at h
    cases h
  | error e₁ c₁ =>
    rw [hbytes] at h
    cases h
    exact bytes_error_stays hbytes

end Reader

namespace Settled

theorem byte : Settled Reader.byte where
  bounded := by
    intro input start hstart
    rw [Reader.byte_on]
    cases hb : input[start]? with
    | none => exact ⟨start, le_rfl, hstart, rfl⟩
    | some b =>
      have hlt : start < input.length := (List.getElem?_eq_some_iff.mp hb).1
      exact ⟨start + 1, Nat.le_succ start, hlt, rfl⟩
  same_value := by
    intro input start stop b hstart hr input' hstart' hsame
    rw [Reader.byte_on] at hr ⊢
    cases hb : input[start]? with
    | none =>
      rw [hb] at hr
      cases hr
    | some b' =>
      rw [hb] at hr
      obtain ⟨rfl, rfl⟩ := ok_on_inj hr
      rw [hsame start le_rfl (Nat.lt_succ_self start), hb]
  same_error := by
    intro input start stop e hstart hr hfinal more
    rw [Reader.byte_on] at hr
    -- the one way to fail is that the input ends
    cases hb : input[start]? with
    | none =>
      rw [hb] at hr
      obtain ⟨rfl, -⟩ := error_on_inj hr
      exact absurd rfl (hfinal start)
    | some b =>
      rw [hb] at hr
      cases hr

theorem bytes (n : Nat) : Settled (Reader.bytes n) where
  bounded := by
    intro input start hstart
    rw [Reader.bytes_on n hstart]
    split
    next => exact ⟨start, le_rfl, hstart, rfl⟩
    next =>
      split
      next hend => exact ⟨start + n, Nat.le_add_right start n, hend, rfl⟩
      next => exact ⟨start, le_rfl, hstart, rfl⟩
  same_value := by
    intro input start stop bs hstart hr input' hstart' hsame
    rw [Reader.bytes_on n hstart] at hr
    rw [Reader.bytes_on n hstart']
    -- the other input need not be as long, but it reaches as far as the bytes do
    split at hr
    next => cases hr
    next hroom =>
      split at hr
      next hend =>
        obtain ⟨rfl, rfl⟩ := ok_on_inj hr
        rw [if_neg hroom, if_pos (hsame.le_length hend hstart'), hsame.take_drop]
      next => cases hr
  same_error := by
    intro input start stop e hstart hr hfinal more
    have hlonger : start ≤ (input ++ more).length :=
      hstart.trans (List.prefix_append input more).length_le
    rw [Reader.bytes_on n hstart] at hr
    rw [Reader.bytes_on n hlonger]
    split at hr
    next hroom =>
      -- whether the length can be counted does not depend on the input
      obtain ⟨rfl, rfl⟩ := error_on_inj hr
      rw [if_pos hroom]
    next =>
      split at hr
      next => cases hr
      next =>
        obtain ⟨rfl, -⟩ := error_on_inj hr
        exact absurd rfl (hfinal start)

theorem littleEndian (count : Nat) : Settled (Reader.littleEndian count) :=
  (bytes count).bind fun _ => pure _

/-- The groups of an integer, by induction on how many there may be. -/
theorem groups (limit left : Nat) : Settled (Leb128.groups limit left) := by
  induction left with
  | zero => exact of_still fun position => .inr ⟨.integerTooLong limit position, fun _ => rfl⟩
  | succ left ih => exact byte.bind fun b => .ite (pure _) (ih.bind fun _ => pure _)

theorem unsigned (bits : Nat) : Settled (Leb128.unsigned bits) :=
  (groups _ _).bind fun _ => .ite (pure _) (overflow bits)

theorem signed (bits : Nat) : Settled (Leb128.signed bits) :=
  (groups _ _).bind fun _ => .ite (pure _) (overflow bits)

theorem index : Settled Reader.index := unsigned 32

theorem lengthPrefixed : Settled Reader.lengthPrefixed :=
  index.bind fun length => bytes length

theorem nameOfBytes (start : Nat) (bs : List UInt8) : Settled (Reader.nameOfBytes start bs) := by
  unfold Reader.nameOfBytes
  cases String.fromUTF8? bs.toByteArray with
  | some name => exact pure name
  | none => exact throw _

theorem name : Settled Reader.name :=
  offset.bind fun start => lengthPrefixed.bind fun bs => nameOfBytes start bs

/-- Items one after another, by induction on how many there are. -/
theorem times {item : Reader α} (h : Settled item) (n : Nat) : Settled (Reader.times item n) := by
  induction n with
  | zero => exact pure []
  | succ n ih => exact h.bind fun _ => ih.bind fun _ => pure _

theorem vector {item : Reader α} (h : Settled item) : Settled (Reader.vector item) :=
  index.bind fun n => times h n

/-! ### Items of sections -/

theorem sectionId : Settled Reader.sectionId := by
  refine offset.bind fun start => byte.bind fun b => ?_
  cases SectionId.ofByte? b with
  | some id => exact pure id
  | none => exact throw _

theorem sectionHeader : Settled Reader.sectionHeader :=
  sectionId.bind fun _ => index.bind fun _ => offset.bind fun _ => pure _

theorem valType : Settled Reader.valType := by
  refine byte.bind fun b => ?_
  cases ValType.ofCode? b with
  | some t => exact pure t
  | none => exact malformed _

theorem limits : Settled Reader.limits :=
  byte.bind fun _ => .ite (index.bind fun _ => pure _)
    (.ite (index.bind fun _ => index.bind fun _ => pure _) (malformed _))

theorem funcType : Settled Reader.funcType :=
  byte.bind fun _ => .ite (valType.vector.bind fun _ => valType.vector.bind fun _ => pure _)
    (malformed _)

theorem table : Settled Reader.table :=
  byte.bind fun _ => .ite limits (malformed _)

theorem globalType : Settled Reader.globalType :=
  valType.bind fun _ => byte.bind fun _ => .ite (pure _) (.ite (pure _) (malformed _))

theorem constant : Settled Reader.constant :=
  byte.bind fun _ => .ite ((signed 32).bind fun _ => pure _) <|
    .ite ((signed 64).bind fun _ => pure _) <|
    .ite ((littleEndian 4).bind fun _ => pure _) <|
    .ite ((littleEndian 8).bind fun _ => pure _) <|
    .ite (index.bind fun _ => pure _) (malformed _)

theorem constExpr : Settled Reader.constExpr :=
  constant.bind fun _ => byte.bind fun _ => .ite (pure _) (malformed _)

theorem importKind : Settled Reader.importKind :=
  byte.bind fun _ => .ite (index.bind fun _ => pure _) <|
    .ite (table.bind fun _ => pure _) <|
    .ite (limits.bind fun _ => pure _) <|
    .ite (globalType.bind fun _ => pure _) (malformed _)

theorem importEntry : Settled Reader.importEntry :=
  name.bind fun _ => name.bind fun _ => importKind.bind fun _ => pure _

theorem exportKind : Settled Reader.exportKind :=
  byte.bind fun _ => index.bind fun _ =>
    .ite (pure _) (.ite (pure _) (.ite (pure _) (.ite (pure _) (malformed _))))

theorem exportEntry : Settled Reader.exportEntry :=
  name.bind fun _ => exportKind.bind fun _ => pure _

theorem memories : Settled Reader.memories :=
  limits.vector.bind fun _ => .ite (pure _) (malformed _)

theorem global : Settled Reader.global :=
  globalType.bind fun _ => constExpr.bind fun _ => pure _

theorem elementSegment : Settled Reader.elementSegment :=
  index.bind fun _ => .ite
    (constExpr.bind fun _ => index.vector.bind fun _ => pure _) (malformed _)

theorem dataSegment : Settled Reader.dataSegment :=
  index.bind fun _ => .ite
    (constExpr.bind fun _ => lengthPrefixed.bind fun _ => pure _) (malformed _)

theorem localRun : Settled Reader.localRun :=
  index.bind fun _ => valType.bind fun _ => pure _

/-- What stands in a body is read up to the end of the body, which is not the end of the input. -/
theorem codeEntry : Settled Reader.codeEntry :=
  lengthPrefixed.bind fun payload => nested Reader.codeContent payload

/-- What stands in a body is not settled: it goes on as far as there are bytes. -/
theorem not_codeContent : ¬ Settled Reader.codeContent := by
  intro h
  have hread : Reader.codeContent (.on [0x00, 0x0B] 0)
      = .ok { locals := [], body := [0x0B] } (.on [0x00, 0x0B] 2) := rfl
  have hlonger : Reader.codeContent (.on [0x00, 0x0B, 0x0B] 0)
      = .ok { locals := [], body := [0x0B, 0x0B] } (.on [0x00, 0x0B, 0x0B] 3) := rfl
  -- with one more byte behind it, the body that was read should be read again
  have hsame := h.append (Nat.zero_le 2) hread [0x0B]
  cases hlonger.symm.trans hsame

end Settled

/-! ### The readers of the format -/

/-- **The readers of the format**: bytes and integers, what is made of them with a length or a count
in front, and the items that stand in sections. -/
inductive OfFormat : {α : Type} → Reader α → Prop where
  | byte : OfFormat Reader.byte
  | bytes (n : Nat) : OfFormat (Reader.bytes n)
  | littleEndian (count : Nat) : OfFormat (Reader.littleEndian count)
  | unsigned (bits : Nat) : OfFormat (Leb128.unsigned bits)
  | signed (bits : Nat) : OfFormat (Leb128.signed bits)
  | lengthPrefixed : OfFormat Reader.lengthPrefixed
  | name : OfFormat Reader.name
  | sectionHeader : OfFormat Reader.sectionHeader
  /-- A vector of any items whose reader is settled, of the format or not. -/
  | vector {α : Type} {item : Reader α} (h : Settled item) : OfFormat (Reader.vector item)
  | valType : OfFormat Reader.valType
  | limits : OfFormat Reader.limits
  | funcType : OfFormat Reader.funcType
  | table : OfFormat Reader.table
  | globalType : OfFormat Reader.globalType
  | constExpr : OfFormat Reader.constExpr
  | importEntry : OfFormat Reader.importEntry
  | exportEntry : OfFormat Reader.exportEntry
  | memories : OfFormat Reader.memories
  | global : OfFormat Reader.global
  | elementSegment : OfFormat Reader.elementSegment
  | dataSegment : OfFormat Reader.dataSegment
  | localRun : OfFormat Reader.localRun
  | codeEntry : OfFormat Reader.codeEntry

/-- Every reader of the format is settled, one case for each. -/
theorem OfFormat.settled {r : Reader α} (h : OfFormat r) : Settled r := by
  cases h with
  | byte => exact .byte
  | bytes n => exact .bytes n
  | littleEndian count => exact .littleEndian count
  | unsigned bits => exact .unsigned bits
  | signed bits => exact .signed bits
  | lengthPrefixed => exact .lengthPrefixed
  | name => exact .name
  | sectionHeader => exact .sectionHeader
  | vector hitem => exact hitem.vector
  | valType => exact .valType
  | limits => exact .limits
  | funcType => exact .funcType
  | table => exact .table
  | globalType => exact .globalType
  | constExpr => exact .constExpr
  | importEntry => exact .importEntry
  | exportEntry => exact .exportEntry
  | memories => exact .memories
  | global => exact .global
  | elementSegment => exact .elementSegment
  | dataSegment => exact .dataSegment
  | localRun => exact .localRun
  | codeEntry => exact .codeEntry

/-- **Readers are local and monotone.** Every reader of the format is settled: its cursor stays
between its start and the end of the input, a success is repeated wherever the bytes that were
passed stand in the same place, and a failure that is not for want of bytes is repeated when bytes
are appended. A byte, a byte string or a number of fixed width that is not read leaves the cursor
where it was. -/
theorem readers_settled :
    (∀ {α : Type} {r : Reader α}, OfFormat r → Settled r) ∧
    (∀ {c c' : Cursor} {e : ReadError}, Reader.byte c = .error e c' → c' = c) ∧
    (∀ {n : Nat} {c c' : Cursor} {e : ReadError}, Reader.bytes n c = .error e c' → c' = c) ∧
    (∀ {count : Nat} {c c' : Cursor} {e : ReadError},
      Reader.littleEndian count c = .error e c' → c' = c) :=
  ⟨OfFormat.settled, Reader.byte_error_stays, Reader.bytes_error_stays,
    Reader.littleEndian_error_stays⟩

/-- A vector of one signature, which is read again where other bytes stand around it; a vector whose
signature begins with the wrong byte, whatever comes later; and three bytes of which there are
two. -/
theorem signatures_settled :
    OfFormat (Reader.vector Reader.funcType) ∧
    Reader.vector Reader.funcType (.on [0x00, 0x01, 0x60, 0x01, 0x7F, 0x00] 1)
      = .ok [{ params := [.i32], results := [] }] (.on [0x00, 0x01, 0x60, 0x01, 0x7F, 0x00] 6) ∧
    Reader.vector Reader.funcType (.on [0xFF, 0x01, 0x60, 0x01, 0x7F, 0x00, 0x60] 1)
      = .ok [{ params := [.i32], results := [] }]
        (.on [0xFF, 0x01, 0x60, 0x01, 0x7F, 0x00, 0x60] 6) ∧
    Reader.vector Reader.funcType (.on [0x01, 0x61] 0)
      = .error (.malformed 2 .functionForm) (.on [0x01, 0x61] 2) ∧
    (∀ more, Reader.vector Reader.funcType (.on ([0x01, 0x61] ++ more) 0)
      = .error (.malformed 2 .functionForm) (.on ([0x01, 0x61] ++ more) 2)) ∧
    ∃ e c, Reader.bytes 3 (.on [0x01, 0x02] 0) = .error e c ∧ c = .on [0x01, 0x02] 0 := by
  obtain ⟨hsettled, -, hbytes, -⟩ := readers_settled
  have hvector : OfFormat (Reader.vector Reader.funcType) := .vector (hsettled .funcType)
  have hread : Reader.vector Reader.funcType (.on [0x00, 0x01, 0x60, 0x01, 0x7F, 0x00] 1)
      = .ok [{ params := [.i32], results := [] }]
        (.on [0x00, 0x01, 0x60, 0x01, 0x7F, 0x00] 6) := rfl
  have hrefused : Reader.vector Reader.funcType (.on [0x01, 0x61] 0)
      = .error (.malformed 2 .functionForm) (.on [0x01, 0x61] 2) := rfl
  have hsame : SameBetween 1 6 [0x00, 0x01, 0x60, 0x01, 0x7F, 0x00]
      [0xFF, 0x01, 0x60, 0x01, 0x7F, 0x00, 0x60] := by
    -- the bytes that differ are the one in front of the vector and the one behind it
    intro i hle hlt
    interval_cases i <;> rfl
  have hshort : Reader.bytes 3 (.on [0x01, 0x02] 0)
      = .error (.unexpectedEnd 0) (.on [0x01, 0x02] 0) := rfl
  refine ⟨hvector, hread, ?_, hrefused, fun more => ?_, _, _, hshort, hbytes hshort⟩
  · exact (hsettled hvector).same_value (by decide) hread (by decide) hsame
  · exact (hsettled hvector).same_error (by decide) hrefused (fun _ => ReadError.noConfusion) more

end MeteredSandbox
