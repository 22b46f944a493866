import MeteredSandbox.Proofs.Sectioning
import MeteredSandbox.Proofs.Shortest

/-!
# Modules that are cut off

A module that was cut off somewhere is not taken for another module. If the cut falls into the
preamble or into a section, whatever is read last is incomplete, and the reader says so
(`Starves`). Like reading (`Reads`) this is closed under sequencing, since all that stands in front
of the cut is read as before; so it is enough to look at single bytes, byte strings and integers of
variable length. An integer that is cut off is one of which all bytes have the top bit set, and they
are fewer than a reader would put up with.

If the cut falls between two sections, there is nothing incomplete. The sections in front of it are
put in their places as they were before, and of the kinds that stand behind it the module has
nothing (`Module.within`). What may be wrong with such a module is that its functions have no bodies
any more. Nothing else is, because all other checks look at one section, or at sections in front of
it (`Module.parse_truncated`).
-/

namespace MeteredSandbox

variable {α β : Type}

/-- A cut through two things falls into the first of them or behind it. -/
theorem cut_append {cut xs ys : List α} (h : cut <+: xs ++ ys) :
    (cut <+: xs ∧ cut.length < xs.length) ∨ ∃ more, cut = xs ++ more ∧ more <+: ys := by
  by_cases hlength : cut.length < xs.length
  · exact .inl ⟨List.prefix_of_prefix_length_le h (List.prefix_append xs ys) hlength.le, hlength⟩
  · obtain ⟨more, rfl⟩ : xs <+: cut :=
      List.prefix_of_prefix_length_le (List.prefix_append xs ys) h (Nat.le_of_not_lt hlength)
    exact .inr ⟨more, rfl, (List.prefix_append_right_inj xs).mp h⟩

/-- **Starving.** Of `bs` the last bytes are missing, and the reader says that the input ends. -/
def Starves (r : Reader α) (bs : List UInt8) : Prop :=
  ∀ offset front, front <+: bs → front.length < bs.length →
    offset + bs.length < 0x1_0000_0000_0000_0000 →
    ∃ place c, r ⟨offset, front⟩ = .error (.unexpectedEnd place) c

namespace Starves

/-- Of no bytes none can be missing. -/
theorem nil (r : Reader α) : Starves r [] :=
  fun _ front _ hlength _ => absurd hlength (Nat.not_lt_zero front.length)

/-- **One after another.** Either the first reader starves, or it reads what it would have read and
the second one starves. -/
theorem bind {r : Reader α} {k : α → Reader β} {bs cs : List UInt8} {a : α} (hread : Reads r bs a)
    (hr : Starves r bs) (hk : Starves (k a) cs) : Starves (r >>= k) (bs ++ cs) := by
  intro offset front hfront hlength hroom
  rw [List.length_append] at hlength hroom
  rcases cut_append hfront with ⟨hfirst, hcut⟩ | ⟨more, rfl, hmore⟩
  · -- the first reader is the one that finds bytes missing
    obtain ⟨place, c, herror⟩ := hr offset front hfirst hcut (by omega)
    exact ⟨place, c, bind_of_error herror k⟩
  · rw [List.length_append] at hlength
    obtain ⟨place, c, herror⟩ := hk (offset + bs.length) more hmore (by omega) (by omega)
    refine ⟨place, c, ?_⟩
    calc (r >>= k) ⟨offset, bs ++ more⟩
        = k a ⟨offset + bs.length, more⟩ := bind_of_ok (hread offset more (by omega)) k
      _ = .error (.unexpectedEnd place) c := herror

/-- A reader whose value is made into another. -/
theorem map {r : Reader α} {bs : List UInt8} (h : Starves r bs) (f : α → β) :
    Starves (r >>= fun a => Pure.pure (f a)) bs := by
  intro offset front hfront hlength hroom
  obtain ⟨place, c, herror⟩ := h offset front hfront hlength hroom
  exact ⟨place, c, bind_of_error herror _⟩

/-- A reader that looks at its offset first. -/
theorem offset_bind {k : Nat → Reader β} {bs : List UInt8} (h : ∀ n, Starves (k n) bs) :
    Starves (Reader.offset >>= k) bs := fun offset => h offset offset

/-- Where one byte is missing, nothing is left. -/
theorem byte (b : UInt8) : Starves Reader.byte [b] := by
  intro offset front hfront hlength hroom
  have hnil : front = [] := List.length_eq_zero_iff.mp (Nat.lt_one_iff.mp hlength)
  exact ⟨offset, ⟨offset, front⟩, hnil ▸ rfl⟩

theorem bytes (bs : List UInt8) : Starves (Reader.bytes bs.length) bs := by
  intro offset front hfront hlength hroom
  have hshort : (front.take bs.length).length ≠ bs.length := by
    rw [List.length_take]
    omega
  refine ⟨offset, ⟨offset, front⟩, ?_⟩
  unfold Reader.bytes
  dsimp only
  rw [if_neg (by omega), if_neg hshort]

/-- The byte that says what a section holds. -/
theorem sectionId (b : UInt8) : Starves Reader.sectionId [b] := by
  refine offset_bind fun start offset front hfront hlength hroom => ?_
  obtain ⟨place, c, herror⟩ := byte b offset front hfront hlength hroom
  exact ⟨place, c, bind_of_error herror _⟩

end Starves

namespace Leb128

/-- All bytes of a form but the last have the top bit set. -/
theorem IsForm.goesOn_of_prefix {bs front : List UInt8} (h : IsForm bs) (hfront : front <+: bs)
    (hlength : front.length < bs.length) : ∀ b ∈ front, GoesOn b := by
  induction h generalizing front with
  | last h =>
    have hnil : front = [] := List.length_eq_zero_iff.mp (Nat.lt_one_iff.mp hlength)
    rw [hnil]
    exact List.forall_mem_nil _
  | @more b bs h hbs ih =>
    rcases List.prefix_cons_iff.mp hfront with rfl | ⟨front', rfl, hfront'⟩
    · exact List.forall_mem_nil _
    · exact List.forall_mem_cons.mpr ⟨h, ih hfront' (Nat.lt_of_succ_lt_succ hlength)⟩

namespace ReadsIntegers

variable {bits : Nat} {value : List UInt8 → α} {P : α → Prop} {r : Reader α}

/-- A form that is short enough starves its reader. -/
theorem starves_of_form (hr : ReadsIntegers bits value P r) {bs : List UInt8} (h : IsForm bs)
    (hlength : bs.length ≤ maxLength bits) : Starves r bs := by
  intro offset front hfront hshort hroom
  have hgoes : ∀ b ∈ front, GoesOn b := h.goesOn_of_prefix hfront hshort
  exact ⟨_, _, hr.ended ⟨offset, front⟩ (hshort.trans_le hlength) hgoes⟩

/-- What is read as a whole is a form that is short enough. -/
theorem starves_of_whole (hr : ReadsIntegers bits value P r) {bs : List UInt8} {v : α}
    (h : Reader.whole r bs = .ok v) : Starves r bs := by
  obtain ⟨c, hread, hend⟩ := Reader.whole_eq_ok h
  obtain ⟨form, rest, hform, hlength, -, -, hrest, rfl⟩ := hr.eq_ok_iff.mp hread
  have hsplit : bs = form ++ rest := hrest
  have hnil : rest = [] :=
    calc rest = bs.drop form.length := by rw [hsplit, List.drop_left]
      _ = [] := hend
  rw [hsplit, hnil, List.append_nil]
  exact hr.starves_of_form hform hlength

end ReadsIntegers

end Leb128

/-- An index, a count or a length. -/
theorem Starves.index {bs : List UInt8} {n : Nat} (h : Reader.whole .index bs = .ok n) :
    Starves Reader.index bs :=
  (Leb128.unsigned_readsIntegers 32).starves_of_whole h

/-! ### Cutting into sections -/

/-- The bytes are the preamble and these sections, each behind a length that is its own. -/
structure MadeOf (bytes : List UInt8) (sections : List SectionBytes) : Prop where
  sized : ∀ s ∈ sections, s.Sized
  eq_binary : bytes = binary sections

namespace Reader

/-- What is read as a preamble is the one that there is. -/
theorem preamble_eq_ok {c c' : Cursor} (h : preamble c = .ok () c') :
    c.rest = [0x00, 0x61, 0x73, 0x6D, 0x01, 0x00, 0x00, 0x00] ++ c'.rest ∧
      c'.offset = c.offset + 8 ∧ c'.offset < 0x1_0000_0000_0000_0000 := by
  unfold preamble at h
  obtain ⟨magic, c₁, hmagic, h⟩ := exists_of_bind_ok h
  split at h
  next hword =>
    obtain ⟨version, c₂, hversion, h⟩ := exists_of_bind_ok h
    split at h
    next hone =>
      cases h
      obtain ⟨bs, c₃, hbs, hvalue⟩ := exists_of_bind_ok hversion
      cases hvalue
      obtain ⟨hfirst, -, hoffset₁, -⟩ := bytes_eq_ok hmagic
      obtain ⟨hsecond, hlength, hoffset₂, hroom⟩ := bytes_eq_ok hbs
      -- four bytes that spell the version are the version, written in four bytes
      have hbs : bs = [0x01, 0x00, 0x00, 0x00] :=
        calc bs = LittleEndian.ofNat 4 1 := by
              rw [← LittleEndian.ofNat_toNat bs, hlength, hone]
          _ = [0x01, 0x00, 0x00, 0x00] := rfl
      refine ⟨?_, by omega, hroom⟩
      rw [hfirst, hword, hsecond, hbs]
      rfl
    next => cases h
  next => cases h

/-- A preamble starves its reader. -/
theorem preamble_starves : Starves preamble [0x00, 0x61, 0x73, 0x6D, 0x01, 0x00, 0x00, 0x00] := by
  have hversion : Starves (littleEndian 4) [0x01, 0x00, 0x00, 0x00] :=
    (Starves.bytes [0x01, 0x00, 0x00, 0x00]).map LittleEndian.toNat
  have hone : Reads (littleEndian 4) [0x01, 0x00, 0x00, 0x00] 1 :=
    (Reads.bytes [0x01, 0x00, 0x00, 0x00]).map LittleEndian.toNat
  exact (Starves.bytes [0x00, 0x61, 0x73, 0x6D]).bind (.bytes _) (hversion.bind hone (.nil _))

/-- A section is read as what it holds, its length and its payload. -/
theorem rawSection_eq : rawSection = do
    let id ← sectionId
    let payloadLength ← index
    let payloadOffset ← offset
    let payload ← bytes payloadLength
    return { id, payloadOffset, payload } := by
  unfold rawSection sectionHeader
  simp only [bind_assoc, pure_bind]

theorem sectionId_eq_ok {c c' : Cursor} {id : SectionId} (h : sectionId c = .ok id c') :
    ∃ b, c.rest = b :: c'.rest ∧ c'.offset = c.offset + 1 ∧ SectionId.ofByte? b = some id := by
  unfold sectionId at h
  obtain ⟨start, c₀, hstart, h⟩ := exists_of_bind_ok h
  cases hstart
  obtain ⟨b, c₁, hbyte, h⟩ := exists_of_bind_ok h
  obtain ⟨hrest, hoffset⟩ := byte_eq_ok hbyte
  cases hid : SectionId.ofByte? b with
  | none =>
    rw [hid] at h
    cases h
  | some id' =>
    rw [hid] at h
    cases h
    exact ⟨b, hrest, hoffset, hid⟩

/-- A section that is read was there. -/
theorem rawSection_eq_ok {c c' : Cursor} {raw : RawSection} (h : rawSection c = .ok raw c') :
    ∃ s : SectionBytes, s.Sized ∧ c.rest = s.bytes ++ c'.rest ∧
      c'.offset = c.offset + s.bytes.length ∧ c'.offset < 0x1_0000_0000_0000_0000 := by
  rw [rawSection_eq] at h
  obtain ⟨id, c₁, hid, h⟩ := exists_of_bind_ok h
  obtain ⟨n, c₂, hn, h⟩ := exists_of_bind_ok h
  obtain ⟨start, c₃, hstart, h⟩ := exists_of_bind_ok h
  cases hstart
  obtain ⟨payload, c₄, hpayload, h⟩ := exists_of_bind_ok h
  cases h
  -- each part takes its bytes from the front, and the last one makes sure that offsets fit
  obtain ⟨b, hfirst, hoffset₁, -⟩ := sectionId_eq_ok hid
  obtain ⟨size, hsecond, hoffset₂, hsize⟩ := Local.index _ _ _ hn
  obtain ⟨hthird, hlength, hoffset₃, hroom⟩ := bytes_eq_ok hpayload
  have hbytes : (SectionBytes.mk b size payload).bytes.length
      = size.length + payload.length + 1 := by
    rw [SectionBytes.bytes, List.length_cons, List.length_append]
  refine ⟨⟨b, size, payload⟩, ?_, ?_, by omega, hroom⟩
  · show Reader.whole .index size = .ok payload.length
    rw [hlength]
    exact hsize.whole (by omega)
  · calc c.rest = b :: (size ++ (payload ++ c'.rest)) := by rw [hfirst, hsecond, hthird]
      _ = (SectionBytes.mk b size payload).bytes ++ c'.rest := by
        rw [SectionBytes.bytes, List.cons_append, List.append_assoc]

/-- A section of a known kind starves its reader. -/
theorem rawSection_starves {s : SectionBytes} (hsized : s.Sized) {id : SectionId}
    (hid : SectionId.ofByte? s.id = some id) : Starves rawSection s.bytes := by
  rw [rawSection_eq]
  -- the offset of the payload becomes part of the section, and makes no difference here
  have hpayload : ∀ start, Starves (bytes s.payload.length >>= fun payload =>
      Pure.pure (RawSection.mk id start payload)) s.payload := fun start =>
    (Starves.bytes s.payload).map (RawSection.mk id start)
  have hsize : Reads index s.size s.payload.length := Local.index.reads_of_whole hsized
  exact (Starves.sectionId s.id).bind (RawSection.reads_sectionId hid)
    ((Starves.index hsized).bind hsize (.offset_bind hpayload))

end Reader

namespace RawSection

/-- Bytes that are cut apart to the end are sections. -/
theorem exists_sections_of_all {c : Cursor} (h : (all c).2 = none)
    (hroom : c.offset < 0x1_0000_0000_0000_0000) :
    ∃ sections : List SectionBytes, (∀ s ∈ sections, s.Sized) ∧
      c.rest = sections.flatMap SectionBytes.bytes ∧
      c.offset + c.rest.length < 0x1_0000_0000_0000_0000 := by
  induction c using all.induct with
  | case1 c hend =>
    have hnil : c.rest = [] := List.isEmpty_iff.mp hend
    refine ⟨[], fun s hs => absurd hs List.not_mem_nil, hnil, ?_⟩
    rw [hnil]
    exact hroom
  | case2 c hmore e c' hraw =>
    rw [all_of_error (Bool.eq_false_of_not_eq_true hmore) hraw] at h
    cases h
  | case3 c hmore raw c' hraw hshorter raws broken hall ih =>
    obtain ⟨s, hs, hrest, hoffset, hroom'⟩ := Reader.rawSection_eq_ok hraw
    rw [all_of_rawSection hraw] at h
    obtain ⟨sections, hsized, hsections, hroom''⟩ := ih h hroom'
    have hlength : c.rest.length = s.bytes.length + c'.rest.length := by
      rw [hrest, List.length_append]
    refine ⟨s :: sections, List.forall_mem_cons.mpr ⟨hs, hsized⟩, ?_, by omega⟩
    rw [hrest, hsections, List.flatMap_cons]

/-- A section that is cut off is where the cutting ends. -/
theorem all_of_cut {s : SectionBytes} (hsized : s.Sized) (hknown : s.id.toNat ≤ 11)
    {part : List UInt8} (hpart : part <+: s.bytes) (hne : part ≠ [])
    (hlength : part.length < s.bytes.length) (offset : Nat)
    (hroom : offset + s.bytes.length < 0x1_0000_0000_0000_0000) :
    ∃ place, all ⟨offset, part⟩ = ([], some (.unexpectedEnd place)) := by
  obtain ⟨id, hid⟩ := SectionId.exists_ofByte?_iff.mpr hknown
  obtain ⟨place, c, herror⟩ := Reader.rawSection_starves hsized hid offset part hpart hlength hroom
  have hmore : Cursor.isAtEnd ⟨offset, part⟩ = false := by
    rw [Cursor.isAtEnd, List.isEmpty_eq_false_iff]
    exact hne
  exact ⟨place, all_of_error hmore herror⟩

end RawSection

/-- **Where a cut falls.** Between two sections, or into one. -/
theorem cut_sections {sections : List SectionBytes} {cut : List UInt8}
    (h : cut <+: sections.flatMap SectionBytes.bytes) :
    (∃ front, front <+: sections ∧ cut = front.flatMap SectionBytes.bytes) ∨
    ∃ front s part, front ++ [s] <+: sections ∧ part <+: s.bytes ∧ part ≠ [] ∧
      part.length < s.bytes.length ∧ cut = front.flatMap SectionBytes.bytes ++ part := by
  induction sections generalizing cut with
  | nil => exact .inl ⟨[], List.nil_prefix, List.prefix_nil.mp h⟩
  | cons s sections ih =>
    rw [List.flatMap_cons] at h
    rcases cut_append h with ⟨hpart, hlength⟩ | ⟨more, rfl, hmore⟩
    · by_cases hne : cut = []
      · exact .inl ⟨[], List.nil_prefix, hne⟩
      · exact .inr ⟨[], s, cut, List.prefix_append [s] sections, hpart, hne, hlength, rfl⟩
    · -- the first section is complete, so the question is put to those behind it
      rcases ih hmore with ⟨front, hfront, rfl⟩ | ⟨front, t, part, hfront, hpart, hne, hcut, rfl⟩
      · exact .inl ⟨s :: front, List.cons_prefix_cons.mpr ⟨rfl, hfront⟩, rfl⟩
      · have hfront' : s :: front ++ [t] <+: s :: sections :=
          List.cons_prefix_cons.mpr ⟨rfl, hfront⟩
        refine .inr ⟨s :: front, t, part, hfront', hpart, hne, hcut, ?_⟩
        rw [List.flatMap_cons, List.append_assoc]

/-- The kinds of the sections. -/
def kinds (sections : List SectionBytes) : List SectionId :=
  sections.filterMap fun s => SectionId.ofByte? s.id

theorem mem_kinds {sections : List SectionBytes} {id : SectionId} :
    id ∈ kinds sections ↔ ∃ s ∈ sections, s.id.toNat = id.number := by
  unfold kinds
  rw [List.mem_filterMap]
  simp only [SectionId.ofByte?_eq_some_iff]

theorem not_mem_kinds {sections : List SectionBytes} {id : SectionId}
    (h : ∀ s ∈ sections, s.id.toNat ≠ id.number) : id ∉ kinds sections := by
  intro hmem
  obtain ⟨s, hs, hsame⟩ := mem_kinds.mp hmem
  exact h s hs hsame

namespace Module

/-- The module without what it has of other kinds of section than the given ones. -/
def within (m : Module) (kept : List SectionId) : Module where
  types := if .types ∈ kept then m.types else []
  imports := if .imports ∈ kept then m.imports else []
  funcs := if .functions ∈ kept then m.funcs else []
  tables := if .tables ∈ kept then m.tables else []
  memories := if .memories ∈ kept then m.memories else []
  globals := if .globals ∈ kept then m.globals else []
  exports := if .exports ∈ kept then m.exports else []
  start := if .start ∈ kept then m.start else none
  elements := if .elements ∈ kept then m.elements else []
  codes := if .code ∈ kept then m.codes else []
  data := if .data ∈ kept then m.data else []

section

variable {bytes : List UInt8} {sections front : List SectionBytes} {m : Module}
  {kept : List SectionId} {id : SectionId}

theorem only_within_of_mem (h : id ∈ kept) : (m.within kept).only id = m.only id := by
  cases id with
  | custom => rfl
  | types | imports | functions | tables | memories | globals | exports | start | elements | code
  | data => simp only [only, within, if_pos h]

theorem only_within_of_not_mem (h : id ∉ kept) : (m.within kept).only id = {} := by
  cases id with
  | custom => rfl
  | types | imports | functions | tables | memories | globals | exports | start | elements | code
  | data => simp only [only, within, if_neg h]

/-- **The sections in front of a cut** are put into their places as they were before. -/
theorem Sectionwise.continues_front (h : Sectionwise sections m) (hfront : front <+: sections) :
    Continues { content := {}, last := none } front (m.within (kinds front)) := by
  -- what is in order and holds for all sections is in order and holds for the first of them
  have hsub : (numbers front).Sublist (numbers sections) := (hfront.sublist.map _).filter _
  refine ⟨h.ordered.sublist hsub, fun s hs id hid => ?_, fun id hid => ?_⟩
  · have hkept : id ∈ kinds front := mem_kinds.mpr ⟨s, hs, hid⟩
    exact (has_congr (only_within_of_mem hkept)).mpr (h.held s (hfront.subset hs) id hid)
  · rw [only_within_of_not_mem (not_mem_kinds hid)]
    exact (only_empty id).symm

/-- **Sections that fit together, and a part behind them** that does not begin with another one. -/
theorem parse_binary_append {part : List UInt8} {broken : Option ReadError}
    (hsized : ∀ s ∈ front, s.Sized) (hknown : ∀ s ∈ front, s.id.toNat ≤ 11)
    (hroom : (binary front).length < 0x1_0000_0000_0000_0000)
    (hfits : Continues { content := {}, last := none } front m)
    (hpart : RawSection.all ⟨(binary front).length, part⟩ = ([], broken)) :
    parse (binary front ++ part) = match broken with
      | some e => .error e
      | none => if m.funcs.length = m.codes.length then .ok m
          else .error (.malformed (binary front ++ part).length .bodyCount) := by
  -- the sections are cut off as if nothing came behind them, and put into their places first
  rw [length_binary] at hpart
  obtain ⟨raws, hcut, hall⟩ := RawSection.all_append_of_known hsized hknown 8 part
    (length_binary front ▸ hroom)
  rw [hpart, List.append_nil] at hall
  obtain ⟨last, hplaced⟩ :=
    (foldlM_place_iff hcut (payload_length_lt hroom) { content := {}, last := none } m).mpr hfits
  have hbytes : binary front ++ part = [0x00, 0x61, 0x73, 0x6D, 0x01, 0x00, 0x00, 0x00]
      ++ (front.flatMap SectionBytes.bytes ++ part) := List.append_assoc _ _ _
  unfold parse
  rw [hbytes, preamble_runOn, ok_bind]
  dsimp only
  rw [hall]
  dsimp only
  rw [hplaced, ok_bind]
  cases broken with
  | some e => rfl
  | none => rfl

theorem length_binary_le (h : front <+: sections) :
    (binary front).length ≤ (binary sections).length := by
  obtain ⟨back, rfl⟩ := h
  rw [length_binary, length_binary, List.flatMap_append, List.length_append]
  omega

/-- The bytes of an accepted module are a preamble and sections. -/
theorem exists_madeOf (h : parse bytes = .ok m) :
    ∃ sections, MadeOf bytes sections ∧ bytes.length < 0x1_0000_0000_0000_0000 := by
  unfold parse Reader.runOn at h
  cases hpreamble : Reader.preamble (.start bytes) with
  | error e c =>
    rw [hpreamble] at h
    cases h
  | ok u c =>
    obtain ⟨hrest, hoffset, hroom⟩ := Reader.preamble_eq_ok hpreamble
    rw [hpreamble] at h
    obtain ⟨v, hstart, h⟩ := exists_of_bind_eq_ok h
    cases hstart
    obtain ⟨draft, hplaced, h⟩ := exists_of_bind_eq_ok h
    -- an error of the cutting would have been the error of the whole
    have hall : (RawSection.all c).2 = none := by
      cases hbroken : (RawSection.all c).2 with
      | none => rfl
      | some e =>
        rw [hbroken] at h
        cases h
    obtain ⟨sections, hsized, hsections, hroom'⟩ := RawSection.exists_sections_of_all hall hroom
    have hbytes : bytes = binary sections := by
      unfold binary
      rw [← hsections]
      exact hrest
    refine ⟨sections, ⟨hsized, hbytes⟩, ?_⟩
    rw [hbytes, length_binary, ← hsections]
    have hstart : (Cursor.start bytes).offset = 0 := rfl
    omega

/-- **A cut between two sections.** The sections in front of it make their part of the module, if it
has as many bodies as functions. -/
theorem parse_between (h : Sectionwise sections m) (hsized : ∀ s ∈ sections, s.Sized)
    (hroom : (binary sections).length < 0x1_0000_0000_0000_0000) (hfront : front <+: sections) :
    parse (binary front) =
      if (m.within (kinds front)).funcs.length = (m.within (kinds front)).codes.length then
        .ok (m.within (kinds front))
      else .error (.malformed (binary front).length .bodyCount) := by
  have hend : RawSection.all ⟨(binary front).length, []⟩ = ([], none) := by
    rw [RawSection.all]
    rfl
  have hroom' := (length_binary_le hfront).trans_lt hroom
  have hparse := parse_binary_append (fun s hs => hsized s (hfront.subset hs))
    (fun s hs => h.known s (hfront.subset hs)) hroom' (h.continues_front hfront) hend
  rwa [List.append_nil] at hparse

/-- **A cut into a section.** The sections in front of it do not fail, so the input ends first. -/
theorem parse_inside (h : Sectionwise sections m) (hsized : ∀ s ∈ sections, s.Sized)
    (hroom : (binary sections).length < 0x1_0000_0000_0000_0000) {s : SectionBytes}
    {part : List UInt8} (hfront : front ++ [s] <+: sections) (hpart : part <+: s.bytes)
    (hne : part ≠ []) (hlength : part.length < s.bytes.length) :
    ∃ place, parse (binary front ++ part) = .error (.unexpectedEnd place) := by
  have hfront' : front <+: sections := (List.prefix_append front [s]).trans hfront
  have hs : s ∈ sections := hfront.subset (List.mem_append_right front List.mem_cons_self)
  have hroom' : (binary front).length + s.bytes.length < 0x1_0000_0000_0000_0000 :=
    calc (binary front).length + s.bytes.length
        = (binary (front ++ [s])).length := by
          rw [length_binary, length_binary, List.flatMap_append, List.length_append,
            List.flatMap_singleton, Nat.add_assoc]
      _ ≤ (binary sections).length := length_binary_le hfront
      _ < _ := hroom
  obtain ⟨place, hcut⟩ := RawSection.all_of_cut (hsized s hs) (h.known s hs) hpart hne hlength
    (binary front).length hroom'
  refine ⟨place, ?_⟩
  exact parse_binary_append (fun s hs => hsized s (hfront'.subset hs))
    (fun s hs => h.known s (hfront'.subset hs)) (by omega) (h.continues_front hfront') hcut

/-- A cut into the preamble. -/
theorem parse_preamble_cut {cut : List UInt8}
    (h : cut <+: [0x00, 0x61, 0x73, 0x6D, 0x01, 0x00, 0x00, 0x00]) (hlength : cut.length < 8) :
    ∃ place, parse cut = .error (.unexpectedEnd place) := by
  obtain ⟨place, c, herror⟩ := Reader.preamble_starves 0 cut h hlength (by decide)
  have hstart : Reader.preamble (.start cut) = .error (.unexpectedEnd place) c := herror
  refine ⟨place, ?_⟩
  unfold parse Reader.runOn
  rw [hstart]
  rfl

/-- **Truncated modules are not accepted by accident.** The bytes of a module that is accepted are a
preamble and sections. Cut off behind some of the sections, they spell what the module has of these
kinds and nothing of the others, unless that leaves functions without bodies, and this is the only
error there may be. Cut off anywhere else, they are refused because the input ends. -/
theorem parse_truncated (h : parse bytes = .ok m) :
    (∃ sections, MadeOf bytes sections) ∧
    ∀ sections, MadeOf bytes sections → ∀ cut, cut <+: bytes →
      (∀ front, front <+: sections → cut = binary front →
        parse cut =
          if (m.within (kinds front)).funcs.length = (m.within (kinds front)).codes.length then
            .ok (m.within (kinds front))
          else .error (.malformed cut.length .bodyCount)) ∧
      ((∀ front, front <+: sections → cut ≠ binary front) →
        ∃ place, parse cut = .error (.unexpectedEnd place)) := by
  obtain ⟨sections₀, hmade₀, hroom⟩ := exists_madeOf h
  refine ⟨⟨sections₀, hmade₀⟩, fun sections hmade cut hcut => ?_⟩
  -- however the bytes are cut apart, the module is that of the sections
  obtain ⟨hsized, rfl⟩ := hmade
  have hsectionwise : Sectionwise sections m := (parse_iff hsized hroom).mp h
  refine ⟨fun front hfront hbetween => ?_, fun hinside => ?_⟩
  · rw [hbetween]
    exact parse_between hsectionwise hsized hroom hfront
  · rcases cut_append hcut with ⟨hpreamble, hlength⟩ | ⟨more, rfl, hmore⟩
    · exact parse_preamble_cut hpreamble hlength
    · rcases cut_sections hmore with ⟨front, hfront, rfl⟩ | ⟨front, s, part, hfront, hpart, hne,
        hshort, rfl⟩
      · exact absurd rfl (hinside front hfront)
      · rw [← List.append_assoc]
        exact parse_inside hsectionwise hsized hroom hfront hpart hne hshort

end

/-- A module with a function that gives 7, cut off in three places: behind the signature, behind the
memory, and in the body of the function. -/
theorem terse_parse_truncated :
    parse (binary terse) = .ok sevenAgain ∧
      parse ((binary terse).take 15) = .ok { types := sevenAgain.types } ∧
      parse ((binary terse).take 24) = .error (.malformed 24 .bodyCount) ∧
      ∃ place, parse ((binary terse).take 30) = .error (.unexpectedEnd place) := by
  have hsized : ∀ s ∈ terse, s.Sized := by
    simp only [terse, List.forall_mem_cons]
    exact ⟨rfl, rfl, rfl, rfl, List.forall_mem_nil _⟩
  have hsectionwise : Sectionwise terse sevenAgain := by
    have hkind : ∀ {b : UInt8} {id : SectionId} (kind : SectionId),
        SectionId.ofByte? b = some kind → b.toNat = id.number → id = kind := by
      intro b id kind hkind hid
      exact Option.some.inj ((SectionId.ofByte?_eq_some_iff.mpr hid).symm.trans hkind)
    refine ⟨by decide, by decide, ?_, fun id hid => ?_, rfl⟩
    · simp only [terse, List.forall_mem_cons]
      refine ⟨fun id hid => ?_, fun id hid => ?_, fun id hid => ?_, fun id hid => ?_,
        List.forall_mem_nil _⟩
      · rw [hkind .types rfl hid]
        rfl
      · rw [hkind .functions rfl hid]
        rfl
      · rw [hkind .memories rfl hid]
        exact ⟨rfl, le_rfl⟩
      · rw [hkind .code rfl hid]
        rfl
    · have hmissing : id ∉ kinds terse := not_mem_kinds hid
      cases id with
      | types | functions | memories | code => exact absurd (by decide) hmissing
      | custom | imports | tables | globals | exports | start | elements | data => rfl
  have hparse : parse (binary terse) = .ok sevenAgain :=
    (parse_iff hsized (by decide)).mpr hsectionwise
  obtain ⟨-, hcut⟩ := parse_truncated hparse
  have hcut := hcut terse ⟨hsized, rfl⟩
  refine ⟨hparse, ?_, ?_, ?_⟩
  · exact (hcut _ (List.take_prefix 15 _)).1 (terse.take 1) (List.take_prefix 1 _) (by decide)
  · exact (hcut _ (List.take_prefix 24 _)).1 (terse.take 3) (List.take_prefix 3 _) (by decide)
  · refine (hcut _ (List.take_prefix 30 _)).2 fun front hfront => ?_
    have hinits : ∀ front ∈ terse.inits, (binary terse).take 30 ≠ binary front := by decide
    exact hinits front ((List.mem_inits front terse).mpr hfront)

end Module

end MeteredSandbox
