import MeteredSandbox.Proofs.Locality

/-!
# Modules are read section by section

A binary is its preamble and a run of sections, each of them a byte that says what it holds, the
length of its payload and the payload (`SectionBytes`). Which module such a binary spells, and
whether it spells one at all, is a matter of the payloads one by one (`Module.parse_sectionwise`):
the reader of a kind of section looks at the payload of that kind and at nothing else, what it
yields is what the module has in that place, and between the sections there is only the order to be
kept. `Module.Sectionwise` is that description. It does not mention how a length is written, and of
custom sections it asks for a name in front and no more. So neither makes a difference to the
module.

A payload that is read fills one place of a module and leaves the others alone. `Module.Place` says
so for one kind of section, and that there is such a place for every kind but custom ones
(`Module.exists_place`) is the only point where the kinds are looked at one by one. The run of
sections is then followed from the front (`Module.foldlM_place_iff`): behind a section only higher
numbers come, so that what it has put in its place stays there.
-/

namespace MeteredSandbox

/-! ### Sections as bytes -/

/-- A section as it stands in a binary: the byte that says what it holds, the length of its payload
as it is written there, and the payload. -/
structure SectionBytes where
  id : UInt8
  size : List UInt8
  payload : List UInt8

namespace SectionBytes

/-- The bytes of a section. -/
def bytes (s : SectionBytes) : List UInt8 := s.id :: (s.size ++ s.payload)

/-- The length in front of the payload is that of the payload, in one of the forms that are read. -/
def Sized (s : SectionBytes) : Prop := Reader.whole .index s.size = .ok s.payload.length

/-- A section is cut off as one of a kind, with its payload. -/
def CutTo (s : SectionBytes) (r : RawSection) : Prop :=
  SectionId.ofByte? s.id = some r.id ∧ r.payload = s.payload

end SectionBytes

/-- The binary of a run of sections, with the preamble in front. -/
def binary (sections : List SectionBytes) : List UInt8 :=
  [0x00, 0x61, 0x73, 0x6D, 0x01, 0x00, 0x00, 0x00] ++ sections.flatMap SectionBytes.bytes

/-- The numbers of the sections that are not custom, in the order in which they come. -/
def numbers (sections : List SectionBytes) : List Nat :=
  (sections.map fun s => s.id.toNat).filter (· ≠ 0)

/-- The payloads of the sections that are not custom, with their numbers. -/
def plain (sections : List SectionBytes) : List (Nat × List UInt8) :=
  (sections.map fun s => (s.id.toNat, s.payload)).filter (·.1 ≠ 0)

/-- All custom sections begin with a name. -/
def CustomsNamed (sections : List SectionBytes) : Prop :=
  ∀ s ∈ sections, s.id.toNat = 0 → BeginsWithName s.payload

namespace SectionId

theorem ofByte?_eq_some_iff {b : UInt8} {id : SectionId} :
    ofByte? b = some id ↔ b.toNat = id.number := by
  have hid := all_getElem?_number id
  constructor
  · intro h
    have hlt : b.toNat < all.length := (List.getElem?_eq_some_iff.mp h).1
    have hdistinct : all.Nodup := by decide
    exact (List.getElem?_inj hlt hdistinct).mp (h.trans hid.symm)
  · intro h
    unfold ofByte?
    rw [h, hid]

/-- Only custom sections have the number 0. -/
theorem number_ne_zero {id : SectionId} (h : id ≠ .custom) : id.number ≠ 0 := by
  cases id with
  | custom => exact absurd rfl h
  | types | imports | functions | tables | memories | globals | exports | start | elements | code
  | data => exact Nat.succ_ne_zero _

/-- The bytes up to 11 stand for a kind of section, and no others. -/
theorem exists_ofByte?_iff {b : UInt8} : (∃ id, ofByte? b = some id) ↔ b.toNat ≤ 11 := by
  rw [← Option.isSome_iff_exists]
  unfold ofByte?
  rw [isSome_getElem?]
  exact Nat.lt_succ_iff

end SectionId

/-! ### Cutting -/

namespace RawSection

/-- Nothing comes behind a section that cannot be cut off. -/
theorem all_of_error {c c' : Cursor} {e : ReadError} (hc : c.isAtEnd = false)
    (h : Reader.rawSection c = .error e c') : all c = ([], some e) := by
  rw [all, hc]
  split
  next hend => cases hend
  next =>
    split
    next herror =>
      rw [h] at herror
      cases herror
      rfl
    next hok =>
      rw [h] at hok
      cases hok

/-- A byte that stands for no kind of section is where the cutting ends. -/
theorem all_of_unknown {b : UInt8} (hb : SectionId.ofByte? b = none) (offset : Nat)
    (rest : List UInt8) : ∃ e, all ⟨offset, b :: rest⟩ = ([], some e) := by
  have hkind : Reader.sectionId ⟨offset, b :: rest⟩
      = .error (.malformed offset .sectionId) ⟨offset + 1, rest⟩ := by
    have hoffset : Reader.offset ⟨offset, b :: rest⟩ = .ok offset ⟨offset, b :: rest⟩ := rfl
    have hbyte : Reader.byte ⟨offset, b :: rest⟩ = .ok b ⟨offset + 1, rest⟩ := rfl
    unfold Reader.sectionId
    rw [bind_of_ok hoffset, bind_of_ok hbyte, hb]
    rfl
  have hraw : Reader.rawSection ⟨offset, b :: rest⟩
      = .error (.malformed offset .sectionId) ⟨offset + 1, rest⟩ := by
    unfold Reader.rawSection Reader.sectionHeader
    rw [bind_assoc]
    exact bind_of_error hkind _
  exact ⟨.malformed offset .sectionId, all_of_error rfl hraw⟩

variable {sections : List SectionBytes}

/-- **Sections of known kinds are cut apart**, and what follows them is cut as it would be alone. -/
theorem all_append_of_known (hsized : ∀ s ∈ sections, s.Sized)
    (hknown : ∀ s ∈ sections, s.id.toNat ≤ 11) (offset : Nat) (rest : List UInt8)
    (hroom : offset + (sections.flatMap SectionBytes.bytes).length < 0x1_0000_0000_0000_0000) :
    ∃ raws, List.Forall₂ SectionBytes.CutTo sections raws ∧
      all ⟨offset, sections.flatMap SectionBytes.bytes ++ rest⟩
        = (raws ++ (all ⟨offset + (sections.flatMap SectionBytes.bytes).length, rest⟩).1,
            (all ⟨offset + (sections.flatMap SectionBytes.bytes).length, rest⟩).2) := by
  induction sections generalizing offset with
  | nil => exact ⟨[], .nil, rfl⟩
  | cons s sections ih =>
    obtain ⟨hs, hsized⟩ := List.forall_mem_cons.mp hsized
    obtain ⟨hk, hknown⟩ := List.forall_mem_cons.mp hknown
    obtain ⟨id, hid⟩ := SectionId.exists_ofByte?_iff.mpr hk
    rw [List.flatMap_cons, List.length_append] at hroom
    have hsize : Reads Reader.index s.size s.payload.length := Local.index.reads_of_whole hs
    obtain ⟨payloadOffset, hraw⟩ := rawSection_bytes hid hsize offset
      (sections.flatMap SectionBytes.bytes ++ rest) (show offset + s.bytes.length < _ by omega)
    obtain ⟨raws, hcut, hall⟩ := ih hsized hknown (offset + s.bytes.length) (by omega)
    refine ⟨{ id, payloadOffset, payload := s.payload } :: raws, .cons ⟨hid, rfl⟩ hcut, ?_⟩
    rw [List.flatMap_cons, List.append_assoc, List.length_append, ← Nat.add_assoc]
    exact (all_of_rawSection hraw).trans
      (congrArg (fun cut => (RawSection.mk id payloadOffset s.payload :: cut.1, cut.2)) hall)

/-- Sections of known kinds with nothing behind them are cut apart to the end. -/
theorem all_of_known (hsized : ∀ s ∈ sections, s.Sized) (hknown : ∀ s ∈ sections, s.id.toNat ≤ 11)
    (offset : Nat)
    (hroom : offset + (sections.flatMap SectionBytes.bytes).length < 0x1_0000_0000_0000_0000) :
    ∃ raws, all ⟨offset, sections.flatMap SectionBytes.bytes⟩ = (raws, none) ∧
      List.Forall₂ SectionBytes.CutTo sections raws := by
  obtain ⟨raws, hcut, hall⟩ := all_append_of_known hsized hknown offset [] hroom
  have hend : all ⟨offset + (sections.flatMap SectionBytes.bytes).length, []⟩ = ([], none) := by
    rw [all]
    rfl
  rw [hend, List.append_nil, List.append_nil] at hall
  exact ⟨raws, hall, hcut⟩

/-- Only sections of known kinds are cut apart to the end. -/
theorem known_of_all (hsized : ∀ s ∈ sections, s.Sized) (offset : Nat)
    (hroom : offset + (sections.flatMap SectionBytes.bytes).length < 0x1_0000_0000_0000_0000)
    (h : (all ⟨offset, sections.flatMap SectionBytes.bytes⟩).2 = none) :
    ∀ s ∈ sections, s.id.toNat ≤ 11 := by
  induction sections generalizing offset with
  | nil => exact fun s hs => absurd hs List.not_mem_nil
  | cons s sections ih =>
    obtain ⟨hs, hsized⟩ := List.forall_mem_cons.mp hsized
    rw [List.flatMap_cons, List.length_append] at hroom
    rw [List.flatMap_cons] at h
    cases hid : SectionId.ofByte? s.id with
    | none =>
      obtain ⟨e, he⟩ := all_of_unknown hid offset
        (s.size ++ s.payload ++ sections.flatMap SectionBytes.bytes)
      have hsome : (all ⟨offset, s.bytes ++ sections.flatMap SectionBytes.bytes⟩).2 = some e :=
        congrArg Prod.snd he
      rw [hsome] at h
      cases h
    | some id =>
      have hsize : Reads Reader.index s.size s.payload.length := Local.index.reads_of_whole hs
      obtain ⟨payloadOffset, hraw⟩ := rawSection_bytes hid hsize offset
        (sections.flatMap SectionBytes.bytes) (show offset + s.bytes.length < _ by omega)
      have hrest : (all ⟨offset + s.bytes.length, sections.flatMap SectionBytes.bytes⟩).2 = none :=
        (congrArg Prod.snd (all_of_rawSection hraw)).symm.trans h
      have hk : s.id.toNat ≤ 11 := SectionId.exists_ofByte?_iff.mp ⟨id, hid⟩
      exact List.forall_mem_cons.mpr ⟨hk, ih hsized (offset + s.bytes.length) (by omega) hrest⟩

end RawSection

namespace Module

/-! ### What a module has of a kind of section -/

/-- The module with nothing in it but what sections of one kind hold. -/
def only (m : Module) : SectionId → Module
  | .custom => {}
  | .types => { types := m.types }
  | .imports => { imports := m.imports }
  | .functions => { funcs := m.funcs }
  | .tables => { tables := m.tables }
  | .memories => { memories := m.memories }
  | .globals => { globals := m.globals }
  | .exports => { exports := m.exports }
  | .start => { start := m.start }
  | .elements => { elements := m.elements }
  | .code => { codes := m.codes }
  | .data => { data := m.data }

theorem only_empty (id : SectionId) : ({} : Module).only id = {} := by
  cases id <;> rfl

/-- **What a payload holds is what the module has.** The reader for the kind of section uses the
payload up and yields what stands in the module. There is at most one memory. Of a custom section
the module has nothing, but it has to begin with a name. -/
def Has (m : Module) (payload : List UInt8) : SectionId → Prop
  | .custom => BeginsWithName payload
  | .types => Reader.whole (.vector .funcType) payload = .ok m.types
  | .imports => Reader.whole (.vector .importEntry) payload = .ok m.imports
  | .functions => Reader.whole (.vector .index) payload = .ok m.funcs
  | .tables => Reader.whole (.vector .table) payload = .ok m.tables
  | .memories =>
    Reader.whole (.vector .limits) payload = .ok m.memories ∧ m.memories.length ≤ 1
  | .globals => Reader.whole (.vector .global) payload = .ok m.globals
  | .exports => Reader.whole (.vector .exportEntry) payload = .ok m.exports
  | .start => (Reader.whole .index payload).map some = .ok m.start
  | .elements => Reader.whole (.vector .elementSegment) payload = .ok m.elements
  | .code => Reader.whole (.vector .codeEntry) payload = .ok m.codes
  | .data => Reader.whole (.vector .dataSegment) payload = .ok m.data

/-- **The module of a run of sections.** -/
structure Sectionwise (sections : List SectionBytes) (m : Module) : Prop where
  known : ∀ s ∈ sections, s.id.toNat ≤ 11
  /-- Custom sections may stand anywhere. The others come in order, and each at most once. -/
  ordered : (numbers sections).Pairwise (· < ·)
  /-- Every section holds what the module has of its kind. -/
  held : ∀ s ∈ sections, ∀ id : SectionId, s.id.toNat = id.number → m.Has s.payload id
  /-- Of a kind of section that does not occur the module has nothing. -/
  absent : ∀ id : SectionId, (∀ s ∈ sections, s.id.toNat ≠ id.number) → m.only id = {}
  counts : m.funcs.length = m.codes.length

/-- A module is known by what it has of all kinds of section. -/
theorem ext_only {m m' : Module} (h : ∀ id, m.only id = m'.only id) : m = m' := by
  have hpart : ∀ {α : Type} (part : Module → α) (id : SectionId),
      (∀ m : Module, part (m.only id) = part m) → part m = part m' := by
    intro α part id honly
    calc part m = part (m.only id) := (honly m).symm
      _ = part (m'.only id) := congrArg part (h id)
      _ = part m' := honly m'
  have htypes := hpart types .types fun _ => rfl
  have himports := hpart imports .imports fun _ => rfl
  have hfuncs := hpart funcs .functions fun _ => rfl
  have htables := hpart tables .tables fun _ => rfl
  have hmemories := hpart memories .memories fun _ => rfl
  have hglobals := hpart globals .globals fun _ => rfl
  have hexports := hpart exports .exports fun _ => rfl
  have hstart := hpart start .start fun _ => rfl
  have helements := hpart elements .elements fun _ => rfl
  have hcodes := hpart codes .code fun _ => rfl
  have hdata := hpart data .data fun _ => rfl
  cases m
  cases m'
  simp_all only

/-- **The place of a kind of section** in a module: how its payload is read, and where what it holds
is put. What is there is all that a module has of the kind, and nothing else is changed. -/
structure Place (id : SectionId) (α : Type) where
  read : List UInt8 → Except ReadError α
  get : Module → α
  set : Module → α → Module
  fill_eq : ∀ m payloadOffset payload,
    m.fill { id, payloadOffset, payload } = (read payload).map (set m) := by
      exact fun _ _ _ => rfl
  has_iff : ∀ m payload, m.Has payload id ↔ read payload = .ok (get m) := by
    exact fun _ _ => Iff.rfl
  only_set_iff : ∀ m a m', (set m a).only id = m'.only id ↔ a = get m' := by
    simp [only]
  only_set_of_ne : ∀ m a k, k ≠ id → (set m a).only k = m.only k := by
    intro m a k hk
    cases k <;> first | rfl | exact absurd rfl hk

/-- A vector of limits is read as memories if there is at most one. -/
theorem whole_memories (payload : List UInt8) (ms : List Limits) :
    Reader.whole (.vector .limits) payload = .ok ms ∧ ms.length ≤ 1
      ↔ Reader.whole .memories payload = .ok ms := by
  unfold Reader.whole Reader.memories
  rw [bind_apply]
  cases Reader.vector Reader.limits (.start payload) with
  | error e c => exact iff_of_false (by rintro ⟨⟨⟩, -⟩) (by rintro ⟨⟩)
  | ok ms' c =>
    dsimp only
    by_cases hcount : ms'.length ≤ 1
    · -- the limits are the memories, whether or not something is left
      rw [if_pos hcount]
      refine and_iff_left_of_imp fun h => ?_
      split at h
      · cases h
        exact hcount
      · cases h
    · rw [if_neg hcount]
      refine iff_of_false ?_ (by rintro ⟨⟩)
      rintro ⟨h, hone⟩
      split at h
      · cases h
        exact hcount hone
      · cases h

/-- **Every kind of section but custom ones has its place.** -/
theorem exists_place {id : SectionId} (hid : id ≠ .custom) : ∃ α, Nonempty (Place id α) := by
  cases id with
  | custom => exact absurd rfl hid
  | types => exact ⟨_, ⟨{
      read := Reader.whole (.vector .funcType)
      get := types
      set := fun m types => { m with types } }⟩⟩
  | imports => exact ⟨_, ⟨{
      read := Reader.whole (.vector .importEntry)
      get := imports
      set := fun m imports => { m with imports } }⟩⟩
  | functions => exact ⟨_, ⟨{
      read := Reader.whole (.vector .index)
      get := funcs
      set := fun m funcs => { m with funcs } }⟩⟩
  | tables => exact ⟨_, ⟨{
      read := Reader.whole (.vector .table)
      get := tables
      set := fun m tables => { m with tables } }⟩⟩
  | memories => exact ⟨_, ⟨{
      read := Reader.whole .memories
      get := memories
      set := fun m memories => { m with memories }
      has_iff := fun m payload => whole_memories payload m.memories }⟩⟩
  | globals => exact ⟨_, ⟨{
      read := Reader.whole (.vector .global)
      get := globals
      set := fun m globals => { m with globals } }⟩⟩
  | exports => exact ⟨_, ⟨{
      read := Reader.whole (.vector .exportEntry)
      get := exports
      set := fun m exports => { m with exports } }⟩⟩
  | start => exact ⟨_, ⟨{
      read := fun payload => (Reader.whole .index payload).map some
      get := start
      set := fun m start => { m with start }
      fill_eq := by
        intro m payloadOffset payload
        cases h : Reader.whole .index payload with
        | error e => rw [fill, h]; rfl
        | ok func => rw [fill, h]; rfl }⟩⟩
  | elements => exact ⟨_, ⟨{
      read := Reader.whole (.vector .elementSegment)
      get := elements
      set := fun m elements => { m with elements } }⟩⟩
  | code => exact ⟨_, ⟨{
      read := Reader.whole (.vector .codeEntry)
      get := codes
      set := fun m codes => { m with codes } }⟩⟩
  | data => exact ⟨_, ⟨{
      read := Reader.whole (.vector .dataSegment)
      get := data
      set := fun m data => { m with data } }⟩⟩

/-! ### One section -/

section

variable {m m' : Module} {id : SectionId} {payload : List UInt8}

/-- What a module has of a kind of section decides whether a payload holds it. -/
theorem has_congr (h : m.only id = m'.only id) : m.Has payload id ↔ m'.Has payload id := by
  by_cases hid : id = .custom
  · rw [hid]
    exact Iff.rfl
  · obtain ⟨α, ⟨place⟩⟩ := exists_place hid
    have hget : place.get m = place.get m' :=
      (place.only_set_iff m _ m').mp (((place.only_set_iff m _ m).mpr rfl).trans h)
    rw [place.has_iff, place.has_iff, hget]

variable {r : RawSection}

/-- A section that holds what `m` has of its kind brings that into any other module, and nothing
else. -/
theorem exists_fill (hr : r.id ≠ .custom) (h : m.Has r.payload r.id) (m' : Module) :
    ∃ filled, m'.fill r = .ok filled ∧ filled.only r.id = m.only r.id ∧
      ∀ k ≠ r.id, filled.only k = m'.only k := by
  obtain ⟨α, ⟨place⟩⟩ := exists_place hr
  refine ⟨place.set m' (place.get m), ?_, (place.only_set_iff m' _ m).mpr rfl,
    place.only_set_of_ne m' _⟩
  have hread := (place.has_iff m r.payload).mp h
  calc m'.fill r = (place.read r.payload).map (place.set m') := place.fill_eq m' r.payloadOffset _
    _ = .ok (place.set m' (place.get m)) := by rw [hread]; rfl

/-- A section that was put into its place holds what the module has there. -/
theorem has_of_fill (hr : r.id ≠ .custom) (h : m.fill r = .ok m') :
    m'.Has r.payload r.id ∧ ∀ k ≠ r.id, m'.only k = m.only k := by
  obtain ⟨α, ⟨place⟩⟩ := exists_place hr
  have hfill : (place.read r.payload).map (place.set m) = .ok m' :=
    (place.fill_eq m r.payloadOffset r.payload).symm.trans h
  cases hread : place.read r.payload with
  | error e =>
    rw [hread] at hfill
    cases hfill
  | ok a =>
    rw [hread] at hfill
    cases hfill
    refine ⟨?_, place.only_set_of_ne m a⟩
    rw [place.has_iff, hread]
    exact congrArg Except.ok ((place.only_set_iff m a (place.set m a)).mp rfl)

end

/-! ### One section after another -/

namespace Draft

variable {d d' : Draft} {r : RawSection}

/-- A custom section is read and left out. -/
theorem place_custom (hr : r.id = .custom) (hroom : r.payload.length < 0x1_0000_0000_0000_0000) :
    d.place r = .ok d' ↔ BeginsWithName r.payload ∧ d' = d := by
  rw [← Reader.name_iff hroom, place, if_pos hr, fill, hr]
  cases Reader.name.runOn r.payload with
  | error e => exact iff_of_false (by rintro ⟨⟩) (by rintro ⟨⟨text, c, ⟨⟩⟩, -⟩)
  | ok result =>
    obtain ⟨text, c⟩ := result
    constructor
    · rintro ⟨⟩
      exact ⟨⟨text, c, rfl⟩, rfl⟩
    · rintro ⟨-, rfl⟩
      rfl

/-- Any other section is put into its place, if its number is higher than that of the last one. -/
theorem place_eq_ok (hr : r.id ≠ .custom) :
    d.place r = .ok d' ↔ (∀ l ∈ d.last, l.number < r.id.number) ∧
      d.content.fill r = .ok d'.content ∧ d'.last = some r.id := by
  rw [place, if_neg hr]
  have hturn : (∀ l ∈ d.last, l.number < r.id.number)
      ↔ ¬ (d.last.any fun l => r.id.number ≤ l.number) = true := by
    cases d.last with
    | none => exact iff_of_true (fun l hl => by cases hl) Bool.false_ne_true
    | some l => simp
  by_cases hlate : (d.last.any fun l => r.id.number ≤ l.number) = true
  · rw [if_pos hlate]
    exact iff_of_false (by rintro ⟨⟩) fun h => hturn.mp h.1 hlate
  · rw [if_neg hlate, and_iff_right (hturn.mpr hlate)]
    obtain ⟨content, last⟩ := d'
    cases d.content.fill r with
    | error e => exact iff_of_false (by rintro ⟨⟩) (by rintro ⟨⟨⟩, -⟩)
    | ok filled =>
      constructor
      · rintro ⟨⟩
        exact ⟨rfl, rfl⟩
      · rintro ⟨⟨⟩, rfl⟩
        rfl

end Draft

section

variable {s : SectionBytes} {sections : List SectionBytes}

theorem numbers_cons_custom (hs : s.id.toNat = 0) : numbers (s :: sections) = numbers sections := by
  unfold numbers
  rw [List.map_cons, List.filter_cons_of_neg (by simpa using hs)]

theorem numbers_cons (hs : s.id.toNat ≠ 0) :
    numbers (s :: sections) = s.id.toNat :: numbers sections := by
  unfold numbers
  rw [List.map_cons, List.filter_cons_of_pos (by simpa using hs)]

theorem mem_numbers {n : Nat} : n ∈ numbers sections ↔ n ≠ 0 ∧ ∃ s ∈ sections, s.id.toNat = n := by
  unfold numbers
  simp [and_comm]

/-- The next number comes in order if it is higher than the last one. -/
theorem pairwise_behind {last : Option SectionId} {n : Nat} {ns : List Nat} :
    (last.toList.map SectionId.number ++ n :: ns).Pairwise (· < ·)
      ↔ (∀ l ∈ last, l.number < n) ∧ (n :: ns).Pairwise (· < ·) := by
  cases last with
  | none => exact (and_iff_right fun l hl => nomatch hl).symm
  | some l =>
    change (l.number :: n :: ns).Pairwise (· < ·) ↔ _
    rw [List.pairwise_cons]
    refine and_congr_left fun hns => ?_
    -- the numbers behind are higher than `n`, so it is enough to look at `n`
    have hhigher : ∀ k ∈ ns, n < k := (List.pairwise_cons.mp hns).1
    constructor
    · intro h l' hl'
      cases hl'
      exact h n List.mem_cons_self
    · intro h k hk
      have hl : l.number < n := h l rfl
      rcases List.mem_cons.mp hk with rfl | hk
      · exact hl
      · exact hl.trans (hhigher k hk)

end

/-- **What is to come of a draft**: sections that come in order behind those of the draft, and a
module that has what they hold, and what the draft had of the kinds that do not occur. -/
structure Continues (d : Draft) (sections : List SectionBytes) (m : Module) : Prop where
  ordered : (d.last.toList.map SectionId.number ++ numbers sections).Pairwise (· < ·)
  held : ∀ s ∈ sections, ∀ id : SectionId, s.id.toNat = id.number → m.Has s.payload id
  absent : ∀ id : SectionId, (∀ s ∈ sections, s.id.toNat ≠ id.number) →
    m.only id = d.content.only id

namespace Continues

variable {d d' : Draft} {m : Module} {s : SectionBytes} {r : RawSection}
  {sections : List SectionBytes}

/-- Nothing is to come of a draft but its content. -/
theorem nil_iff : Continues d [] m ↔ m = d.content := by
  constructor
  · intro h
    exact ext_only fun id => h.absent id fun s hs => absurd hs List.not_mem_nil
  · rintro rfl
    refine ⟨?_, fun s hs => absurd hs List.not_mem_nil, fun id _ => rfl⟩
    cases d.last with
    | none => exact .nil
    | some l => exact List.pairwise_singleton _ _

/-- A section is cut off as one of the kind that its number stands for. -/
theorem kind_eq (hcut : s.CutTo r) {id : SectionId} : s.id.toNat = id.number ↔ id = r.id := by
  rw [← SectionId.ofByte?_eq_some_iff, hcut.1, Option.some.injEq, eq_comm]

/-- A custom section in front needs a name and changes nothing. -/
theorem custom_iff (hcut : s.CutTo r) (hr : r.id = .custom) :
    Continues d (s :: sections) m ↔ BeginsWithName s.payload ∧ Continues d sections m := by
  have hzero : s.id.toNat = 0 := (kind_eq hcut).mpr hr.symm
  constructor
  · rintro ⟨hordered, hheld, habsent⟩
    obtain ⟨hname, hheld⟩ := List.forall_mem_cons.mp hheld
    rw [numbers_cons_custom hzero] at hordered
    refine ⟨hname .custom hzero, hordered, hheld, fun id hid => ?_⟩
    by_cases hcustom : id = .custom
    · rw [hcustom]
      rfl
    · refine habsent id (List.forall_mem_cons.mpr ⟨fun hs => hcustom ?_, hid⟩)
      exact ((kind_eq hcut).mp hs).trans hr
  · rintro ⟨hname, hordered, hheld, habsent⟩
    constructor
    · rwa [numbers_cons_custom hzero]
    · refine List.forall_mem_cons.mpr ⟨fun id hid => ?_, hheld⟩
      rw [(kind_eq hcut).mp hid, hr]
      exact hname
    · intro id hid
      exact habsent id (List.forall_mem_cons.mp hid).2

section

variable (hcut : s.CutTo r) (hr : r.id ≠ .custom)
include hcut hr

/-- The number of a section that is not custom is the next one. -/
theorem numbers_of_cut : numbers (s :: sections) = r.id.number :: numbers sections := by
  have hnumber : s.id.toNat = r.id.number := (kind_eq hcut).mpr rfl
  have hpos : s.id.toNat ≠ 0 := hnumber ▸ SectionId.number_ne_zero hr
  rw [numbers_cons hpos, hnumber]

/-- Another section in front, once it is in its place. -/
theorem of_place (hplace : d.place r = .ok d') (h : Continues d' sections m) :
    Continues d (s :: sections) m := by
  obtain ⟨hturn, hfill, hlast⟩ := (Draft.place_eq_ok hr).mp hplace
  obtain ⟨hhas, hothers⟩ := has_of_fill hr hfill
  have hordered : (r.id.number :: numbers sections).Pairwise (· < ·) := by
    have hbehind := h.ordered
    rw [hlast] at hbehind
    exact hbehind
  have hhigher : ∀ n ∈ numbers sections, r.id.number < n := (List.pairwise_cons.mp hordered).1
  -- what the section has put in its place stays there, since the others have higher numbers
  have hsame : m.only r.id = d'.content.only r.id := by
    refine h.absent r.id fun t ht hnum => ?_
    have hmem : r.id.number ∈ numbers sections :=
      mem_numbers.mpr ⟨SectionId.number_ne_zero hr, t, ht, hnum⟩
    exact absurd (hhigher _ hmem) (lt_irrefl _)
  constructor
  · rw [numbers_of_cut hcut hr, pairwise_behind]
    exact ⟨hturn, hordered⟩
  · refine List.forall_mem_cons.mpr ⟨fun id hid => ?_, h.held⟩
    rw [(kind_eq hcut).mp hid, ← hcut.2]
    exact (has_congr hsame).mpr hhas
  · intro id hid
    obtain ⟨hne, hid⟩ := List.forall_mem_cons.mp hid
    calc m.only id = d'.content.only id := h.absent id hid
      _ = d.content.only id := hothers id fun hsame => hne ((kind_eq hcut).mpr hsame)

/-- Another section in front goes into its place, and the rest is to come of what that makes. -/
theorem exists_place_of_cons (h : Continues d (s :: sections) m) :
    ∃ d', d.place r = .ok d' ∧ Continues d' sections m := by
  obtain ⟨hordered, hheld, habsent⟩ := h
  obtain ⟨hhas, hheld⟩ := List.forall_mem_cons.mp hheld
  rw [numbers_of_cut hcut hr, pairwise_behind] at hordered
  obtain ⟨hturn, hordered⟩ := hordered
  have hhas : m.Has r.payload r.id := hcut.2 ▸ hhas r.id ((kind_eq hcut).mpr rfl)
  obtain ⟨filled, hfill, honly, hothers⟩ := exists_fill hr hhas d.content
  refine ⟨⟨filled, some r.id⟩, (Draft.place_eq_ok hr).mpr ⟨hturn, hfill, rfl⟩, hordered, hheld,
    fun id hid => ?_⟩
  by_cases hsame : id = r.id
  · rw [hsame]
    exact honly.symm
  · rw [hothers id hsame]
    exact habsent id (List.forall_mem_cons.mpr ⟨fun hs => hsame ((kind_eq hcut).mp hs), hid⟩)

end

/-- **One step.** What is to come of a draft is what is to come of it with the first section put
into its place. -/
theorem cons_iff (hcut : s.CutTo r) (hroom : s.payload.length < 0x1_0000_0000_0000_0000) :
    Continues d (s :: sections) m ↔ ∃ d', d.place r = .ok d' ∧ Continues d' sections m := by
  by_cases hr : r.id = .custom
  · have hroom' : r.payload.length < 0x1_0000_0000_0000_0000 := hcut.2 ▸ hroom
    simp only [custom_iff hcut hr, Draft.place_custom hr hroom', hcut.2, and_assoc,
      exists_and_left, exists_eq_left]
  · constructor
    · exact exists_place_of_cons hcut hr
    · rintro ⟨d', hplace, h⟩
      exact of_place hcut hr hplace h

end Continues

/-- **A run of sections on top of a draft**: the modules that it may make are what is to come of the
draft. -/
theorem foldlM_place_iff {sections : List SectionBytes} {raws : List RawSection}
    (hcut : List.Forall₂ SectionBytes.CutTo sections raws)
    (hroom : ∀ s ∈ sections, s.payload.length < 0x1_0000_0000_0000_0000) (d : Draft) (m : Module) :
    (∃ last, raws.foldlM Draft.place d = .ok ⟨m, last⟩) ↔ Continues d sections m := by
  induction hcut generalizing d with
  | nil =>
    rw [Continues.nil_iff]
    constructor
    · rintro ⟨last, ⟨⟩⟩
      rfl
    · rintro rfl
      exact ⟨d.last, rfl⟩
  | @cons s r sections raws hs hcut ih =>
    obtain ⟨hshort, hroom⟩ := List.forall_mem_cons.mp hroom
    rw [Continues.cons_iff hs hshort, List.foldlM_cons]
    cases hplace : d.place r with
    | error e => exact iff_of_false (by rintro ⟨last, ⟨⟩⟩) (by rintro ⟨d', ⟨⟩, -⟩)
    | ok d' =>
      have hrest := ih hroom d'
      constructor
      · intro h
        exact ⟨d', rfl, hrest.mp h⟩
      · rintro ⟨d'', ⟨⟩, h⟩
        exact hrest.mpr h

/-! ### Whole binaries -/

section

variable {sections sections' : List SectionBytes} {m : Module}

theorem numbers_eq (sections : List SectionBytes) :
    numbers sections = (plain sections).map Prod.fst := by
  unfold numbers plain
  rw [List.filter_map, List.filter_map, List.map_map]
  rfl

theorem mem_plain {n : Nat} {payload : List UInt8} :
    (n, payload) ∈ plain sections ↔
      n ≠ 0 ∧ ∃ s ∈ sections, s.id.toNat = n ∧ s.payload = payload := by
  unfold plain
  simp [and_comm]

/-- A binary spells what its sections make of nothing, if it has as many bodies as functions. -/
theorem parse_eq_ok_iff : parse (binary sections) = .ok m ↔
    ∃ raws, RawSection.all ⟨8, sections.flatMap SectionBytes.bytes⟩ = (raws, none) ∧
      (∃ last, raws.foldlM Draft.place { content := {}, last := none } = .ok ⟨m, last⟩) ∧
      m.funcs.length = m.codes.length := by
  unfold parse binary
  rw [preamble_runOn, ok_bind]
  dsimp only
  rcases RawSection.all ⟨8, sections.flatMap SectionBytes.bytes⟩ with ⟨raws, broken⟩
  cases hdraft : raws.foldlM Draft.place { content := {}, last := none } with
  | error e =>
    refine iff_of_false (by rintro ⟨⟩) ?_
    rintro ⟨raws', hraws, ⟨last, hplaced⟩, -⟩
    cases hraws
    rw [hdraft] at hplaced
    cases hplaced
  | ok draft =>
    rw [ok_bind]
    constructor
    · intro h
      cases broken with
      | some e => cases h
      | none =>
        dsimp only at h
        split at h
        next hcounts =>
          cases h
          exact ⟨raws, rfl, ⟨draft.last, hdraft⟩, hcounts⟩
        next => cases h
    · rintro ⟨raws', hraws, ⟨last, hplaced⟩, hcounts⟩
      cases hraws
      obtain rfl : draft = ⟨m, last⟩ := Except.ok.inj (hdraft.symm.trans hplaced)
      exact if_pos hcounts

theorem length_binary (sections : List SectionBytes) :
    (binary sections).length = 8 + (sections.flatMap SectionBytes.bytes).length := by
  unfold binary
  rw [List.length_append]
  rfl

/-- No payload is longer than the binary. -/
theorem payload_length_lt (hroom : (binary sections).length < 0x1_0000_0000_0000_0000) :
    ∀ s ∈ sections, s.payload.length < 0x1_0000_0000_0000_0000 := by
  intro s hs
  have hle : s.bytes.length ≤ (sections.flatMap SectionBytes.bytes).length :=
    (List.sublist_flatten_of_mem (List.mem_map_of_mem hs)).length_le
  have hbytes : s.bytes.length = (s.size ++ s.payload).length + 1 := rfl
  rw [length_binary] at hroom
  rw [List.length_append] at hbytes
  omega

/-- Binaries of sections are read section by section. -/
theorem parse_iff (hsized : ∀ s ∈ sections, s.Sized)
    (hroom : (binary sections).length < 0x1_0000_0000_0000_0000) :
    parse (binary sections) = .ok m ↔ Sectionwise sections m := by
  have hshort := payload_length_lt hroom
  have hlength : 8 + (sections.flatMap SectionBytes.bytes).length < 0x1_0000_0000_0000_0000 :=
    length_binary sections ▸ hroom
  rw [parse_eq_ok_iff]
  constructor
  · rintro ⟨raws, hall, hplaced, hcounts⟩
    have hknown := RawSection.known_of_all hsized 8 hlength (congrArg Prod.snd hall)
    obtain ⟨raws', hall', hcut⟩ := RawSection.all_of_known hsized hknown 8 hlength
    obtain rfl : raws' = raws := congrArg Prod.fst (hall'.symm.trans hall)
    obtain ⟨hordered, hheld, habsent⟩ := (foldlM_place_iff hcut hshort _ m).mp hplaced
    exact ⟨hknown, hordered, hheld, fun id hid => (habsent id hid).trans (only_empty id), hcounts⟩
  · rintro ⟨hknown, hordered, hheld, habsent, hcounts⟩
    obtain ⟨raws, hall, hcut⟩ := RawSection.all_of_known hsized hknown 8 hlength
    refine ⟨raws, hall, (foldlM_place_iff hcut hshort _ m).mpr ⟨hordered, hheld, ?_⟩, hcounts⟩
    exact fun id hid => (habsent id hid).trans (only_empty id).symm

/-- In a binary that is read, the custom sections begin with names. -/
theorem Sectionwise.customsNamed (h : Sectionwise sections m) : CustomsNamed sections :=
  fun s hs hzero => h.held s hs .custom hzero

/-- **Only the payloads matter** and the names in front of custom sections. -/
theorem Sectionwise.of_plain (h : Sectionwise sections m) (hplain : plain sections' = plain sections)
    (hnamed : CustomsNamed sections') : Sectionwise sections' m := by
  -- a section that is not custom occurs in the one run if it does in the other
  have hmove : ∀ {ss ss' : List SectionBytes}, plain ss = plain ss' → ∀ s ∈ ss, s.id.toNat ≠ 0 →
      ∃ t ∈ ss', t.id.toNat = s.id.toNat ∧ t.payload = s.payload := by
    intro ss ss' hsame s hs hpos
    have hmem : (s.id.toNat, s.payload) ∈ plain ss := mem_plain.mpr ⟨hpos, s, hs, rfl, rfl⟩
    rw [hsame] at hmem
    exact (mem_plain.mp hmem).2
  constructor
  · intro s hs
    by_cases hzero : s.id.toNat = 0
    · omega
    · obtain ⟨t, ht, hid, -⟩ := hmove hplain s hs hzero
      exact hid ▸ h.known t ht
  · rw [numbers_eq, hplain, ← numbers_eq]
    exact h.ordered
  · intro s hs id hid
    by_cases hzero : s.id.toNat = 0
    · have hcustom : id = .custom := by
        by_contra hne
        exact SectionId.number_ne_zero hne (hid.symm.trans hzero)
      rw [hcustom]
      exact hnamed s hs hzero
    · obtain ⟨t, ht, hsame, hpayload⟩ := hmove hplain s hs hzero
      exact hpayload ▸ h.held t ht id (hsame.trans hid)
  · intro id hid
    by_cases hcustom : id = .custom
    · rw [hcustom]
      rfl
    · refine h.absent id fun s hs hsame => ?_
      have hpos : s.id.toNat ≠ 0 := hsame ▸ SectionId.number_ne_zero hcustom
      obtain ⟨t, ht, hnumber, -⟩ := hmove hplain.symm s hs hpos
      exact hid t ht (hnumber.trans hsame)
  · exact h.counts

/-- **Modules are read section by section.** A binary spells a module exactly if every section is of
a known kind, those that are not custom come in order, every payload is used up by the reader for
its kind and yields what the module has there, of other kinds the module has nothing, and there are
as many bodies as functions. So the module is the same when custom sections that begin with a name
are added, removed or moved, and when lengths are written in another form. -/
theorem parse_sectionwise (hsized : ∀ s ∈ sections, s.Sized)
    (hroom : (binary sections).length < 0x1_0000_0000_0000_0000) :
    (∀ m, parse (binary sections) = .ok m ↔ Sectionwise sections m) ∧
    ∀ sections', (∀ s ∈ sections', s.Sized) →
      (binary sections').length < 0x1_0000_0000_0000_0000 →
      plain sections' = plain sections → (CustomsNamed sections' ↔ CustomsNamed sections) →
      (parse (binary sections')).toOption = (parse (binary sections)).toOption := by
  refine ⟨fun m => parse_iff hsized hroom, fun sections' hsized' hroom' hplain hnamed => ?_⟩
  have hsame : ∀ m, parse (binary sections') = .ok m ↔ parse (binary sections) = .ok m := by
    intro m
    rw [parse_iff hsized' hroom', parse_iff hsized hroom]
    constructor
    · intro h
      exact h.of_plain hplain.symm (hnamed.mp h.customsNamed)
    · intro h
      exact h.of_plain hplain (hnamed.mpr h.customsNamed)
  have hoption : ∀ (x : Except ReadError Module) (m : Module), x.toOption = some m ↔ x = .ok m := by
    intro x m
    cases x with
    | error e => exact iff_of_false (by rintro ⟨⟩) (by rintro ⟨⟩)
    | ok m' => exact ⟨fun h => by cases h; rfl, fun h => by cases h; rfl⟩
  refine Option.ext fun m => ?_
  rw [hoption, hoption]
  exact hsame m

end

/-- The sections of a binary with a memory and a function that gives 7, in their shortest form. -/
def terse : List SectionBytes := [
  ⟨1, [0x05], [0x01, 0x60, 0x00, 0x01, 0x7F]⟩,
  ⟨3, [0x02], [0x01, 0x00]⟩,
  ⟨5, [0x03], [0x01, 0x00, 0x01]⟩,
  ⟨10, [0x06], [0x01, 0x04, 0x00, 0x41, 0x07, 0x0B]⟩]

/-- The same sections with lengths of three bytes, and with custom sections before, between and
behind them. -/
def verbose : List SectionBytes := [
  ⟨0, [0x04], [0x02, 0x68, 0x69, 0xFF]⟩,
  ⟨1, [0x85, 0x80, 0x00], [0x01, 0x60, 0x00, 0x01, 0x7F]⟩,
  ⟨3, [0x82, 0x80, 0x00], [0x01, 0x00]⟩,
  ⟨0, [0x01], [0x00]⟩,
  ⟨5, [0x83, 0x80, 0x00], [0x01, 0x00, 0x01]⟩,
  ⟨10, [0x86, 0x80, 0x00], [0x01, 0x04, 0x00, 0x41, 0x07, 0x0B]⟩,
  ⟨0, [0x81, 0x00], [0x00]⟩]

/-- The module that both of them spell. -/
def sevenAgain : Module where
  types := [{ params := [], results := [.i32] }]
  funcs := [0]
  memories := [{ min := 1, max := none }]
  codes := [{ locals := [], body := [0x41, 0x07, 0x0B] }]

/-- Custom sections and long lengths make no difference to the module. -/
theorem verbose_parse_sectionwise :
    (∀ s ∈ verbose, s.Sized) ∧ (∀ s ∈ terse, s.Sized) ∧ plain terse = plain verbose ∧
      parse (binary verbose) = .ok sevenAgain ∧
      (parse (binary terse)).toOption = some sevenAgain := by
  have hsized : ∀ s ∈ verbose, s.Sized := by
    simp only [verbose, List.forall_mem_cons]
    exact ⟨rfl, rfl, rfl, rfl, rfl, rfl, rfl, fun s hs => nomatch hs⟩
  have hsized' : ∀ s ∈ terse, s.Sized := by
    simp only [terse, List.forall_mem_cons]
    exact ⟨rfl, rfl, rfl, rfl, fun s hs => nomatch hs⟩
  have hgreeting : BeginsWithName [0x02, 0x68, 0x69, 0xFF] :=
    ⟨[0x02], [0x68, 0x69], [0xFF], rfl, rfl, "hi".isValidUTF8⟩
  have hempty : BeginsWithName [0x00] := ⟨[0x00], [], [], rfl, rfl, "".isValidUTF8⟩
  have hkind : ∀ {b : UInt8} (kind : SectionId), b.toNat = kind.number → ∀ {id : SectionId},
      b.toNat = id.number → id = kind := by
    intro b kind hb id hid
    exact Option.some.inj ((SectionId.ofByte?_eq_some_iff.mpr hid).symm.trans
      (SectionId.ofByte?_eq_some_iff.mpr hb))
  have hsectionwise : Sectionwise verbose sevenAgain := by
    refine ⟨by decide, by decide, ?_, ?_, rfl⟩
    · simp only [verbose, List.forall_mem_cons]
      refine ⟨fun id hid => ?_, fun id hid => ?_, fun id hid => ?_, fun id hid => ?_,
        fun id hid => ?_, fun id hid => ?_, fun id hid => ?_, fun s hs => nomatch hs⟩
      · rw [hkind .custom rfl hid]
        exact hgreeting
      · rw [hkind .types rfl hid]
        rfl
      · rw [hkind .functions rfl hid]
        rfl
      · rw [hkind .custom rfl hid]
        exact hempty
      · rw [hkind .memories rfl hid]
        exact ⟨rfl, le_rfl⟩
      · rw [hkind .code rfl hid]
        rfl
      · rw [hkind .custom rfl hid]
        exact hempty
    · have hoccur : ∀ n ∈ [1, 3, 5, 10], ∃ s ∈ verbose, s.id.toNat = n := by decide
      intro id hid
      by_cases hoccurs : id.number ∈ [1, 3, 5, 10]
      · obtain ⟨s, hs, hsame⟩ := hoccur id.number hoccurs
        exact absurd hsame (hid s hs)
      · cases id with
        | types | functions | memories | code => exact absurd (by decide) hoccurs
        | custom | imports | tables | globals | exports | start | elements | data => rfl
  have hplain : plain terse = plain verbose := by decide
  have hnamed : CustomsNamed terse ↔ CustomsNamed verbose := by
    refine iff_of_true (fun s hs hzero => ?_) hsectionwise.customsNamed
    have hpos : ∀ s ∈ terse, s.id.toNat ≠ 0 := by decide
    exact absurd hzero (hpos s hs)
  obtain ⟨hparse, hsame⟩ := parse_sectionwise hsized (by decide)
  have hverbose := (hparse sevenAgain).mpr hsectionwise
  refine ⟨hsized, hsized', hplain, hverbose, ?_⟩
  rw [hsame terse hsized' (by decide) hplain hnamed, hverbose]
  rfl

end Module

end MeteredSandbox
