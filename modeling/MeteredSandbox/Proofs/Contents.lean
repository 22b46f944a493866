import Mathlib
import MeteredSandbox.Module.Assembly
import MeteredSandbox.Module.Parse
import MeteredSandbox.Proofs.Spelling

/-!
# Modules that are written and read back

Writing a module (`Assembly.build`) and reading one (`Module.parse`) are two descriptions of one
format. This shows that they agree: a binary that was written is read as the module that its parts
amount to (`Assembly.parse_build`).

The sections are treated one by one. In a section stands a vector of items, and an item is read back
as soon as its parts are (`Reads.funcType` down to `Reads.dataSegment`); counts and lengths need no
condition of their own, because whatever they count lies in the section. The sections of a binary
are then cut apart as they were put together (`RawSection.all_spell`) and put in their places one
after another. `Module.Composes` says of a run of sections what it makes of a module, and that none
of them comes too late, so that the runs of all kinds of section can be joined. A section that is
left out would have held nothing, which is what the module has in its place.
-/

namespace MeteredSandbox

variable {α β : Type}

/-! ### Numbers of 32 bits -/

/-- The number is one of 32 bits, as all indices, sizes and offsets are. -/
abbrev IsWord (n : Nat) : Prop := n < 0x1_0000_0000

/-- Limits are numbers of 32 bits. -/
structure Limits.InRange (l : Limits) : Prop where
  min : IsWord l.min
  max : ∀ max ∈ l.max, IsWord max

/-- The index in an initializer is a number of 32 bits. -/
def ConstExpr.InRange (e : ConstExpr) : Prop := ∀ i, e = .global i → IsWord i

/-- The index of what is exported. -/
def ExportKind.index : ExportKind → Nat
  | func i | table i | memory i | global i => i

/-! ### Items -/

namespace Reads

open Assembly

theorem encodeUnsigned_ne_nil (n : Nat) : Leb128.encodeUnsigned n ≠ [] := by
  rw [Leb128.encodeUnsigned]
  split
  · exact List.cons_ne_nil _ _
  · exact List.cons_ne_nil _ _

/-- A vector of items that have at least `n` bytes each has at least as many. -/
theorem mul_length_le_encodeVector {n : Nat} {encode : α → List UInt8}
    (hn : ∀ x, n ≤ (encode x).length) (xs : List α) :
    n * xs.length ≤ (encodeVector encode xs).length := by
  have hflat : n * xs.length ≤ (xs.flatMap encode).length := by
    induction xs with
    | nil => exact Nat.le_refl 0
    | cons x xs ih =>
      rw [List.flatMap_cons, List.length_append, List.length_cons, Nat.mul_succ, Nat.add_comm]
      exact Nat.add_le_add (hn x) ih
  unfold encodeVector
  rw [List.length_append]
  omega

/-- A vector is at least as long as it has items. -/
theorem length_le_encodeVector {encode : α → List UInt8} (hne : ∀ x, encode x ≠ []) (xs : List α) :
    xs.length ≤ (encodeVector encode xs).length := by
  have hle := mul_length_le_encodeVector (fun x => List.length_pos_iff.mpr (hne x)) xs
  rwa [Nat.succ_mul, Nat.zero_mul, Nat.zero_add] at hle

/-- A **vector of items**, none of which is empty. Its count and its items are short if it is. -/
theorem items {item : Reader β} {encode : α → List UInt8} {f : α → β} {xs : List α}
    (hne : ∀ x, encode x ≠ []) (hshort : IsWord (encodeVector encode xs).length)
    (h : ∀ x ∈ xs, IsWord (encode x).length → Reads item (encode x) (f x)) :
    Reads (Reader.vector item) (encodeVector encode xs) (xs.map f) := by
  refine vector (Nat.lt_of_le_of_lt (length_le_encodeVector hne xs) hshort) fun x hx => h x hx ?_
  have hle : (encode x).length ≤ (xs.flatMap encode).length :=
    (List.sublist_flatten_of_mem (List.mem_map_of_mem hx)).length_le
  unfold encodeVector at hshort
  rw [IsWord, List.length_append] at hshort
  omega

theorem valType (t : ValType) : Reads Reader.valType [t.code] t := by
  refine .byte_bind ?_
  rw [ValType.ofCode?_code]
  exact .pure t

theorem limits {l : Limits} (h : l.InRange) : Reads Reader.limits (encodeLimits l) l := by
  obtain ⟨min, max⟩ := l
  cases max with
  | none => exact .byte_bind (.ite rfl ((index h.min).map fun min => Limits.mk min none))
  | some max =>
    refine .byte_bind (.ite_else (by decide) (.ite rfl ?_))
    exact (index h.min).bind ((index (h.max max rfl)).map fun max => Limits.mk min (some max))

theorem valTypes {ts : List ValType} (hshort : IsWord (encodeVector encodeValType ts).length) :
    Reads (Reader.vector Reader.valType) (encodeVector encodeValType ts) ts := by
  have hread := items (f := id) (fun t => List.cons_ne_nil t.code []) hshort
    fun t _ _ => valType t
  rwa [List.map_id] at hread

theorem funcType {t : FuncType} (hshort : IsWord (encodeFuncType t).length) :
    Reads Reader.funcType (encodeFuncType t) t := by
  unfold encodeFuncType at hshort ⊢
  rw [IsWord, List.cons_append, List.length_cons, List.length_append] at hshort
  have hparams : IsWord (encodeVector encodeValType t.params).length := by omega
  have hresults : IsWord (encodeVector encodeValType t.results).length := by omega
  refine .byte_bind (.ite rfl ?_)
  exact (valTypes hparams).bind ((valTypes hresults).map (FuncType.mk t.params))

/-- A memory or none. -/
theorem memories {l : Option Limits} (h : ∀ limits ∈ l, limits.InRange)
    (hshort : IsWord (encodeVector encodeLimits l.toList).length) :
    Reads Reader.memories (encodeVector encodeLimits l.toList) l.toList := by
  have hne : ∀ l, encodeLimits l ≠ [] := by
    intro l
    unfold encodeLimits
    split
    · exact List.cons_ne_nil _ _
    · exact List.cons_ne_nil _ _
  have hitems := items (f := id) hne hshort fun limits' hmem _ =>
    limits (h limits' (Option.mem_toList.mp hmem))
  rw [List.map_id] at hitems
  have hcount : l.toList.length ≤ 1 := by
    cases l with
    | none => exact Nat.zero_le 1
    | some _ => exact Nat.le_refl 1
  have hread : Reads Reader.memories (encodeVector encodeLimits l.toList ++ []) l.toList :=
    hitems.bind (.ite hcount (.pure l.toList))
  rwa [List.append_nil] at hread

theorem table {l : Limits} (h : l.InRange) : Reads Reader.table (encodeTable l) l :=
  .byte_bind (.ite rfl (limits h))

theorem globalType (t : GlobalType) :
    Reads Reader.globalType [t.type.code, if t.mutable then 0x01 else 0x00] t := by
  obtain ⟨type, mutable⟩ := t
  cases mutable with
  | false => exact (valType type).bind (.byte_bind (.ite rfl (.pure _)))
  | true =>
    have hne : ¬ (0x01 : UInt8) = 0x00 := by decide
    exact (valType type).bind (.byte_bind (.ite_else hne (.ite rfl (.pure _))))

/-- The instruction of a literal. -/
theorem literal (v : Value) : Reads Reader.constant (Mnemonic.encodeConst v) (.const v) := by
  -- each opcode passes the comparisons with those before it
  cases v with
  | i32 bits =>
    have hread : Reads (Leb128.signed 32) _ bits.toInt :=
      signed bits.le_toInt bits.toInt_lt (by decide)
    have hmap := hread.map fun v => ConstExpr.const (.i32 (.ofInt 32 v))
    rw [BitVec.ofInt_toInt] at hmap
    exact .byte_bind (.ite rfl hmap)
  | i64 bits =>
    have hread : Reads (Leb128.signed 64) _ bits.toInt :=
      signed bits.le_toInt bits.toInt_lt (by decide)
    have hmap := hread.map fun v => ConstExpr.const (.i64 (.ofInt 64 v))
    rw [BitVec.ofInt_toInt] at hmap
    exact .byte_bind (.ite_else (by decide) (.ite rfl hmap))
  | f32 bits =>
    have hread : Reads (Reader.littleEndian 4) _ bits.toNat := littleEndian bits.isLt
    have hmap := hread.map fun n => ConstExpr.const (.f32 (.ofNat 32 n))
    rw [BitVec.ofNat_toNat, BitVec.setWidth_eq] at hmap
    exact .byte_bind (.ite_else (by decide) (.ite_else (by decide) (.ite rfl hmap)))
  | f64 bits =>
    have hread : Reads (Reader.littleEndian 8) _ bits.toNat := littleEndian bits.isLt
    have hmap := hread.map fun n => ConstExpr.const (.f64 (.ofNat 64 n))
    rw [BitVec.ofNat_toNat, BitVec.setWidth_eq] at hmap
    exact .byte_bind (.ite_else (by decide) (.ite_else (by decide) (.ite_else (by decide)
      (.ite rfl hmap))))

theorem constExpr {e : ConstExpr} (h : e.InRange) :
    Reads Reader.constExpr (encodeConstExpr e) e := by
  have hend : Reads (do
      let last ← Reader.byte
      if last = 0x0B then return e else Reader.malformed .constantEnd) [0x0B] e :=
    .byte_bind (.ite rfl (.pure e))
  cases e with
  | const v => exact (literal v).bind hend
  | global i =>
    have hread : Reads Reader.constant (0x23 :: Leb128.encodeUnsigned i) (.global i) :=
      .byte_bind (.ite_else (by decide) (.ite_else (by decide) (.ite_else (by decide)
        (.ite_else (by decide) (.ite rfl ((index (h i rfl)).map ConstExpr.global))))))
    exact hread.bind hend

/-- The offset of a segment is a constant. -/
theorem offset (offset : Nat) :
    Reads Reader.constExpr (encodeOffset offset) (.const (.i32 (.ofNat 32 offset))) :=
  constExpr fun _ h => nomatch h

theorem encodedName {name : String} (hshort : IsWord (encodeName name).length) :
    Reads Reader.name (encodeName name) name := by
  unfold encodeName encodeBytes at hshort ⊢
  rw [IsWord, List.length_append] at hshort
  exact Reads.name (by omega)

end Reads

/-- The import as it is read. -/
def AssembledImport.entry (i : AssembledImport) : Import where
  source := i.source
  name := i.name
  kind := .func i.type

/-- The locals of a function, one by one, and its instructions with the end. -/
def AssembledFunc.code (f : AssembledFunc) : CodeEntry where
  locals := f.locals.map fun type => { count := 1, type }
  body := f.body ++ [0x0B]

namespace Assembly

/-- A segment of functions as it is read. -/
def elementSegment (s : Nat × List Nat) : ElementSegment where
  table := 0
  offset := .const (.i32 (.ofNat 32 s.1))
  funcs := s.2

/-- A segment of bytes as it is read. -/
def dataSegment (s : Nat × List UInt8) : DataSegment where
  memory := 0
  offset := .const (.i32 (.ofNat 32 s.1))
  bytes := s.2

end Assembly

namespace Reads

open Assembly

theorem importEntry {i : AssembledImport} (htype : IsWord i.type)
    (hshort : IsWord (encodeImport i).length) :
    Reads Reader.importEntry (encodeImport i) i.entry := by
  unfold encodeImport at hshort ⊢
  rw [IsWord, List.length_append, List.length_append] at hshort
  have hkind : Reads Reader.importKind (0x00 :: Leb128.encodeUnsigned i.type) (.func i.type) :=
    .byte_bind (.ite rfl ((index htype).map ImportKind.func))
  have hsource : IsWord (encodeName i.source).length := by omega
  have hname : IsWord (encodeName i.name).length := by omega
  rw [List.append_assoc]
  exact (encodedName hsource).bind
    ((encodedName hname).bind (hkind.map (Import.mk i.source i.name)))

theorem exportEntry {e : Export} (hindex : IsWord e.kind.index)
    (hshort : IsWord (encodeExport e).length) :
    Reads Reader.exportEntry (encodeExport e) e := by
  obtain ⟨name, kind⟩ := e
  have hname : IsWord (encodeName name).length := by
    unfold encodeExport at hshort
    rw [IsWord, List.length_append] at hshort
    exact Nat.lt_of_le_of_lt (Nat.le_add_right _ _) hshort
  have hread : ∀ bs, Reads Reader.exportKind bs kind →
      Reads Reader.exportEntry (encodeName name ++ bs) ⟨name, kind⟩ := fun bs hkind =>
    (encodedName hname).bind (hkind.map (Export.mk name))
  -- the kind is looked at when its index has been read
  cases kind with
  | func i => exact hread _ (.byte_bind ((index hindex).map ExportKind.func))
  | table i => exact hread _ (.byte_bind ((index hindex).map ExportKind.table))
  | memory i => exact hread _ (.byte_bind ((index hindex).map ExportKind.memory))
  | global i => exact hread _ (.byte_bind ((index hindex).map ExportKind.global))

theorem global {g : Global} (h : g.init.InRange) : Reads Reader.global (encodeGlobal g) g :=
  (globalType g.type).bind ((constExpr h).map (Global.mk g.type))

theorem elementSegment {s : Nat × List Nat} (hfuncs : ∀ func ∈ s.2, IsWord func)
    (hshort : IsWord (encodeElements s).length) :
    Reads Reader.elementSegment (encodeElements s) (Assembly.elementSegment s) := by
  unfold encodeElements at hshort ⊢
  rw [IsWord, List.length_append] at hshort
  have hlist : Reads (Reader.vector Reader.index) (encodeVector Leb128.encodeUnsigned s.2) s.2 := by
    have hitems := items (f := id) encodeUnsigned_ne_nil
      (show IsWord (encodeVector Leb128.encodeUnsigned s.2).length by omega)
      fun func hmem _ => index (hfuncs func hmem)
    rwa [List.map_id] at hitems
  rw [List.append_assoc]
  exact (index (by decide)).bind (.ite rfl ((offset s.1).bind (hlist.map _)))

theorem dataSegment {s : Nat × List UInt8} (hshort : IsWord (encodeData s).length) :
    Reads Reader.dataSegment (encodeData s) (Assembly.dataSegment s) := by
  unfold encodeData encodeBytes at hshort ⊢
  simp only [IsWord, List.length_append] at hshort
  have hbytes : IsWord s.2.length := by omega
  rw [List.append_assoc]
  exact (index (by decide)).bind (.ite rfl ((offset s.1).bind ((lengthPrefixed hbytes).map _)))

theorem localRun (t : ValType) :
    Reads Reader.localRun (Leb128.encodeUnsigned 1 ++ encodeValType t) { count := 1, type := t } :=
  (index (by decide)).bind ((valType t).map (LocalRun.mk 1))

theorem total_ones (ts : List ValType) :
    LocalRun.total (ts.map fun type => { count := 1, type }) = ts.length := by
  induction ts with
  | nil => rfl
  | cons t ts ih =>
    rw [List.map_cons, LocalRun.total, ih, List.length_cons, Nat.add_comm]

/-- What stands in a code entry is read up to its end. -/
theorem codeContent {f : AssembledFunc} {payload : List UInt8}
    (hpayload : payload = encodeVector (fun t => Leb128.encodeUnsigned 1 ++ encodeValType t)
      f.locals ++ f.body ++ [0x0B]) (hshort : IsWord payload.length) :
    ∃ c, Reader.codeContent (.start payload) = .ok f.code c := by
  subst hpayload
  rw [IsWord, List.append_assoc, List.length_append] at hshort
  have hne : ∀ t : ValType, Leb128.encodeUnsigned 1 ++ encodeValType t ≠ [] := fun t =>
    List.append_ne_nil_of_right_ne_nil _ (List.cons_ne_nil _ _)
  have hvector := length_le_encodeVector hne f.locals
  have hlocals := items hne (by omega) fun t (_ : t ∈ f.locals) _ => localRun t
  have hcount : LocalRun.total (f.locals.map fun type => { count := 1, type }) < 0x1_0000_0000 := by
    rw [total_ones]
    omega
  have hlast : (f.body ++ [0x0B]).getLast? = some 0x0B := List.getLast?_concat
  unfold Reader.codeContent Cursor.start
  rw [List.append_assoc, bind_of_ok (hlocals 0 (f.body ++ [0x0B]) (by omega)), if_pos hcount]
  change ∃ c, (if (f.body ++ [0x0B]).getLast? = some 0x0B then _ else _ : Reader CodeEntry) _ = _
  rw [if_pos hlast]
  exact ⟨_, rfl⟩

theorem codeEntry {f : AssembledFunc} (hshort : IsWord (encodeFunc f).length) :
    Reads Reader.codeEntry (encodeFunc f) f.code := by
  unfold encodeFunc encodeBytes at hshort ⊢
  generalize hpayload : encodeVector _ f.locals ++ f.body ++ [0x0B] = payload at hshort ⊢
  rw [IsWord, List.length_append] at hshort
  have hbytes : IsWord payload.length := by omega
  obtain ⟨c, hcontent⟩ := codeContent hpayload.symm hbytes
  have hread : Reads (Reader.nested Reader.codeContent payload) [] f.code := by
    intro offset rest _
    unfold Reader.nested
    rw [hcontent]
    rfl
  have hentry := (lengthPrefixed hbytes).bind hread
  rwa [List.append_nil] at hentry

end Reads

/-! ### Sections -/

/-- The bytes of a run of sections. -/
def spell (sections : List (SectionId × List UInt8)) : List UInt8 :=
  sections.flatMap fun s => Assembly.encodeSection (UInt8.ofNat s.1.number) s.2

/-- The section of a vector of items, unless there are none. -/
def Assembly.itemSection (id : SectionId) (encode : α → List UInt8) (xs : List α) :
    List (SectionId × List UInt8) :=
  if xs.isEmpty then [] else [(id, encodeVector encode xs)]

namespace RawSection

/-- A section that is there is the first of all. -/
theorem all_of_rawSection {c c' : Cursor} {s : RawSection} (h : Reader.rawSection c = .ok s c') :
    all c = (s :: (all c').1, (all c').2) := by
  have hshorter := Reader.rawSection_shorter h
  rw [all]
  split
  next hend =>
    rw [List.isEmpty_iff.mp hend] at hshorter
    exact absurd hshorter (Nat.not_lt_zero _)
  next =>
    split
    next herror =>
      rw [h] at herror
      cases herror
    next hok =>
      rw [h] at hok
      cases hok
      rfl

/-- The byte that says what a section holds. -/
theorem reads_sectionId {b : UInt8} {id : SectionId} (hid : SectionId.ofByte? b = some id) :
    Reads Reader.sectionId [b] id := by
  refine .offset_bind fun start => .byte_bind ?_
  rw [hid]
  exact .pure id

/-- A section is cut off where it ends, in whichever form its length is written. Where its payload
begins is of no interest. -/
theorem rawSection_bytes {b : UInt8} {id : SectionId} (hid : SectionId.ofByte? b = some id)
    {size payload : List UInt8} (hsize : Reads Reader.index size payload.length) (offset : Nat)
    (rest : List UInt8)
    (hroom : offset + (b :: (size ++ payload)).length < 0x1_0000_0000_0000_0000) :
    ∃ payloadOffset, Reader.rawSection ⟨offset, b :: (size ++ payload) ++ rest⟩
      = .ok { id, payloadOffset, payload } ⟨offset + (b :: (size ++ payload)).length, rest⟩ := by
  have hkind := reads_sectionId hid
  have hpayload := Reads.bytes payload
  rw [List.length_cons, List.length_append] at hroom ⊢
  refine ⟨offset + 1 + size.length, ?_⟩
  have hheader : Reader.sectionHeader ⟨offset, b :: (size ++ payload) ++ rest⟩
      = .ok ⟨id, payload.length, offset + 1 + size.length⟩
          ⟨offset + 1 + size.length, payload ++ rest⟩ := by
    have hstart := hkind offset (size ++ (payload ++ rest))
      (by rw [List.length_singleton]; omega)
    rw [List.cons_append, List.append_assoc, ← List.singleton_append]
    unfold Reader.sectionHeader
    rw [bind_of_ok hstart, bind_of_ok (hsize _ _ (by rw [List.length_singleton]; omega))]
    rfl
  unfold Reader.rawSection
  rw [bind_of_ok hheader, bind_of_ok (hpayload _ _ (by omega))]
  change EStateM.Result.ok _ (Cursor.mk _ rest) = EStateM.Result.ok _ (Cursor.mk _ rest)
  congr 2
  omega

/-- **Sections are cut apart** as they were put together. -/
theorem all_spell {sections : List (SectionId × List UInt8)}
    (hshort : ∀ s ∈ sections, IsWord s.2.length) (offset : Nat)
    (hroom : offset + (spell sections).length < 0x1_0000_0000_0000_0000) :
    ∃ raws, all ⟨offset, spell sections⟩ = (raws, none) ∧
      raws.map (fun s => (s.id, s.payload)) = sections := by
  induction sections generalizing offset with
  | nil =>
    refine ⟨[], ?_, rfl⟩
    rw [all]
    rfl
  | cons s sections ih =>
    obtain ⟨id, payload⟩ := s
    have hfirst : IsWord payload.length := hshort _ List.mem_cons_self
    have hothers : ∀ s ∈ sections, IsWord s.2.length := fun s hs =>
      hshort s (List.mem_cons_of_mem _ hs)
    have hspell : spell ((id, payload) :: sections)
        = Assembly.encodeSection (UInt8.ofNat id.number) payload ++ spell sections :=
      List.flatMap_cons
    rw [hspell, List.length_append] at hroom
    have hid : SectionId.ofByte? (UInt8.ofNat id.number) = some id := by cases id <;> rfl
    obtain ⟨payloadOffset, hraw⟩ := rawSection_bytes hid (Reads.index hfirst) offset (spell sections)
      (show offset + (Assembly.encodeSection (UInt8.ofNat id.number) payload).length < _ by omega)
    obtain ⟨raws, hall, hmap⟩ := ih hothers
      (offset + (Assembly.encodeSection (UInt8.ofNat id.number) payload).length) (by omega)
    refine ⟨{ id, payloadOffset, payload } :: raws, ?_, ?_⟩
    · rw [hspell]
      exact (all_of_rawSection hraw).trans
        (congrArg (fun cut => (RawSection.mk id payloadOffset payload :: cut.1, cut.2)) hall)
    · rw [List.map_cons, hmap]

end RawSection

/-- What is read of a whole payload. -/
theorem Reads.whole {r : Reader α} {payload : List UInt8} {a : α} (h : Reads r payload a)
    (hroom : payload.length < 0x1_0000_0000_0000_0000) : Reader.whole r payload = .ok a := by
  unfold Reader.whole
  rw [h.runOn hroom]
  rfl

namespace Module

/-- **Composing.** To a module whose sections so far have numbers up to `k`, the given sections may
be added, and make it the module `m'`, whose sections have numbers up to `k'`. -/
def Composes (m : Module) (k : Nat) (sections : List (SectionId × List UInt8)) (m' : Module)
    (k' : Nat) : Prop :=
  ∀ (raws : List RawSection) (d : Draft), raws.map (fun s => (s.id, s.payload)) = sections →
    d.content = m → (∀ l ∈ d.last, l.number ≤ k) →
      ∃ d', raws.foldlM Draft.place d = .ok d' ∧ d'.content = m' ∧ ∀ l ∈ d'.last, l.number ≤ k'

namespace Composes

variable {m m' m'' : Module} {k k' k'' : Nat} {ss ss' : List (SectionId × List UInt8)}

/-- One run of sections after another. -/
theorem append (h : Composes m k ss m' k') (h' : Composes m' k' ss' m'' k'') :
    Composes m k (ss ++ ss') m'' k'' := by
  intro raws d hraws hcontent hlast
  obtain ⟨raws₁, raws₂, rfl, hraws₁, hraws₂⟩ := List.map_eq_append_iff.mp hraws
  obtain ⟨d₁, hd₁, hcontent₁, hlast₁⟩ := h raws₁ d hraws₁ hcontent hlast
  obtain ⟨d₂, hd₂, hcontent₂, hlast₂⟩ := h' raws₂ d₁ hraws₂ hcontent₁ hlast₁
  refine ⟨d₂, ?_, hcontent₂, hlast₂⟩
  rw [List.foldlM_append, hd₁]
  exact hd₂

/-- No section at all. -/
theorem nil (hk : k ≤ k') : Composes m k [] m k' := by
  intro raws d hraws hcontent hlast
  rw [List.map_eq_nil_iff.mp hraws]
  exact ⟨d, rfl, hcontent, fun l hl => Nat.le_trans (hlast l hl) hk⟩

/-- One section whose turn has not passed. -/
theorem single {id : SectionId} {payload : List UInt8} (hk : k < id.number)
    (hfill : ∀ payloadOffset, m.fill { id, payloadOffset, payload } = .ok m') :
    Composes m k [(id, payload)] m' id.number := by
  have hcustom : id ≠ .custom := by
    rintro rfl
    exact absurd hk (Nat.not_lt_zero k)
  intro raws d hraws hcontent hlast
  have hturn : ¬ (d.last.any fun l => id.number ≤ l.number) = true := by
    cases hd : d.last with
    | none => exact Bool.noConfusion
    | some l =>
      have hle : l.number ≤ k := hlast l hd
      exact fun hany => absurd (of_decide_eq_true hany) (by omega)
  obtain ⟨⟨id', payloadOffset, payload'⟩, rfl, hraw⟩ := List.map_eq_singleton_iff.mp hraws
  obtain ⟨rfl, rfl⟩ : id' = id ∧ payload' = payload := Prod.mk.inj hraw
  refine ⟨{ content := m', last := some id' }, ?_, rfl, ?_⟩
  · rw [List.foldlM_cons, Draft.place, if_neg hcustom, if_neg hturn, hcontent, hfill]
    rfl
  · intro l hl
    cases hl
    exact Nat.le_refl _

/-- A section that is left out when it has no items, and then makes no difference. -/
theorem optional {γ : Type} {id : SectionId} {encode : α → List UInt8} {xs : List α} {r : Reader γ}
    {set : γ → Module} {ys : γ} (hk : k < id.number)
    (hfill : ∀ payloadOffset payload, m.fill { id, payloadOffset, payload }
      = (Reader.whole r payload).map set)
    (hset : set ys = m') (hempty : xs = [] → m' = m)
    (hshort : ∀ s ∈ Assembly.itemSection id encode xs, IsWord s.2.length)
    (hread : IsWord (Assembly.encodeVector encode xs).length →
      Reads r (Assembly.encodeVector encode xs) ys) :
    Composes m k (Assembly.itemSection id encode xs) m' id.number := by
  unfold Assembly.itemSection at hshort ⊢
  split
  next hnone =>
    rw [hempty (List.isEmpty_iff.mp hnone)]
    exact nil (Nat.le_of_lt hk)
  next hsome =>
    rw [if_neg hsome] at hshort
    have hword := List.forall_mem_singleton.mp hshort
    refine single hk fun payloadOffset => ?_
    rw [hfill, (hread hword).whole (Nat.lt_trans hword (by decide)), ← hset]
    rfl

/-- A section of items. The module had none of them so far. -/
theorem items {id : SectionId} {item : Reader β} {encode : α → List UInt8} {f : α → β}
    {xs : List α} {set : List β → Module} (hk : k < id.number)
    (hfill : ∀ payloadOffset payload, m.fill { id, payloadOffset, payload }
      = (Reader.whole (.vector item) payload).map set)
    (hset : set (xs.map f) = m') (hempty : set [] = m)
    (hshort : ∀ s ∈ Assembly.itemSection id encode xs, IsWord s.2.length)
    (hne : ∀ x, encode x ≠ [])
    (hitem : ∀ x ∈ xs, IsWord (encode x).length → Reads item (encode x) (f x)) :
    Composes m k (Assembly.itemSection id encode xs) m' id.number := by
  refine optional hk hfill hset ?_ hshort fun hword => Reads.items hne hword hitem
  intro hxs
  rw [← hset, hxs]
  exact hempty

end Composes

end Module

namespace Assembly

/-- All numbers in the parts of a module are numbers of 32 bits. -/
structure InRange (a : Assembly) : Prop where
  imports : ∀ i ∈ a.imports, IsWord i.type
  funcs : ∀ f ∈ a.funcs, IsWord f.type
  table : ∀ l ∈ a.table, l.InRange
  memory : ∀ l ∈ a.memory, l.InRange
  globals : ∀ g ∈ a.globals, g.init.InRange
  exports : ∀ e ∈ a.exports, IsWord e.kind.index
  start : ∀ func ∈ a.start, IsWord func
  elements : ∀ s ∈ a.elements, ∀ func ∈ s.2, IsWord func

/-- The module that the parts amount to. -/
def content (a : Assembly) : Module where
  types := a.types
  imports := a.imports.map AssembledImport.entry
  funcs := a.funcs.map AssembledFunc.type
  tables := a.table.toList
  memories := a.memory.toList
  globals := a.globals
  exports := a.exports
  start := a.start
  elements := a.elements.map elementSegment
  codes := a.funcs.map AssembledFunc.code
  data := a.data.map dataSegment

/-- The sections of the binary, with their payloads. -/
def sections (a : Assembly) : List (SectionId × List UInt8) :=
  itemSection .types encodeFuncType a.types
    ++ itemSection .imports encodeImport a.imports
    ++ itemSection .functions Leb128.encodeUnsigned (a.funcs.map AssembledFunc.type)
    ++ itemSection .tables encodeTable a.table.toList
    ++ itemSection .memories encodeLimits a.memory.toList
    ++ itemSection .globals encodeGlobal a.globals
    ++ itemSection .exports encodeExport a.exports
    ++ (a.start.map fun func => (SectionId.start, Leb128.encodeUnsigned func)).toList
    ++ itemSection .elements encodeElements a.elements
    ++ itemSection .code encodeFunc a.funcs
    ++ itemSection .data encodeData a.data

theorem spell_itemSection (id : SectionId) (encode : α → List UInt8) (xs : List α) :
    spell (itemSection id encode xs) = encodeItems (UInt8.ofNat id.number) encode xs := by
  unfold itemSection encodeItems
  cases xs with
  | nil => rfl
  | cons x xs => exact List.append_nil _

/-- A binary is the preamble and its sections. -/
theorem build_eq (a : Assembly) :
    a.build = [0x00, 0x61, 0x73, 0x6D, 0x01, 0x00, 0x00, 0x00] ++ spell a.sections := by
  have happend : ∀ ss ss', spell (ss ++ ss') = spell ss ++ spell ss' := fun ss ss' =>
    List.flatMap_append
  have hsingle : ∀ payload, spell [(SectionId.start, payload)] = encodeSection 8 payload :=
    fun payload => List.append_nil _
  unfold build sections
  simp only [happend, spell_itemSection, List.append_assoc]
  cases a.start with
  | none => rfl
  | some func =>
    rw [Option.map_some, Option.toList_some, hsingle]
    rfl

/-- The shortest form of a number is not longer than the number is great. -/
theorem length_encodeUnsigned_le (n : Nat) : (Leb128.encodeUnsigned n).length ≤ n + 1 := by
  induction n using Nat.strongRecOn with
  | ind n ih =>
    rw [Leb128.encodeUnsigned]
    split
    · exact Nat.succ_le_succ (Nat.zero_le n)
    · rw [List.length_cons]
      have := ih (n / 128) (by omega)
      omega

/-- A binary whose sections are short can be counted with 64 bits. -/
theorem length_spell_sections_lt {a : Assembly} (hshort : ∀ s ∈ a.sections, IsWord s.2.length) :
    8 + (spell a.sections).length < 0x1_0000_0000_0000_0000 := by
  have hspell : ∀ ss : List (SectionId × List UInt8), (∀ s ∈ ss, IsWord s.2.length) →
      (spell ss).length ≤ 0x2_0000_0001 * ss.length := by
    intro ss hss
    induction ss with
    | nil => exact Nat.le_refl 0
    | cons s ss ih =>
      obtain ⟨hs, hss⟩ := List.forall_mem_cons.mp hss
      have hlength := length_encodeUnsigned_le s.2.length
      have := ih hss
      unfold spell at this ⊢
      rw [List.flatMap_cons, List.length_append, encodeSection, encodeBytes, List.length_cons,
        List.length_append, List.length_cons]
      omega
  have hitems : ∀ {β : Type} (id : SectionId) (encode : β → List UInt8) (xs : List β),
      (itemSection id encode xs).length ≤ 1 := by
    intro β id encode xs
    unfold itemSection
    split
    · exact Nat.zero_le 1
    · exact Nat.le_refl 1
  have hstart : (a.start.map fun func =>
      (SectionId.start, Leb128.encodeUnsigned func)).toList.length ≤ 1 := by
    cases a.start with
    | none => exact Nat.zero_le 1
    | some func => exact Nat.le_refl 1
  have hcount : a.sections.length ≤ 11 := by
    unfold sections
    simp only [List.length_append]
    have h1 := hitems .types encodeFuncType a.types
    have h2 := hitems .imports encodeImport a.imports
    have h3 := hitems .functions Leb128.encodeUnsigned (a.funcs.map AssembledFunc.type)
    have h4 := hitems .tables encodeTable a.table.toList
    have h5 := hitems .memories encodeLimits a.memory.toList
    have h6 := hitems .globals encodeGlobal a.globals
    have h7 := hitems .exports encodeExport a.exports
    have h9 := hitems .elements encodeElements a.elements
    have h10 := hitems .code encodeFunc a.funcs
    have h11 := hitems .data encodeData a.data
    omega
  have := hspell a.sections hshort
  omega

end Assembly

/-- The preamble is read from the front of a binary. -/
theorem preamble_runOn (rest : List UInt8) :
    Reader.preamble.runOn ([0x00, 0x61, 0x73, 0x6D, 0x01, 0x00, 0x00, 0x00] ++ rest)
      = .ok ((), ⟨8, rest⟩) := rfl

namespace Assembly

/-- The sections, one kind after another, make the module that the parts amount to. -/
theorem composes_sections {a : Assembly} (hrange : a.InRange)
    (hshort : ∀ s ∈ a.sections, IsWord s.2.length) :
    Module.Composes {} 0 a.sections a.content 11 := by
  unfold sections at hshort ⊢
  simp only [List.forall_mem_append] at hshort
  obtain ⟨⟨⟨⟨⟨⟨⟨⟨⟨⟨htypes, himports⟩, hfuncs⟩, htable⟩, hmemory⟩, hglobals⟩, hexports⟩, hstart⟩,
    helements⟩, hcode⟩, hdata⟩ := hshort
  have hright : ∀ {bs : List UInt8} {b : UInt8} {bs' : List UInt8}, bs ++ b :: bs' ≠ [] :=
    List.append_ne_nil_of_right_ne_nil _ (List.cons_ne_nil _ _)
  have hleft : ∀ {n : Nat} {bs : List UInt8}, Leb128.encodeUnsigned n ++ bs ≠ [] :=
    List.append_ne_nil_of_left_ne_nil (Reads.encodeUnsigned_ne_nil _) _
  have hsegment : ∀ {n : Nat} {bs bs' : List UInt8}, Leb128.encodeUnsigned n ++ bs ++ bs' ≠ [] :=
    List.append_ne_nil_of_left_ne_nil hleft _
  let m₁ : Module := { types := a.types }
  let m₂ : Module := { m₁ with imports := a.imports.map AssembledImport.entry }
  let m₃ : Module := { m₂ with funcs := a.funcs.map AssembledFunc.type }
  let m₄ : Module := { m₃ with tables := a.table.toList }
  let m₅ : Module := { m₄ with memories := a.memory.toList }
  let m₆ : Module := { m₅ with globals := a.globals }
  let m₇ : Module := { m₆ with exports := a.exports }
  let m₈ : Module := { m₇ with start := a.start }
  let m₉ : Module := { m₈ with elements := a.elements.map elementSegment }
  let m₁₀ : Module := { m₉ with codes := a.funcs.map AssembledFunc.code }
  have types : Module.Composes {} 0 (itemSection .types encodeFuncType a.types) m₁ 1 :=
    .items (f := id) (by decide) (fun _ _ => rfl) (by rw [List.map_id]) rfl htypes
      (fun _ => List.cons_ne_nil _ _) fun _ _ => Reads.funcType
  have imports : Module.Composes m₁ 1 (itemSection .imports encodeImport a.imports) m₂ 2 :=
    .items (by decide) (fun _ _ => rfl) rfl rfl himports (fun _ => hright)
      fun i hi => Reads.importEntry (hrange.imports i hi)
  have funcs : Module.Composes m₂ 2 (itemSection .functions Leb128.encodeUnsigned
      (a.funcs.map AssembledFunc.type)) m₃ 3 :=
    .items (f := id) (by decide) (fun _ _ => rfl) (by rw [List.map_id]) rfl hfuncs
      Reads.encodeUnsigned_ne_nil fun i hi _ => Reads.index (by
        obtain ⟨f, hf, rfl⟩ := List.mem_map.mp hi
        exact hrange.funcs f hf)
  have table : Module.Composes m₃ 3 (itemSection .tables encodeTable a.table.toList) m₄ 4 :=
    .items (f := id) (by decide) (fun _ _ => rfl) (by rw [List.map_id]) rfl htable
      (fun _ => List.cons_ne_nil _ _) fun l hl _ =>
        Reads.table (hrange.table l (Option.mem_toList.mp hl))
  have memory : Module.Composes m₄ 4 (itemSection .memories encodeLimits a.memory.toList) m₅ 5 :=
    .optional (by decide) (fun _ _ => rfl) rfl
      (fun h => congrArg (fun ms => { m₄ with memories := ms }) h) hmemory
      (Reads.memories hrange.memory)
  have globals : Module.Composes m₅ 5 (itemSection .globals encodeGlobal a.globals) m₆ 6 :=
    .items (f := id) (by decide) (fun _ _ => rfl) (by rw [List.map_id]) rfl hglobals
      (fun _ => List.cons_ne_nil _ _) fun g hg _ => Reads.global (hrange.globals g hg)
  have exports : Module.Composes m₆ 6 (itemSection .exports encodeExport a.exports) m₇ 7 :=
    .items (f := id) (by decide) (fun _ _ => rfl) (by rw [List.map_id]) rfl hexports
      (fun _ => hright) fun e he => Reads.exportEntry (hrange.exports e he)
  have start : Module.Composes m₇ 7 (a.start.map fun func =>
      (SectionId.start, Leb128.encodeUnsigned func)).toList m₈ 8 := by
    change Module.Composes m₇ 7 _ { m₇ with start := a.start } 8
    cases hfunc : a.start with
    | none => exact .nil (by decide)
    | some func =>
      rw [hfunc] at hstart
      have hword := List.forall_mem_singleton.mp hstart
      refine .single (by decide) fun payloadOffset => ?_
      have hread := (Reads.index (hrange.start func hfunc)).whole
        (Nat.lt_trans hword (by decide))
      exact congrArg (Except.map fun start => { m₇ with start := some start }) hread
  have elements : Module.Composes m₈ 8 (itemSection .elements encodeElements a.elements) m₉ 9 :=
    .items (by decide) (fun _ _ => rfl) rfl rfl helements (fun _ => hsegment) fun s hs =>
      Reads.elementSegment (hrange.elements s hs)
  have code : Module.Composes m₉ 9 (itemSection .code encodeFunc a.funcs) m₁₀ 10 :=
    .items (by decide) (fun _ _ => rfl) rfl rfl hcode (fun _ => hleft) fun _ _ => Reads.codeEntry
  have data : Module.Composes m₁₀ 10 (itemSection .data encodeData a.data) a.content 11 :=
    .items (by decide) (fun _ _ => rfl) rfl rfl hdata (fun _ => hsegment) fun _ _ =>
      Reads.dataSegment
  exact types.append imports |>.append funcs |>.append table |>.append memory |>.append globals
    |>.append exports |>.append start |>.append elements |>.append code |>.append data

/-- **What is written is read back** as the module that its parts amount to. Sections have to be
short enough for their lengths; names, bodies and vectors then are, since they lie in sections. -/
theorem parse_build {a : Assembly} (hrange : a.InRange)
    (hshort : ∀ s ∈ a.sections, IsWord s.2.length) : Module.parse a.build = .ok a.content := by
  obtain ⟨raws, hall, hraws⟩ :=
    RawSection.all_spell hshort 8 (length_spell_sections_lt hshort)
  obtain ⟨d, hplace, hcontent, -⟩ := composes_sections hrange hshort raws
    { content := {}, last := none } hraws rfl (fun _ hl => nomatch hl)
  have hcounts : d.content.funcs.length = d.content.codes.length := by
    rw [hcontent, content, List.length_map, List.length_map]
  unfold Module.parse
  rw [build_eq, preamble_runOn]
  simp only [ok_bind, hall, hplace]
  rw [if_pos hcounts, hcontent]
  rfl

end Assembly

end MeteredSandbox
