import Mathlib
import MeteredSandbox.Proofs.Decoding

/-!
# Assembling and decoding

A list of mnemonics is written without regard to what it means. Which instruction each of them
stands for is said by `Mnemonic.word`, and a mnemonic is **valid** (`Mnemonic.Valid`) if it is used
for what it is for: a bare opcode is one that no immediates follow, an access is a load or a store,
and all indices are numbers of 32 bits.

The bytes of a valid mnemonic are an encoding of its word (`Mnemonic.encoding`). So the bytes of a
list spell the words of the list, whatever these are, and the rest is what is known of decoding: the
list decodes exactly if it is bracketed, and then to the instructions that it stands for
(`Mnemonic.decodeBody_encodeAll`).
-/

namespace MeteredSandbox

namespace Token

/-- An opcode that means nothing stands for an instruction that is illegal. -/
theorem ofBare_of_unassigned {opcode : UInt8} (h : Unassigned opcode) :
    ofBare opcode = .op (.illegal opcode) := by
  unfold Unassigned at h
  have hnumeric : NumericOp.ofCode? opcode = none := by
    unfold NumericOp.ofCode?
    split
    next hfirst =>
      refine Array.getElem?_eq_none ?_
      have hsize : NumericOp.all.size = 123 := rfl
      have hcode : NumericOp.firstCode = 0x45 := rfl
      omega
    next => rfl
  unfold ofBare
  split <;> first | omega | skip
  rw [hnumeric]

/-- The word of a load or a store, by its opcode. -/
def ofAccess (opcode : UInt8) (offset : Nat) : Token :=
  match LoadOp.ofCode? opcode, StoreOp.ofCode? opcode with
  | some load, _ => .op (.load load offset)
  | none, some store => .op (.store store offset)
  | none, none => .op (.illegal opcode)

end Token

namespace Mnemonic

/-- The number of results of a construct. -/
def arity (result : Option ValType) : Nat := result.toList.length

/-- **The instruction that a mnemonic stands for**, without the positions that it will know. -/
def word : Mnemonic → Token
  | bare opcode => .ofBare opcode
  | const value => .op (.const value)
  | localGet i => .op (.localGet i)
  | localSet i => .op (.localSet i)
  | localTee i => .op (.localTee i)
  | globalGet i => .op (.globalGet i)
  | globalSet i => .op (.globalSet i)
  | access opcode offset => .ofAccess opcode offset
  | memorySize => .op .memorySize
  | memoryGrow => .op .memoryGrow
  | call func => .op (.call func)
  | callIndirect type => .op (.callIndirect type)
  | block result => .block (arity result)
  | loop => .loop
  | ifThen result => .ifThen (arity result)
  | elseMark => .elseMark
  | endMark => .endMark
  | br depth => .op (.br depth)
  | brIf depth => .op (.brIf depth)
  | brTable depths default => .op (.brTable depths default)
  | ret => .op .ret
  | unreachable => .op .unreachable
  | nop => .op .nop
  | drop => .op .drop
  | select => .op .select

/-- **Valid** use of a mnemonic: of a bare opcode for an instruction without immediates, of an
access for a load or a store, and with immediates of 32 bits where that is what there is room for.
-/
def Valid : Mnemonic → Prop
  | bare opcode => ¬ Token.TakesImmediates opcode
  | access opcode offset => 0x28 ≤ opcode.toNat ∧ opcode.toNat ≤ 0x3E ∧ IsWord offset
  | localGet i | localSet i | localTee i | globalGet i | globalSet i => IsWord i
  | call i | callIndirect i | br i | brIf i => IsWord i
  | brTable depths default => (∀ d ∈ depths, IsWord d) ∧ IsWord default
  | _ => True

theorem isArity_blockType (result : Option ValType) :
    Token.IsArity (blockType result) (arity result) := by
  cases result with
  | none => exact .inl ⟨rfl, rfl⟩
  | some t => exact .inr ⟨t, rfl, rfl⟩

section Encoding

open Token

theorem encoding_const (v : Value) : Encoding (.op (.const v)) (encodeConst v) := by
  cases v with
  | i32 bits =>
    have h := Encoding.i32 (.signed bits.le_toInt bits.toInt_lt (by decide))
    rwa [BitVec.ofInt_toInt] at h
  | i64 bits =>
    have h := Encoding.i64 (.signed bits.le_toInt bits.toInt_lt (by decide))
    rwa [BitVec.ofInt_toInt] at h
  | f32 bits =>
    have h := Encoding.f32 (LittleEndian.length_ofNat 4 bits.toNat)
    rwa [LittleEndian.toNat_ofNat, Nat.mod_eq_of_lt (show bits.toNat < _ from bits.isLt),
      BitVec.ofNat_toNat, BitVec.setWidth_eq] at h
  | f64 bits =>
    have h := Encoding.f64 (LittleEndian.length_ofNat 8 bits.toNat)
    rwa [LittleEndian.toNat_ofNat, Nat.mod_eq_of_lt (show bits.toNat < _ from bits.isLt),
      BitVec.ofNat_toNat, BitVec.setWidth_eq] at h

theorem encoding_access {opcode : UInt8} {offset : Nat}
    (hopcode : 0x28 ≤ opcode.toNat ∧ opcode.toNat ≤ 0x3E) (hoffset : IsWord offset) :
    Encoding (ofAccess opcode offset) (access opcode offset).encode := by
  unfold ofAccess
  cases hload : LoadOp.ofCode? opcode with
  | some load => exact .load hload (.index (by decide)) (.index hoffset)
  | none =>
    -- what is not a load is a store
    obtain ⟨store, hstore⟩ : ∃ store, StoreOp.ofCode? opcode = some store := by
      refine store_of_range ⟨?_, hopcode.2⟩
      by_contra hlt
      have hrange : 0x28 ≤ opcode.toNat ∧ opcode.toNat ≤ 0x35 := by omega
      obtain ⟨load, hsome⟩ := load_of_range hrange
      rw [hload] at hsome
      cases hsome
    rw [hstore]
    exact .store hstore (.index (by decide)) (.index hoffset)

theorem encoding_brTable {depths : List Nat} {default : Nat} (hdepths : ∀ d ∈ depths, IsWord d)
    (hdefault : IsWord default) (hshort : IsWord (brTable depths default).encode.length) :
    Encoding (.op (.brTable depths default)) (brTable depths default).encode := by
  have hcount : depths.length ≤ (encodeIndices depths).length :=
    Reads.length_le_encodeVector Reads.encodeUnsigned_ne_nil depths
  have hvector : Reads (Reader.vector .index) (encodeIndices depths) (depths.map id) := by
    refine .vector ?_ fun d hd => .index (hdepths d hd)
    simp only [encode, IsWord, List.cons_append, List.length_cons, List.length_append] at hshort
    omega
  rw [List.map_id] at hvector
  exact .brTable hvector (.index hdefault)

/-- **The bytes of a valid mnemonic** are an encoding of its word. -/
theorem encoding {m : Mnemonic} (h : m.Valid) (hshort : IsWord m.encode.length) :
    Encoding m.word m.encode := by
  cases m with
  | bare opcode => exact .bare h
  | const v => exact encoding_const v
  | access opcode offset => exact encoding_access ⟨h.1, h.2.1⟩ h.2.2
  | brTable depths default => exact encoding_brTable h.1 h.2 hshort
  | callIndirect type => exact .callIndirect (.index h)
  | block result => exact .block (isArity_blockType result)
  | loop => exact .loop (isArity_blockType none)
  | ifThen result => exact .ifThen (isArity_blockType result)
  | memorySize => exact .memorySize
  | memoryGrow => exact .memoryGrow
  | localGet | localSet | localTee | globalGet | globalSet | call | br | brIf =>
    exact .indexed (by simp [indexedOps]) (.index h)
  | elseMark => exact .bare (show ¬ TakesImmediates 0x05 by decide)
  | endMark => exact .bare (show ¬ TakesImmediates 0x0B by decide)
  | ret => exact .bare (show ¬ TakesImmediates 0x0F by decide)
  | unreachable => exact .bare (show ¬ TakesImmediates 0x00 by decide)
  | nop => exact .bare (show ¬ TakesImmediates 0x01 by decide)
  | drop => exact .bare (show ¬ TakesImmediates 0x1A by decide)
  | select => exact .bare (show ¬ TakesImmediates 0x1B by decide)

/-- **The bytes of a list** spell its words. -/
theorem spells_encodeAll {ms : List Mnemonic} (h : ∀ m ∈ ms, m.Valid)
    (hshort : IsWord (encodeAll ms).length) :
    Token.Spells (ms.map word) (encodeAll ms) := by
  induction ms with
  | nil => exact .nil
  | cons m ms ih =>
    obtain ⟨hm, hms⟩ := List.forall_mem_cons.mp h
    have hlength : (encodeAll (m :: ms)).length = m.encode.length + (encodeAll ms).length := by
      rw [encodeAll, List.flatMap_cons, List.length_append, encodeAll]
    rw [IsWord, hlength] at hshort
    exact .cons (encoding hm (by unfold IsWord; omega)) (ih hms (by unfold IsWord; omega))

end Encoding

open Nesting in
/-- **The assembler and the decoder are inverse.** What is assembled of valid mnemonics, with the
end of the body behind it, decodes exactly if the mnemonics are bracketed. Then the instructions are
those that the mnemonics stand for, one for each of them and in their order, and the end of the
body; they are resolved; and an opcode that means nothing is an illegal instruction. -/
theorem decodeBody_encodeAll (func : Nat) {ms : List Mnemonic} (hvalid : ∀ m ∈ ms, m.Valid)
    (hshort : IsWord (encodeAll ms).length) :
    ((∃ out, decodeBody func (encodeAll ms ++ [0x0B]) = .ok out) ↔ Bracketed (ms.map word)) ∧
    ∀ out, decodeBody func (encodeAll ms ++ [0x0B]) = .ok out →
      out.map Instr.token = ms.map word ++ [.endMark] ∧ Resolved out ∧
      ∀ (i : Nat) (opcode : UInt8), ms[i]? = some (.bare opcode) → Token.Unassigned opcode →
        out[i]? = some (.op (.illegal opcode)) := by
  have hspells : Token.Spells (ms.map word ++ [.endMark]) (encodeAll ms ++ [0x0B]) :=
    (spells_encodeAll hvalid hshort).append
      (.cons (.bare (show ¬ Token.TakesImmediates 0x0B by decide)) .nil)
  have hroom : (encodeAll ms ++ [0x0B]).length < 0x1_0000_0000_0000_0000 := by
    rw [List.length_append, List.length_singleton]
    unfold IsWord at hshort
    omega
  have hsound : ∀ out, decodeBody func (encodeAll ms ++ [0x0B]) = .ok out →
      ∃ tree : Seq, out = tree.code ∧ tree.tokens = ms.map word := by
    intro out h
    obtain ⟨tree, htree, rfl⟩ := decodeBody_eq_ok h
    -- the bytes have only one reading
    have hwords := (Seq.spells_of_decode htree).scan_eq 0 (by omega)
    have hsame := hwords.1.symm.trans (hspells.scan_eq 0 (by omega)).1
    exact ⟨tree, rfl, List.append_cancel_right hsame⟩
  refine ⟨⟨?_, fun hbracketed => ?_⟩, fun out h => ?_⟩
  · rintro ⟨out, h⟩
    obtain ⟨tree, -, htokens⟩ := hsound out h
    rw [← htokens]
    exact tree.bracketed_tokens
  · obtain ⟨tree, htokens⟩ := hbracketed.exists_seq
    have hbalanced := tree.balanced_tokens
    rw [htokens] at hbalanced
    obtain ⟨decoded, hdecoded, -⟩ := Seq.exists_decode hspells hbalanced hroom
    refine ⟨decoded.code, ?_⟩
    unfold decodeBody
    rw [hdecoded]
  · obtain ⟨tree, rfl, htokens⟩ := hsound out h
    have hwords : tree.code.map Instr.token = ms.map word ++ [.endMark] := by
      rw [Seq.map_token_code, htokens]
    refine ⟨hwords, tree.resolved_code, fun i opcode hi hunassigned => ?_⟩
    have hword : (ms.map word ++ [.endMark])[i]? = some (.op (.illegal opcode)) := by
      rw [List.getElem?_append_left (by simpa using (List.getElem?_eq_some_iff.mp hi).1),
        List.getElem?_map, hi, Option.map_some, word, Token.ofBare_of_unassigned hunassigned]
    rw [← hwords, List.getElem?_map, Option.map_eq_some_iff] at hword
    obtain ⟨x, hx, htoken⟩ := hword
    cases x <;> cases htoken
    exact hx

open Nesting in
/-- Mnemonics of several forms, among them one that means nothing, are bracketed, because what is
assembled of them decodes. -/
theorem decodeBody_encodeAll_forms :
    let ms : List Mnemonic := [.const (.f64 0x7FF8000000000001), .block none, .localGet 300,
      .brTable [0, 300] 1, .access 0x3E 200, .bare 0x06, .endMark]
    (∀ m ∈ ms, m.Valid) ∧ IsWord (encodeAll ms).length ∧ Bracketed (ms.map word) ∧
      ∀ out, decodeBody 0 (encodeAll ms ++ [0x0B]) = .ok out →
        out.map Instr.token = ms.map word ++ [.endMark] ∧ out[5]? = some (.op (.illegal 0x06)) := by
  intro ms
  have hvalid : ∀ m ∈ ms, m.Valid := by
    simp only [ms, List.forall_mem_cons, List.not_mem_nil, false_imp_iff, implies_true, and_true,
      Valid, true_and]
    decide
  have hbytes : encodeAll ms = [0x44, 0x01, 0x00, 0x00, 0x00, 0x00, 0x00, 0xF8, 0x7F, 0x02, 0x40,
      0x20, 0xAC, 0x02, 0x0E, 0x02, 0x00, 0xAC, 0x02, 0x01, 0x3E, 0x00, 0xC8, 0x01, 0x06,
      0x0B] := by cbv
  have hshort : IsWord (encodeAll ms).length := by
    rw [hbytes]
    decide
  have hinverse := decodeBody_encodeAll 0 hvalid hshort
  have hdecodes : ∃ out, decodeBody 0 (encodeAll ms ++ [0x0B]) = .ok out :=
    ⟨[.op (.const (.f64 0x7FF8000000000001)), .block 0 6, .op (.localGet 300),
      .op (.brTable [0, 300] 1), .op (.store .i64Low32 200), .op (.illegal 0x06), .endMark,
      .endMark], by
      rw [hbytes]
      cbv⟩
  refine ⟨hvalid, hshort, hinverse.1.mp hdecodes, fun out h => ?_⟩
  obtain ⟨hwords, -, hillegal⟩ := hinverse.2 out h
  exact ⟨hwords, hillegal 5 0x06 rfl (.inl (by decide))⟩

end Mnemonic

end MeteredSandbox
