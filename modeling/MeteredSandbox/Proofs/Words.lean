import Mathlib
import MeteredSandbox.Code.Body
import MeteredSandbox.Proofs.Locality

/-!
# The words of a body and their bytes

`Token.Encoding` says of each kind of word what its bytes look like: the opcode, and behind it the
immediates of the instruction, each in any form that its reader takes. A list of words **spells**
some bytes (`Token.Spells`) if the bytes are the encodings of the words, one after another, with
nothing between them and nothing behind.

The scanner is compared with this in both directions. It takes every encoding for the word that it
encodes (`Token.Encoding.reads`), and what it takes for a word is an encoding of it
(`Token.next_takes`). So the words of some bytes, if there are any, are those that the scanner finds
(`Token.Spells.scan_eq`), and the scanner gets to the end exactly if the bytes are spelled
(`Token.scan_spells`).
-/

namespace MeteredSandbox

/-! ### What readers take -/

/-- What the reader takes, and what it makes of it, are related by `P`. -/
def Takes {ε α : Type} (r : EStateM ε Cursor α) (P : α → List UInt8 → Prop) : Prop :=
  ∀ c a c', r c = .ok a c' →
    ∃ used, c.rest = used ++ c'.rest ∧ c'.offset = c.offset + used.length ∧ P a used

namespace Takes

variable {ε α β : Type}

theorem pure {P : α → List UInt8 → Prop} {a : α} (h : P a []) :
    Takes (pure a : EStateM ε Cursor α) P := by
  intro c b c' hr
  cases hr
  exact ⟨[], rfl, rfl, h⟩

theorem throw {P : α → List UInt8 → Prop} (e : ε) : Takes (throw e : EStateM ε Cursor α) P := by
  intro c b c' hr
  cases hr

theorem bind {r : EStateM ε Cursor α} {k : α → EStateM ε Cursor β} {P : α → List UInt8 → Prop}
    {Q : β → List UInt8 → Prop} (hr : Takes r P)
    (hk : ∀ a u, P a u → Takes (k a) fun b v => Q b (u ++ v)) : Takes (r >>= k) Q := by
  intro c b c'' h
  rw [bind_apply] at h
  cases hfirst : r c with
  | error e c' =>
    rw [hfirst] at h
    cases h
  | ok a c' =>
    rw [hfirst] at h
    obtain ⟨u, hrest, hoffset, hP⟩ := hr c a c' hfirst
    obtain ⟨v, hrest', hoffset', hQ⟩ := hk a u hP c' b c'' h
    refine ⟨u ++ v, ?_, ?_, hQ⟩
    · rw [hrest, hrest', List.append_assoc]
    · rw [hoffset', hoffset, List.length_append, Nat.add_assoc]

theorem byte : Takes Reader.byte fun b used => used = [b] := by
  intro c b c' hr
  obtain ⟨hrest, hoffset⟩ := Reader.byte_eq_ok hr
  exact ⟨[b], hrest, hoffset, rfl⟩

theorem bytes (n : Nat) : Takes (Reader.bytes n) fun bs used => used = bs ∧ bs.length = n := by
  intro c bs c' hr
  obtain ⟨hrest, hlength, hoffset, -⟩ := Reader.bytes_eq_ok hr
  exact ⟨bs, hrest, hlength ▸ hoffset, rfl, hlength⟩

/-- A number of fixed width takes as many bytes as it says, and is what they spell. -/
theorem littleEndian (count : Nat) : Takes (Reader.littleEndian count) fun n used =>
    used.length = count ∧ n = LittleEndian.toNat used :=
  (bytes count).bind fun bs u ⟨hu, hlength⟩ =>
    .pure ⟨by rw [List.append_nil, hu, hlength], by rw [List.append_nil, hu]⟩

/-- An immediate takes what its reader takes. -/
theorem immediate {r : Reader α} {P : α → List UInt8 → Prop} (h : Takes r P) :
    Takes (Token.immediate r) P := by
  intro c a c' hr
  unfold Token.immediate at hr
  split at hr
  next hr' =>
    cases hr
    exact h _ _ _ hr'
  next => cases hr

/-- What a local reader takes, it takes anywhere. -/
theorem of_local {r : EStateM ε Cursor α} (h : Local r) : Takes r fun a used => Reads r used a := h

theorem mono {r : EStateM ε Cursor α} {P Q : α → List UInt8 → Prop} (h : Takes r P)
    (hPQ : ∀ a u, P a u → Q a u) : Takes r Q := by
  intro c a c' hr
  obtain ⟨used, hrest, hoffset, hP⟩ := h c a c' hr
  exact ⟨used, hrest, hoffset, hPQ a used hP⟩

end Takes

namespace Reads

theorem immediate {α : Type} {r : Reader α} {bs : List UInt8} {a : α} (h : Reads r bs a) :
    Reads (Token.immediate r) bs a := by
  intro offset rest hroom
  unfold Token.immediate
  rw [h offset rest hroom]

end Reads

namespace Token

/-! ### Opcodes -/

/-- The opcodes that immediates follow: those of constructs and branches, of calls, of accesses to
variables and to memory, and of constants. -/
def TakesImmediates (opcode : UInt8) : Prop :=
  (0x02 ≤ opcode.toNat ∧ opcode.toNat ≤ 0x04) ∨ (0x0C ≤ opcode.toNat ∧ opcode.toNat ≤ 0x0E) ∨
    (0x10 ≤ opcode.toNat ∧ opcode.toNat ≤ 0x11) ∨ (0x20 ≤ opcode.toNat ∧ opcode.toNat ≤ 0x24) ∨
    (0x28 ≤ opcode.toNat ∧ opcode.toNat ≤ 0x44)

instance (opcode : UInt8) : Decidable (TakesImmediates opcode) := by
  unfold TakesImmediates
  infer_instance

/-- The opcodes that mean nothing. -/
def Unassigned (opcode : UInt8) : Prop :=
  (0x06 ≤ opcode.toNat ∧ opcode.toNat ≤ 0x0A) ∨ (0x12 ≤ opcode.toNat ∧ opcode.toNat ≤ 0x19) ∨
    (0x1C ≤ opcode.toNat ∧ opcode.toNat ≤ 0x1F) ∨ (0x25 ≤ opcode.toNat ∧ opcode.toNat ≤ 0x27) ∨
    0xC0 ≤ opcode.toNat

/-- The word of an opcode that stands by itself. -/
def ofBare (opcode : UInt8) : Token :=
  match opcode.toNat with
  | 0x00 => .op .unreachable
  | 0x01 => .op .nop
  | 0x05 => .elseMark
  | 0x0B => .endMark
  | 0x0F => .op .ret
  | 0x1A => .op .drop
  | 0x1B => .op .select
  | _ =>
    match NumericOp.ofCode? opcode with
    | some numeric => .op (.numeric numeric)
    | none => .op (.illegal opcode)

/-- The instructions whose one immediate is an index, by their opcodes. -/
def indexedOps : List (UInt8 × (Nat → Op)) :=
  [(0x0C, .br), (0x0D, .brIf), (0x10, .call), (0x20, .localGet), (0x21, .localSet),
    (0x22, .localTee), (0x23, .globalGet), (0x24, .globalSet)]

/-- The byte of a construct that says how many results it has: none, or one of some type. -/
def IsArity (code : UInt8) (arity : Nat) : Prop :=
  (code = 0x40 ∧ arity = 0) ∨ ∃ t : ValType, code = t.code ∧ arity = 1

/-- **The encodings of a word**: its opcode and its immediates. An integer among these may be
written in any form that its reader takes. -/
inductive Encoding : Token → List UInt8 → Prop
  | bare {opcode : UInt8} (h : ¬ TakesImmediates opcode) : Encoding (ofBare opcode) [opcode]
  | block {code : UInt8} {arity : Nat} (h : IsArity code arity) :
    Encoding (.block arity) [0x02, code]
  | loop {code : UInt8} {arity : Nat} (h : IsArity code arity) : Encoding .loop [0x03, code]
  | ifThen {code : UInt8} {arity : Nat} (h : IsArity code arity) :
    Encoding (.ifThen arity) [0x04, code]
  | indexed {opcode : UInt8} {make : Nat → Op} {bs : List UInt8} {i : Nat}
    (hop : (opcode, make) ∈ indexedOps) (h : Reads Reader.index bs i) :
    Encoding (.op (make i)) (opcode :: bs)
  | brTable {bs cs : List UInt8} {depths : List Nat} {default : Nat}
    (h : Reads (Reader.vector .index) bs depths) (h' : Reads Reader.index cs default) :
    Encoding (.op (.brTable depths default)) (0x0E :: (bs ++ cs))
  | callIndirect {bs : List UInt8} {type : Nat} (h : Reads Reader.index bs type) :
    Encoding (.op (.callIndirect type)) (0x11 :: (bs ++ [0x00]))
  /-- In front of its offset an access has an alignment, which says nothing. -/
  | load {opcode : UInt8} {op : LoadOp} {bs cs : List UInt8} {alignment offset : Nat}
    (hop : LoadOp.ofCode? opcode = some op) (h : Reads Reader.index bs alignment)
    (h' : Reads Reader.index cs offset) : Encoding (.op (.load op offset)) (opcode :: (bs ++ cs))
  | store {opcode : UInt8} {op : StoreOp} {bs cs : List UInt8} {alignment offset : Nat}
    (hop : StoreOp.ofCode? opcode = some op) (h : Reads Reader.index bs alignment)
    (h' : Reads Reader.index cs offset) : Encoding (.op (.store op offset)) (opcode :: (bs ++ cs))
  | memorySize : Encoding (.op .memorySize) [0x3F, 0x00]
  | memoryGrow : Encoding (.op .memoryGrow) [0x40, 0x00]
  | i32 {bs : List UInt8} {v : Int} (h : Reads (Leb128.signed 32) bs v) :
    Encoding (.op (.const (.i32 (.ofInt 32 v)))) (0x41 :: bs)
  | i64 {bs : List UInt8} {v : Int} (h : Reads (Leb128.signed 64) bs v) :
    Encoding (.op (.const (.i64 (.ofInt 64 v)))) (0x42 :: bs)
  | f32 {bs : List UInt8} (h : bs.length = 4) :
    Encoding (.op (.const (.f32 (.ofNat 32 (LittleEndian.toNat bs))))) (0x43 :: bs)
  | f64 {bs : List UInt8} (h : bs.length = 8) :
    Encoding (.op (.const (.f64 (.ofNat 64 (LittleEndian.toNat bs))))) (0x44 :: bs)

/-- **Spelling.** The bytes are the encodings of the words, one after another. -/
inductive Spells : List Token → List UInt8 → Prop
  | nil : Spells [] []
  | cons {t : Token} {ts : List Token} {bs cs : List UInt8} (h : Encoding t bs)
    (hs : Spells ts cs) : Spells (t :: ts) (bs ++ cs)

theorem Spells.append {ts us : List Token} {bs cs : List UInt8} (h : Spells ts bs)
    (h' : Spells us cs) : Spells (ts ++ us) (bs ++ cs) := by
  induction h with
  | nil => exact h'
  | cons hword _ ih =>
    rw [List.cons_append, List.append_assoc]
    exact .cons hword ih

/-! ### The scanner takes encodings -/

theorem range_of_load {opcode : UInt8} {op : LoadOp} (h : LoadOp.ofCode? opcode = some op) :
    0x28 ≤ opcode.toNat ∧ opcode.toNat ≤ 0x35 := by
  unfold LoadOp.ofCode? at h
  split at h
  next hfirst =>
    obtain ⟨hlt, -⟩ := List.getElem?_eq_some_iff.mp h
    have hlength : LoadOp.all.length = 14 := rfl
    have hcode : LoadOp.firstCode = 0x28 := rfl
    omega
  next => cases h

theorem range_of_store {opcode : UInt8} {op : StoreOp} (h : StoreOp.ofCode? opcode = some op) :
    0x36 ≤ opcode.toNat ∧ opcode.toNat ≤ 0x3E := by
  unfold StoreOp.ofCode? at h
  split at h
  next hfirst =>
    obtain ⟨hlt, -⟩ := List.getElem?_eq_some_iff.mp h
    have hlength : StoreOp.all.length = 9 := rfl
    have hcode : StoreOp.firstCode = 0x36 := rfl
    omega
  next => cases h

theorem load_of_range {opcode : UInt8} (h : 0x28 ≤ opcode.toNat ∧ opcode.toNat ≤ 0x35) :
    ∃ op, LoadOp.ofCode? opcode = some op := by
  have hlt : opcode.toNat - LoadOp.firstCode < LoadOp.all.length := by
    have hlength : LoadOp.all.length = 14 := rfl
    have hcode : LoadOp.firstCode = 0x28 := rfl
    omega
  refine ⟨LoadOp.all[opcode.toNat - LoadOp.firstCode], ?_⟩
  unfold LoadOp.ofCode?
  rw [if_pos (show LoadOp.firstCode ≤ opcode.toNat from h.1), List.getElem?_eq_getElem hlt]

theorem store_of_range {opcode : UInt8} (h : 0x36 ≤ opcode.toNat ∧ opcode.toNat ≤ 0x3E) :
    ∃ op, StoreOp.ofCode? opcode = some op := by
  have hlt : opcode.toNat - StoreOp.firstCode < StoreOp.all.length := by
    have hlength : StoreOp.all.length = 9 := rfl
    have hcode : StoreOp.firstCode = 0x36 := rfl
    omega
  refine ⟨StoreOp.all[opcode.toNat - StoreOp.firstCode], ?_⟩
  unfold StoreOp.ofCode?
  rw [if_pos (show StoreOp.firstCode ≤ opcode.toNat from h.1), List.getElem?_eq_getElem hlt]

/-- A load is told from everything else by its opcode. -/
theorem afterOpcode_of_load {opcode : UInt8} {op : LoadOp} (h : LoadOp.ofCode? opcode = some op) :
    afterOpcode opcode = accessOffset >>= fun offset => pure (.op (.load op offset)) := by
  have hrange := range_of_load h
  unfold afterOpcode
  split <;> first | omega | skip
  rw [h]

/-- A store is told from everything else by its opcode. -/
theorem afterOpcode_of_store {opcode : UInt8} {op : StoreOp}
    (h : StoreOp.ofCode? opcode = some op) :
    afterOpcode opcode = accessOffset >>= fun offset => pure (.op (.store op offset)) := by
  have hrange := range_of_store h
  have hload : LoadOp.ofCode? opcode = none := by
    cases hload : LoadOp.ofCode? opcode with
    | none => rfl
    | some op' =>
      have := range_of_load hload
      omega
  unfold afterOpcode
  split <;> first | omega | skip
  rw [hload, h]

/-- An opcode that no immediates follow is a word. -/
theorem afterOpcode_of_bare {opcode : UInt8} (h : ¬ TakesImmediates opcode) :
    afterOpcode opcode = pure (ofBare opcode) := by
  unfold TakesImmediates at h
  have hload : LoadOp.ofCode? opcode = none := by
    cases hload : LoadOp.ofCode? opcode with
    | none => rfl
    | some op =>
      have := range_of_load hload
      omega
  have hstore : StoreOp.ofCode? opcode = none := by
    cases hstore : StoreOp.ofCode? opcode with
    | none => rfl
    | some op =>
      have := range_of_store hstore
      omega
  unfold afterOpcode ofBare
  split <;> rename_i hcode <;> try first | omega | simp only [hcode]
  -- what is left is the last case of both sides
  rw [hload, hstore]
  cases NumericOp.ofCode? opcode with
  | none => dsimp only
  | some numeric => dsimp only

/-- A word is read once its opcode and what follows the opcode are. -/
theorem reads_next {opcode : UInt8} {bs : List UInt8} {t : Token}
    (h : Reads (afterOpcode opcode) bs t) : Reads next (opcode :: bs) t :=
  (Reads.byte opcode).immediate.bind h

theorem reads_reserved : Reads reserved [0x00] () :=
  show Reads reserved ([0x00] ++ []) () from (Reads.byte 0x00).immediate.bind (.pure ())

theorem IsArity.reads {code : UInt8} {arity : Nat} (h : IsArity code arity) :
    Reads blockArity [code] arity := by
  refine show Reads blockArity ([code] ++ []) arity from (Reads.byte code).immediate.bind ?_
  rcases h with ⟨rfl, rfl⟩ | ⟨t, rfl, rfl⟩
  · exact .ite rfl (.pure 0)
  · have hcode : t.code ≠ 0x40 := by cases t <;> decide
    exact .ite_else hcode (.ite (by rw [ValType.ofCode?_code]; rfl) (.pure 1))

theorem reads_accessOffset {bs cs : List UInt8} {alignment offset : Nat}
    (h : Reads Reader.index bs alignment) (h' : Reads Reader.index cs offset) :
    Reads accessOffset (bs ++ cs) offset := h.immediate.bind h'.immediate

theorem reads_indexed {opcode : UInt8} {make : Nat → Op} (hop : (opcode, make) ∈ indexedOps)
    {bs : List UInt8} {i : Nat} (h : Reads Reader.index bs i) :
    Reads (afterOpcode opcode) bs (.op (make i)) := by
  have hread : ∀ make : Nat → Op, Reads (indexed make) bs (.op (make i)) := fun make =>
    h.immediate.map fun i => Token.op (make i)
  simp only [indexedOps, List.mem_cons, Prod.mk.injEq, List.not_mem_nil, or_false] at hop
  rcases hop with ⟨rfl, rfl⟩ | ⟨rfl, rfl⟩ | ⟨rfl, rfl⟩ | ⟨rfl, rfl⟩ | ⟨rfl, rfl⟩ | ⟨rfl, rfl⟩ |
    ⟨rfl, rfl⟩ | ⟨rfl, rfl⟩ <;> exact hread _

/-- A constant of fixed width has as many bytes as it says. -/
theorem reads_fixed {count : Nat} {bs : List UInt8} (h : bs.length = count) :
    Reads (Reader.littleEndian count) bs (LittleEndian.toNat bs) := by
  subst h
  exact (Reads.bytes bs).map LittleEndian.toNat

/-- **Every encoding is read** as the word that it encodes. -/
theorem Encoding.reads {t : Token} {bs : List UInt8} (h : Encoding t bs) : Reads next bs t := by
  cases h with
  | bare h =>
    refine reads_next ?_
    rw [afterOpcode_of_bare h]
    exact .pure _
  | block h => exact reads_next (h.reads.map Token.block)
  | loop h => exact reads_next (h.reads.map fun _ => Token.loop)
  | ifThen h => exact reads_next (h.reads.map Token.ifThen)
  | indexed hop h => exact reads_next (reads_indexed hop h)
  | brTable h h' =>
    exact reads_next (h.immediate.bind (h'.immediate.map fun d => Token.op (.brTable _ d)))
  | callIndirect h =>
    exact reads_next (h.immediate.bind (reads_reserved.map fun _ => Token.op (.callIndirect _)))
  | load hop h h' =>
    refine reads_next ?_
    rw [afterOpcode_of_load hop]
    exact (reads_accessOffset h h').map fun offset => Token.op (.load _ offset)
  | store hop h h' =>
    refine reads_next ?_
    rw [afterOpcode_of_store hop]
    exact (reads_accessOffset h h').map fun offset => Token.op (.store _ offset)
  | memorySize => exact reads_next (reads_reserved.map fun _ => Token.op .memorySize)
  | memoryGrow => exact reads_next (reads_reserved.map fun _ => Token.op .memoryGrow)
  | i32 h => exact reads_next (h.immediate.map fun v => Token.op (.const (.i32 (.ofInt 32 v))))
  | i64 h => exact reads_next (h.immediate.map fun v => Token.op (.const (.i64 (.ofInt 64 v))))
  | f32 h =>
    exact reads_next ((reads_fixed h).immediate.map fun n => Token.op (.const (.f32 (.ofNat 32 n))))
  | f64 h =>
    exact reads_next ((reads_fixed h).immediate.map fun n => Token.op (.const (.f64 (.ofNat 64 n))))

/-! ### The scanner takes nothing else -/

theorem reserved_takes : Takes reserved fun _ used => used = [0x00] := by
  refine Takes.byte.immediate.bind fun b u hu => ?_
  split
  next hzero =>
    refine .pure ?_
    rw [hu, hzero]
    rfl
  next => exact .throw _

theorem blockArity_takes :
    Takes blockArity fun arity used => ∃ code, used = [code] ∧ IsArity code arity := by
  refine Takes.byte.immediate.bind fun code u hu => ?_
  subst hu
  split
  next hempty => exact .pure ⟨code, rfl, .inl ⟨hempty, rfl⟩⟩
  next =>
    split
    next htype =>
      obtain ⟨t, ht⟩ := Option.isSome_iff_exists.mp htype
      exact .pure ⟨code, rfl, .inr ⟨t, ValType.code_of_ofCode? ht, rfl⟩⟩
    next => exact .throw _

theorem index_takes : Takes (immediate .index) fun i used => Reads Reader.index used i :=
  (Takes.of_local Local.index).immediate

theorem accessOffset_takes : Takes accessOffset fun offset used =>
    ∃ bs cs alignment, used = bs ++ cs ∧ Reads Reader.index bs alignment ∧
      Reads Reader.index cs offset :=
  index_takes.bind fun alignment bs hbs =>
    index_takes.mono fun _ cs hcs => ⟨bs, cs, alignment, rfl, hbs, hcs⟩

/-! #### Words by their layout -/

section Layouts

variable {opcode : UInt8}

/-- What follows the opcode makes an encoding of a word together with it. -/
def Completes (opcode : UInt8) (r : Scanner Token) : Prop :=
  Takes r fun t used => Encoding t (opcode :: used)

theorem completes_bare {t : Token} (h : ¬ TakesImmediates opcode) (ht : t = ofBare opcode) :
    Completes opcode (pure t) := by
  subst ht
  exact .pure (.bare h)

theorem completes_construct {make : Nat → Token}
    (h : ∀ {code arity}, IsArity code arity → Encoding (make arity) [opcode, code]) :
    Completes opcode (blockArity >>= fun arity => pure (make arity)) := by
  refine blockArity_takes.bind fun arity u hu => ?_
  obtain ⟨code, rfl, harity⟩ := hu
  exact .pure (h harity)

theorem completes_indexed {make : Nat → Op} (h : (opcode, make) ∈ indexedOps) :
    Completes opcode (indexed make) := by
  refine index_takes.bind fun i u hu => .pure ?_
  rw [List.append_nil]
  exact .indexed h hu

theorem completes_reserved {t : Token} (h : Encoding t [opcode, 0x00]) :
    Completes opcode (reserved >>= fun _ => pure t) := by
  refine reserved_takes.bind fun _ u hu => .pure ?_
  rw [hu]
  exact h

theorem completes_access {make : Nat → Token}
    (h : ∀ {bs cs alignment offset}, Reads Reader.index bs alignment →
      Reads Reader.index cs offset → Encoding (make offset) (opcode :: (bs ++ cs))) :
    Completes opcode (accessOffset >>= fun offset => pure (make offset)) := by
  refine accessOffset_takes.bind fun offset u hu => .pure ?_
  obtain ⟨bs, cs, alignment, rfl, hbs, hcs⟩ := hu
  rw [List.append_nil]
  exact h hbs hcs

theorem completes_constant {α : Type} {r : Reader α} {P : α → List UInt8 → Prop} (hr : Takes r P)
    {make : α → Value} (h : ∀ {a bs}, P a bs → Encoding (.op (.const (make a))) (opcode :: bs)) :
    Completes opcode (constant r make) := by
  refine hr.immediate.bind fun a u hu => .pure ?_
  rw [List.append_nil]
  exact h hu

theorem completes_brTable : Completes 0x0E (immediate (.vector .index) >>= fun depths =>
    immediate .index >>= fun default => pure (.op (.brTable depths default))) := by
  refine (Takes.of_local (Local.vector Local.index)).immediate.bind fun depths u hu => ?_
  refine index_takes.bind fun default v hv => .pure ?_
  rw [List.append_nil]
  exact .brTable hu hv

theorem completes_callIndirect : Completes 0x11 (immediate .index >>= fun type =>
    reserved >>= fun _ => pure (.op (.callIndirect type))) := by
  refine index_takes.bind fun type u hu => ?_
  refine reserved_takes.bind fun _ v hv => .pure ?_
  rw [List.append_nil, hv]
  exact .callIndirect hu

end Layouts

/-- **What follows an opcode** makes an encoding of a word together with it. The cases are those of
the opcodes. -/
theorem afterOpcode_completes (opcode : UInt8) : Completes opcode (afterOpcode opcode) := by
  -- an opcode that is told by its number is that number
  have known : ∀ {b : UInt8} {r : Scanner Token}, Completes b r → opcode.toNat = b.toNat →
      Completes opcode r := fun h hcode => UInt8.toNat_inj.mp hcode ▸ h
  -- three families of opcodes are told by a range
  by_cases hnone : ¬ TakesImmediates opcode
  · rw [afterOpcode_of_bare hnone]
    exact completes_bare hnone rfl
  by_cases hload : ∃ op, LoadOp.ofCode? opcode = some op
  · obtain ⟨op, hop⟩ := hload
    rw [afterOpcode_of_load hop]
    exact completes_access (.load hop)
  by_cases hstore : ∃ op, StoreOp.ofCode? opcode = some op
  · obtain ⟨op, hop⟩ := hstore
    rw [afterOpcode_of_store hop]
    exact completes_access (.store hop)
  have hload := fun h => hload (load_of_range h)
  have hstore := fun h => hstore (store_of_range h)
  unfold TakesImmediates at hnone
  unfold afterOpcode
  split <;> rename_i hcode
  case h_1 | h_2 | h_6 | h_7 | h_11 | h_14 | h_15 => omega
  case h_3 => exact known (completes_construct .block) hcode
  case h_4 => exact known (completes_construct .loop) hcode
  case h_5 => exact known (completes_construct .ifThen) hcode
  case h_8 => exact known (b := 0x0C) (completes_indexed (by simp [indexedOps])) hcode
  case h_9 => exact known (b := 0x0D) (completes_indexed (by simp [indexedOps])) hcode
  case h_10 => exact known completes_brTable hcode
  case h_12 => exact known (b := 0x10) (completes_indexed (by simp [indexedOps])) hcode
  case h_13 => exact known completes_callIndirect hcode
  case h_16 => exact known (b := 0x20) (completes_indexed (by simp [indexedOps])) hcode
  case h_17 => exact known (b := 0x21) (completes_indexed (by simp [indexedOps])) hcode
  case h_18 => exact known (b := 0x22) (completes_indexed (by simp [indexedOps])) hcode
  case h_19 => exact known (b := 0x23) (completes_indexed (by simp [indexedOps])) hcode
  case h_20 => exact known (b := 0x24) (completes_indexed (by simp [indexedOps])) hcode
  case h_21 => exact known (completes_reserved .memorySize) hcode
  case h_22 => exact known (completes_reserved .memoryGrow) hcode
  case h_23 => exact known (completes_constant (.of_local (.signed 32)) .i32) hcode
  case h_24 => exact known (completes_constant (.of_local (.signed 64)) .i64) hcode
  case h_25 =>
    refine known (b := 0x43) (completes_constant (.littleEndian 4) ?_) hcode
    rintro n bs ⟨hlength, rfl⟩
    exact .f32 hlength
  case h_26 =>
    refine known (b := 0x44) (completes_constant (.littleEndian 8) ?_) hcode
    rintro n bs ⟨hlength, rfl⟩
    exact .f64 hlength
  case h_27 =>
    simp only [imp_false] at *
    omega

/-- **What is taken for a word** is an encoding of it. -/
theorem next_takes : Takes next Encoding :=
  Takes.byte.immediate.bind fun opcode u hu => by
    subst hu
    exact afterOpcode_completes opcode

/-! ### Scanning -/

theorem scan_of_ok {c c' : Cursor} {t : Token} (h : next c = .ok t c') :
    scan c = ((c.offset, t) :: (scan c').1, (scan c').2) := by
  rw [scan]
  split
  next h' =>
    rw [h] at h'
    cases h'
  next h' =>
    rw [h] at h'
    cases h'
    rfl

theorem scan_of_error {c c' : Cursor} {flaw : BodyFlaw} (h : next c = .error flaw c') :
    scan c = ([], (c.offset, flaw)) := by
  rw [scan]
  split
  next h' =>
    rw [h] at h'
    cases h'
    rfl
  next h' =>
    rw [h] at h'
    cases h'

/-- **The words that the scanner finds** spell the bytes as far as it gets. The induction is on the
bytes that are left. -/
theorem scan_spells (c : Cursor) : ∃ used left, c.rest = used ++ left ∧
    Spells ((scan c).1.map Prod.snd) used ∧ (scan c).2.1 = c.offset + used.length := by
  induction hn : c.rest.length using Nat.strongRecOn generalizing c with
  | ind n ih =>
    cases hnext : next c with
    | error flaw c' =>
      rw [scan_of_error hnext]
      exact ⟨[], c.rest, rfl, .nil, rfl⟩
    | ok t c' =>
      obtain ⟨bs, hrest, hoffset, hencoding⟩ := next_takes c t c' hnext
      obtain ⟨used, left, hrest', hspells, hstop⟩ := ih _ (hn ▸ next_shorter hnext) c' rfl
      rw [scan_of_ok hnext]
      refine ⟨bs ++ used, left, ?_, .cons hencoding hspells, ?_⟩
      · rw [hrest, hrest', List.append_assoc]
      · rw [hstop, hoffset, List.length_append, Nat.add_assoc]

/-- A word that is found begins before the end of the bytes. -/
theorem scan_offset_lt (c : Cursor) :
    ∀ p ∈ (scan c).1, p.1 < c.offset + c.rest.length := by
  induction hn : c.rest.length using Nat.strongRecOn generalizing c with
  | ind n ih =>
    cases hnext : next c with
    | error flaw c' =>
      rw [scan_of_error hnext]
      exact fun p hp => absurd hp List.not_mem_nil
    | ok t c' =>
      have hshorter : c'.rest.length < n := hn ▸ next_shorter hnext
      obtain ⟨bs, hrest, hoffset, -⟩ := next_takes c t c' hnext
      have hlength : c.rest.length = bs.length + c'.rest.length := by
        rw [hrest, List.length_append]
      rw [scan_of_ok hnext]
      refine List.forall_mem_cons.mpr ⟨?_, fun p hp => ?_⟩
      · show c.offset < c.offset + n
        omega
      · have := ih _ hshorter c' rfl p hp
        omega

/-- **Spelled bytes have only one reading**: the scanner finds the words that spell them, and gets
to the end. -/
theorem Spells.scan_eq {ws : List Token} {bs : List UInt8} (h : Spells ws bs) (offset : Nat)
    (hroom : offset + bs.length < 0x1_0000_0000_0000_0000) :
    (scan ⟨offset, bs⟩).1.map Prod.snd = ws ∧ (scan ⟨offset, bs⟩).2.1 = offset + bs.length := by
  induction h generalizing offset with
  | nil =>
    have hnext : next ⟨offset, []⟩ = .error .truncated ⟨offset, []⟩ := rfl
    rw [scan_of_error hnext]
    exact ⟨rfl, rfl⟩
  | @cons t ts bs cs hword _ ih =>
    rw [List.length_append] at hroom ⊢
    obtain ⟨hwords, hstop⟩ := ih (offset + bs.length) (by omega)
    rw [scan_of_ok (hword.reads offset cs (by omega))]
    exact ⟨congrArg (t :: ·) hwords, hstop.trans (Nat.add_assoc _ _ _)⟩

end Token

end MeteredSandbox
