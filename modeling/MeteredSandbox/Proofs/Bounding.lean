import Mathlib
import MeteredSandbox.Proofs.Admission
import MeteredSandbox.Proofs.Watching
import MeteredSandbox.Session.Registry

/-!
# Bounded instances

The policy of a host bounds the memory and the table of every program that it admits, and the bounds
hold as long as an instance of the program lives (`Instance.keeps_bounds`). They are put into the
module before it is compiled (`Limits.bounded`), copied into the memory when it is made
(`Memory.sized_ofLimits`), and obeyed whenever it grows.

A memory is **sized** (`Memory.Sized`) if it consists of whole pages, of which there are not fewer
than declared and not more than the memory itself allows. Whole pages matter: the number of pages is
found by a division, and growing adds to it what it should only if nothing is left over. Writing
changes neither number, and nothing else touches a memory; the table is never touched at all.
-/

namespace MeteredSandbox

/-! ### Memories -/

namespace Memory

theorem size_zeroPages (n : Nat) : (zeroPages n).size = n * pageSize := by
  induction n with
  | zero => exact (Nat.zero_mul _).symm
  | succ n ih =>
    have hpage : zeroPage.size = pageSize := Array.size_replicate
    rw [zeroPages, ByteArray.size_append, ih, hpage, Nat.succ_mul]

theorem size_overwrite (bytes : ByteArray) (address : Nat) (bs : List UInt8) :
    (overwrite bytes address bs).size = bytes.size := by
  induction bs generalizing bytes address with
  | nil => rfl
  | cons b rest ih => rw [overwrite, ih, ByteArray.size_set!]

/-- Writing keeps the number of bytes and the bound. -/
theorem write_eq_ok {memory memory' : Memory} {address : Nat} {bs : List UInt8}
    (h : write address bs memory = .ok () memory') :
    memory'.size = memory.size ∧ memory'.maxPages = memory.maxPages := by
  unfold write at h
  split at h
  · cases h
    exact ⟨size_overwrite _ _ _, rfl⟩
  · cases h

/-- Growing adds pages, as far as the bound allows. -/
theorem grow_eq_ok {memory memory' : Memory} {delta previous : Nat}
    (h : grow delta memory = .ok (some previous) memory') :
    memory.pages + delta ≤ memory.maxPages ∧ memory'.size = memory.size + delta * pageSize ∧
      memory'.maxPages = memory.maxPages := by
  unfold grow at h
  split at h
  next hfits =>
    cases h
    refine ⟨hfits, ?_, rfl⟩
    change (memory.bytes ++ zeroPages delta).size = _
    rw [ByteArray.size_append, size_zeroPages]
    rfl
  next => cases h

section Pages

variable {memory memory' : Memory}

theorem pages_write {address : Nat} {bs : List UInt8}
    (h : write address bs memory = .ok () memory') : memory'.pages = memory.pages := by
  unfold pages
  rw [(write_eq_ok h).1]

theorem pages_grow {delta previous : Nat} (h : grow delta memory = .ok (some previous) memory') :
    memory'.pages = memory.pages + delta := by
  unfold pages
  rw [(grow_eq_ok h).2.1, Nat.add_mul_div_right _ _ (by decide)]

end Pages

/-- A memory with the given limits, **as large as they allow**: it consists of whole pages, not
fewer than the least number, and not more than the number that it may grow to. -/
structure Sized (l : Limits) (memory : Memory) : Prop where
  size : memory.size = memory.pages * pageSize
  min_le : l.min ≤ memory.pages
  pages_le : memory.pages ≤ memory.maxPages
  maxPages : memory.maxPages = (ofLimits l).maxPages

variable {l : Limits} {memory memory' : Memory}

theorem Sized.write {address : Nat} {bs : List UInt8} (h : memory.Sized l)
    (hwrite : Memory.write address bs memory = .ok () memory') : memory'.Sized l := by
  obtain ⟨hsize, hmax⟩ := write_eq_ok hwrite
  have hpages := pages_write hwrite
  constructor
  · rw [hsize, hpages, h.size]
  · rw [hpages]
    exact h.min_le
  · rw [hpages, hmax]
    exact h.pages_le
  · rw [hmax, h.maxPages]

theorem Sized.grow {delta previous : Nat} (h : memory.Sized l)
    (hgrow : Memory.grow delta memory = .ok (some previous) memory') : memory'.Sized l := by
  obtain ⟨hfits, hsize, hmax⟩ := grow_eq_ok hgrow
  have hpages := pages_grow hgrow
  constructor
  · rw [hsize, hpages, h.size, Nat.add_mul]
  · rw [hpages]
    exact Nat.le_add_right_of_le h.min_le
  · rw [hpages, hmax]
    exact hfits
  · rw [hmax, h.maxPages]

/-- A fresh memory has as many pages as have to be there. -/
theorem sized_ofLimits (h : l.min ≤ (ofLimits l).maxPages) : (ofLimits l).Sized l := by
  have hsize : (ofLimits l).size = l.min * pageSize := size_zeroPages l.min
  have hpages : (ofLimits l).pages = l.min := by
    unfold pages
    rw [hsize, Nat.mul_div_cancel _ (by decide)]
  refine ⟨?_, hpages.ge, hpages.le.trans h, rfl⟩
  rw [hpages, hsize]

end Memory

/-! ### Tables -/

namespace Table

theorem size_fill (slots : Array (Option Nat)) (index : Nat) (funcs : List Nat) :
    (fill slots index funcs).size = slots.size := by
  induction funcs generalizing slots index with
  | nil => rfl
  | cons func rest ih => rw [fill, ih, Array.size_setIfInBounds]

theorem size_init? {table table' : Table} {offset : Nat} {funcs : List Nat}
    (h : table.init? offset funcs = some table') : table'.size = table.size := by
  unfold init? at h
  split at h
  · cases h
    exact size_fill _ _ _
  · cases h

end Table

/-! ### Stores -/

/-- The store has a memory if limits are given, and then one that is sized. -/
abbrev Store.Sized (l : Option Limits) (store : Store) : Prop :=
  Option.Rel Memory.Sized l store.memory

/-- From one store to another the memory has lost no pages, and the table has not changed. -/
structure Store.Grows (store store' : Store) : Prop where
  memory : ∀ memory ∈ store.memory, ∃ memory' ∈ store'.memory, memory.pages ≤ memory'.pages
  table : store'.table = store.table

namespace Store

variable {σ : Type} (s : Setting σ)

/-- **No change takes a memory out of its limits.** -/
theorem sized_stable (l : Option Limits) : Machine.Stable s fun x => Sized l x.store := by
  intro x x' hchange hx
  cases hchange with
  | write hmemory hwrite =>
    rw [Sized, hmemory] at hx
    cases hx with
    | some h => exact .some (h.write hwrite)
  | grow hmemory hgrow =>
    rw [Sized, hmemory] at hx
    cases hx with
    | some h => exact .some (h.grow hgrow)
  | _ => exact hx

/-- **Every change lets the store grow.** -/
theorem grows_forward : Machine.Forward s Grows where
  refl store := ⟨fun memory hmemory => ⟨memory, hmemory, Nat.le_refl _⟩, rfl⟩
  trans {store store' store''} h h' := by
    refine ⟨fun memory hmemory => ?_, h'.table.trans h.table⟩
    obtain ⟨memory', hmemory', hle⟩ := h.memory memory hmemory
    obtain ⟨memory'', hmemory'', hle'⟩ := h'.memory memory' hmemory'
    exact ⟨memory'', hmemory'', Nat.le_trans hle hle'⟩
  stable store := by
    intro x x' hchange hx
    -- another memory with no fewer pages in the place of the one that is there
    have hreplace : ∀ {before after : Memory}, x.store.memory = some before →
        before.pages ≤ after.pages →
        Grows store { x.store with memory := some after } := by
      intro before after hbefore hle
      refine ⟨fun memory hmemory => ⟨after, rfl, ?_⟩, hx.table⟩
      obtain ⟨memory', hmemory', hle'⟩ := hx.memory memory hmemory
      rw [hbefore] at hmemory'
      cases hmemory'
      exact Nat.le_trans hle' hle
    cases hchange with
    | write hmemory hwrite => exact hreplace hmemory (Memory.pages_write hwrite).ge
    | grow hmemory hgrow =>
      refine hreplace hmemory ?_
      rw [Memory.pages_grow hgrow]
      exact Nat.le_add_right _ _
    | setGlobal => exact ⟨hx.memory, hx.table⟩
    | _ => exact hx

end Store

/-! ### Fresh instances -/

namespace Module

/-- Segments of bytes change the content of a memory only. -/
theorem initMemory_sized {l : Option Limits} {globals : List GlobalCell} {segment : Nat}
    {data : List DataSegment} {memory memory' : Option Memory}
    (h : initMemory globals segment memory data = .ok memory')
    (hmemory : Option.Rel Memory.Sized l memory) : Option.Rel Memory.Sized l memory' := by
  induction data generalizing segment memory with
  | nil =>
    cases h
    exact hmemory
  | cons d rest ih =>
    rw [initMemory] at h
    obtain ⟨offset, -, h⟩ := exists_of_bind_eq_ok h
    split at h
    next => cases h
    next before =>
      split at h
      next after hwrite =>
        refine ih h ?_
        cases hmemory with
        | some hsized => exact .some (hsized.write hwrite)
      next => cases h

/-- Segments of functions change the content of a table only. -/
theorem initTable_size {l : Option Limits} {globals : List GlobalCell} {segment : Nat}
    {elements : List ElementSegment} {table table' : Option Table}
    (h : initTable globals segment table elements = .ok table')
    (htable : Option.Rel (fun (l : Limits) (table : Table) => table.size = l.min) l table) :
    Option.Rel (fun (l : Limits) (table : Table) => table.size = l.min) l table' := by
  induction elements generalizing segment table with
  | nil =>
    cases h
    exact htable
  | cons e rest ih =>
    rw [initTable] at h
    obtain ⟨offset, -, h⟩ := exists_of_bind_eq_ok h
    split at h
    next after hinit =>
      refine ih h ?_
      obtain ⟨before, rfl, hinit⟩ := Option.bind_eq_some_iff.mp hinit
      cases htable with
      | some hsize => exact .some ((Table.size_init? hinit).trans hsize)
    next => cases h

end Module

/-- **A fresh instance** has a memory and a table as large as its module declares. -/
theorem instantiate_sized {p : Program} {resolve : Resolver} {i : Instance}
    (h : instantiate p resolve = .ok i)
    (hmemories : ∀ l ∈ p.source.memories, l.min ≤ (Memory.ofLimits l).maxPages) :
    i.store.Sized p.source.memories.head? ∧
      Option.Rel (fun (l : Limits) (table : Table) => table.size = l.min) p.source.tables.head?
        i.store.table := by
  obtain ⟨host, -, h⟩ := exists_of_bind_eq_ok h
  obtain ⟨globals, -, h⟩ := exists_of_bind_eq_ok h
  obtain ⟨table, htable, h⟩ := exists_of_bind_eq_ok h
  obtain ⟨memory, hmemory, h⟩ := exists_of_bind_eq_ok h
  cases h
  refine ⟨Module.initMemory_sized hmemory ?_, Module.initTable_size htable ?_⟩
  · cases hhead : p.source.memories.head? with
    | none => exact .none
    | some l => exact .some (Memory.sized_ofLimits (hmemories l (List.mem_of_head? hhead)))
  · cases p.source.tables.head? with
    | none => exact .none
    | some l => exact .some Array.size_replicate

/-! ### Admitted programs -/

/-- A catalog that was filled by admitting programs one after another. -/
inductive Catalog.Filled (policy : Policy) : Catalog → Prop
  | empty : Filled policy { policy }
  | insert {c c' : Catalog} {bytes : List UInt8} {d : Digest} (h : Filled policy c)
      (hinsert : Catalog.insert bytes c = .ok d c') : Filled policy c'

/-- All entries of a catalog were accepted by its policy. -/
theorem Catalog.Filled.accepted {policy : Policy} {c : Catalog} (h : c.Filled policy) :
    c.policy = policy ∧ ∀ e ∈ c.entries, ∃ bytes, policy.accept bytes = .ok e := by
  induction h with
  | empty => exact ⟨rfl, fun e he => absurd he List.not_mem_nil⟩
  | insert _ hinsert ih =>
    obtain ⟨hpolicy, hentries⟩ := ih
    unfold Catalog.insert at hinsert
    split at hinsert
    next =>
      cases hinsert
      exact ⟨hpolicy, hentries⟩
    next =>
      split at hinsert
      next e haccept =>
        cases hinsert
        rw [hpolicy] at haccept
        exact ⟨hpolicy, List.forall_mem_append.mpr
          ⟨hentries, List.forall_mem_singleton.mpr ⟨_, haccept⟩⟩⟩
      next => cases hinsert

/-- **A memory within bounds**: it has the limits that its module declares, and besides them the
bound of the policy. -/
structure Memory.Within (bound : Nat) (l : Limits) (memory : Memory) : Prop where
  size : memory.bytes.size = memory.pages * 65536
  min_le : l.min ≤ memory.pages
  le_max : ∀ max ∈ l.max, memory.pages ≤ max
  le_bound : memory.pages ≤ bound
  le_maxPages : memory.pages ≤ 65536

/-- **A table within bounds**: it has as many slots as its module declares at least, and not more
than the policy allows. -/
structure Table.Within (bound : Nat) (l : Limits) (table : Table) : Prop where
  size : table.size = l.min
  le_bound : table.size ≤ bound
  le_maxTableSize : table.size ≤ 65536

/-- A memory with bounded limits is within the bound. -/
theorem Memory.Sized.within {bound : Nat} {l : Limits} {memory : Memory}
    (h : memory.Sized (l.bounded bound)) : memory.Within bound l := by
  have hmax : memory.maxPages = min (l.bound bound) 65536 := h.maxPages
  have hle : memory.pages ≤ min (l.bound bound) 65536 := hmax ▸ h.pages_le
  obtain ⟨hbound, hpages⟩ := Nat.le_min.mp hle
  obtain ⟨hdeclared, hpolicy⟩ := Nat.le_min.mp hbound
  refine ⟨h.size, h.min_le, ?_, hpolicy, hpages⟩
  intro max hmem
  rw [hmem, Option.getD_some] at hdeclared
  exact hdeclared

/-- Two optional things that are related after the first has been mapped. -/
theorem rel_of_rel_map {α β γ : Type} {R : β → γ → Prop} {R' : α → γ → Prop} {f : α → β}
    {a : Option α} {c : Option γ} (h : Option.Rel R (a.map f) c)
    (hR : ∀ x ∈ a, ∀ y, R (f x) y → R' x y) : Option.Rel R' a c := by
  cases a with
  | none =>
    cases h
    exact .none
  | some x =>
    cases h with
    | some hxy => exact .some (hR x rfl _ hxy)

/-- A fresh instance of a program that was prepared within bounds. -/
theorem instantiate_within {m : Module} {memoryBound tableBound : Nat} {name : String}
    {program : Program} {resolve : Resolver} {i : Instance}
    (hprogram : Program.ofModule (m.prepared memoryBound tableBound name) = .ok program)
    (hmemories : ∀ l ∈ m.memories, l.min ≤ l.bound memoryBound)
    (htables : ∀ l ∈ m.tables, l.min ≤ l.bound tableBound)
    (h : instantiate program resolve = .ok i) :
    i.store.Sized (m.memories.head?.map (Limits.bounded memoryBound)) ∧
      Option.Rel (Table.Within tableBound) m.tables.head? i.store.table := by
  obtain ⟨hvalid, hsource, -⟩ := Program.ofModule_eq_ok hprogram
  have hspaces := (Module.validate_eq_ok_iff.mp hvalid).2.2.1
  unfold Module.checkSpaces at hspaces
  simp only [Check.bind_eq_ok_iff, Check.all_eq_ok_iff] at hspaces
  obtain ⟨-, -, -, hcheckTables, hcheckMemories⟩ := hspaces
  have hfits : ∀ l ∈ program.source.memories, l.min ≤ (Memory.ofLimits l).maxPages := by
    rw [hsource]
    intro l hl
    have hpages : l.min ≤ maxPages := of_decide_eq_true
      (Check.require_eq_ok_iff.mp (Check.bind_eq_ok_iff.mp (hcheckMemories l hl)).2)
    obtain ⟨l, hmem, rfl⟩ := List.mem_map.mp hl
    exact Nat.le_min.mpr ⟨hmemories l hmem, hpages⟩
  obtain ⟨hmemory, htable⟩ := instantiate_sized h hfits
  rw [hsource] at hmemory htable
  change Option.Rel _ (m.memories.map (Limits.bounded memoryBound)).head? _ at hmemory
  change Option.Rel _ (m.tables.map (Limits.bounded tableBound)).head? _ at htable
  rw [List.head?_map] at hmemory htable
  refine ⟨hmemory, rel_of_rel_map htable fun l hhead table hsize => ?_⟩
  have hl : l ∈ m.tables := List.mem_of_head? hhead
  have hsize : table.size = l.min := hsize
  have hslots : l.min ≤ maxTableSize := of_decide_eq_true (Check.require_eq_ok_iff.mp
    (Check.bind_eq_ok_iff.mp (hcheckTables _ (List.mem_map_of_mem hl))).2)
  refine ⟨hsize, ?_, ?_⟩
  · rw [hsize]
    exact (htables l hl).trans (Nat.min_le_right _ _)
  · rw [hsize]
    exact hslots

/-- A call of an embedder is a call of the instance, on the meters of the linked program. -/
theorem LinkedProgram.call_guest (p : LinkedProgram) (pricing : Pricing) (limit func : Nat)
    (operands : OperandStack) :
    (p.call pricing limit func operands).2.2.guest = p.guest.after
      { σ := Meters, checkpoint := Meters.checkpoint, pricing, limit, func, args := [], operands,
        account := p.meters } := rfl

namespace Instance

/-- **The bounds hold for life.** Take any program of a catalog, the module in the bytes that the
policy accepted as this program, any instance of it and any sequence of calls. At every moment the
instance has a memory and a table if the module declares them, and then within the declared limits
and the bounds of the policy. The memory never loses pages, and the table never changes. -/
theorem keeps_bounds {policy : Policy} {c : Catalog} (hc : c.Filled policy) {e : CatalogEntry}
    (he : e ∈ c.entries) :
    ∃ bytes m, policy.accept bytes = .ok e ∧ e.digest = .of bytes ∧ Module.parse bytes = .ok m ∧
      ∀ resolve i, instantiate e.program resolve = .ok i → ∀ calls : List Call,
        (∀ x ∈ i.history calls,
          Option.Rel (Memory.Within policy.memoryBound) m.memories.head? x.store.memory ∧
            Option.Rel (Table.Within policy.tableBound) m.tables.head? x.store.table ∧
            i.store.Grows x.store) ∧
          (i.history calls).Pairwise fun x y => x.store.Grows y.store := by
  obtain ⟨bytes, haccept⟩ := hc.accepted.2 e he
  obtain ⟨m, hparse, hdigest, -, hprogram, hmemories, htables⟩ := Policy.accept_eq_ok haccept
  refine ⟨bytes, m, haccept, hdigest, hparse, fun resolve i hinstance calls => ⟨fun x hx => ?_, ?_⟩⟩
  · obtain ⟨hsized, htable⟩ := instantiate_within hprogram hmemories htables hinstance
    have hsized : x.store.Sized (m.memories.head?.map (Limits.bounded policy.memoryBound)) :=
      history_forall (I := fun x => x.store.Sized _) (fun s _ => Store.sized_stable s _)
        (fun _ h => h) hsized calls x hx
    have hgrows : i.store.Grows x.store :=
      history_forall (I := fun x => i.store.Grows x.store)
        (fun s _ => (Store.grows_forward s).stable i.store) (fun _ h => h)
        ((Store.grows_forward (i.setting Checkpoint.unmetered {} 0)).refl i.store) calls x hx
    refine ⟨rel_of_rel_map hsized fun l _ memory h => h.within, ?_, hgrows⟩
    rw [hgrows.table]
    exact htable
  · exact history_pairwise (fun s _ => Store.grows_forward s) calls

/-- The bytes of a module with a memory, a table, and a function that lets the memory grow. -/
def growingBytes : List UInt8 :=
  [0x00, 0x61, 0x73, 0x6d, 0x01, 0x00, 0x00, 0x00, 0x01, 0x05, 0x01, 0x60, 0x00, 0x01, 0x7f, 0x03,
    0x02, 0x01, 0x00, 0x04, 0x04, 0x01, 0x70, 0x00, 0x02, 0x05, 0x03, 0x01, 0x00, 0x01, 0x0a, 0x08,
    0x01, 0x06, 0x00, 0x41, 0x01, 0x40, 0x00, 0x0b]

/-- The module that they spell. -/
def growingModule : Module where
  types := [{ params := [], results := [.i32] }]
  funcs := [0]
  tables := [{ min := 2, max := none }]
  memories := [{ min := 1, max := none }]
  codes := [{ locals := [], body := [0x41, 0x01, 0x40, 0x00, 0x0b] }]

/-- A policy that allows two pages. -/
def narrowPolicy : Policy where
  memoryBound := 2

/-- The program that the policy makes of the module. -/
def growingProgram : Program where
  source := growingModule.prepared 2 4096 "guest_start"
  signatures := #[some { params := [], results := [.i32] }]
  imported := 0
  bodies := #[{ locals := #[], code := #[.op (.const (.i32 1)), .op .memoryGrow, .endMark] }]

/-- The catalog entry that the policy makes of it. -/
def growingEntry : CatalogEntry where
  digest := .of growingBytes
  program := growingProgram
  points := []
  start := none

/-- An instance of the program. -/
def growing : Instance where
  program := growingProgram
  host := #[]
  store :=
    { memory := some (.ofLimits { min := 1, max := some 2 })
      table := some (.ofLimits { min := 2, max := some 4096 })
      globals := #[] }

private theorem parse_growingBytes : Module.parse growingBytes = .ok growingModule := by
  have hsections : RawSection.all ⟨8, growingBytes.drop 8⟩ = (
      [{ id := .types, payloadOffset := 10, payload := [0x01, 0x60, 0x00, 0x01, 0x7f] },
        { id := .functions, payloadOffset := 17, payload := [0x01, 0x00] },
        { id := .tables, payloadOffset := 21, payload := [0x01, 0x70, 0x00, 0x02] },
        { id := .memories, payloadOffset := 27, payload := [0x01, 0x00, 0x01] },
        { id := .code, payloadOffset := 32, payload := [0x01, 0x06, 0x00, 0x41, 0x01, 0x40, 0x00,
            0x0b] }],
      none) := by cbv
  exact Module.parse_of_sections rfl hsections rfl rfl

private theorem accept_growingBytes : narrowPolicy.accept growingBytes = .ok growingEntry := by
  have hadjusted : narrowPolicy.adjusted growingBytes
      = .ok (growingModule.prepared 2 4096 "guest_start") := by
    unfold Policy.adjusted
    rw [parse_growingBytes]
    rfl
  have hvalid : (growingModule.prepared 2 4096 "guest_start").validate = .ok () := rfl
  have hbodies : (growingModule.prepared 2 4096 "guest_start").compileBodies 0
      growingModule.codes = .ok [{ locals := #[], code :=
        #[.op (.const (.i32 1)), .op .memoryGrow, .endMark] }] := by cbv
  have hprogram : Program.ofModule (growingModule.prepared 2 4096 "guest_start")
      = .ok growingProgram := Program.ofModule_of_bodies hvalid hbodies
  have hpoints : growingProgram.entryPoints narrowPolicy.entryMark = .ok [] := rfl
  have hstart : growingProgram.exportedFunc? narrowPolicy.startName = none := rfl
  unfold Policy.accept
  rw [hadjusted]
  dsimp only [Bind.bind, Except.bind]
  rw [hprogram]
  dsimp only [Except.mapError]
  rw [hpoints]
  dsimp only
  rw [hstart]
  rfl

/-- A call that asks for one page more. -/
def growingCall : Call where
  σ := Unit
  checkpoint := .unmetered
  pricing := {}
  limit := 10
  func := 0
  args := []
  operands := .empty
  account := ()

/-- However often a page more is asked for, there are two at most. -/
theorem growing_keeps_bounds :
    ∃ c : Catalog, c.Filled narrowPolicy ∧ growingEntry ∈ c.entries ∧
      instantiate growingEntry.program Imports.standard.resolve = .ok growing ∧
      ∀ n, ∀ x ∈ growing.history (List.replicate n growingCall),
        ∃ memory, x.store.memory = some memory ∧ 1 ≤ memory.pages ∧ memory.pages ≤ 2 := by
  have hfilled : Catalog.Filled narrowPolicy
      { policy := narrowPolicy, entries := [growingEntry] } :=
    .insert .empty (Catalog.insert_of_accept rfl accept_growingBytes)
  have hentry : growingEntry ∈ [growingEntry] := List.mem_singleton_self _
  have hinstance : instantiate growingEntry.program Imports.standard.resolve = .ok growing := rfl
  refine ⟨_, hfilled, hentry, hinstance, fun n x hx => ?_⟩
  obtain ⟨bytes, m, -, -, -, hbounds⟩ := keeps_bounds hfilled hentry
  obtain ⟨hwithin, -, hgrows⟩ := (hbounds _ _ hinstance _).1 x hx
  obtain ⟨memory, hmemory, hle⟩ := hgrows.memory _ rfl
  have hfirst : (Memory.ofLimits { min := 1, max := some 2 }).Sized { min := 1, max := some 2 } :=
    Memory.sized_ofLimits (by decide)
  refine ⟨memory, hmemory, hfirst.min_le.trans hle, ?_⟩
  rw [Option.mem_def.mp hmemory] at hwithin
  generalize m.memories.head? = limits at hwithin
  cases hwithin with
  | some h => exact h.le_bound

end Instance

end MeteredSandbox
