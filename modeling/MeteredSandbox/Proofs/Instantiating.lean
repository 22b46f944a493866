import Mathlib
import MeteredSandbox.Proofs.Entries
import MeteredSandbox.Proofs.Typing
import MeteredSandbox.Proofs.Overlaying

/-!
# What instantiation computes

Instantiation goes through imports, globals, the table and the memory in this order, and the first
of them that fails decides (`instantiate_declared`). What each stage comes to is a statement of its
own.

* Imports resolve one by one, and the first that is not provided is refused
  (`mapM_of_firstWithout`).
* Validation looks at initializers with the types of all globals in view, imported ones included,
  and initialization with the values of the module's own globals so far. Once nothing but functions
  is imported these are the same globals, so an initializer that validation lets pass has a value,
  and one of the type that is wanted (`Module.exists_initialized`,
  `Module.Initialized.exists_offset`). This is why no initializer is invalid.
* The table and the memory are filled by loops of one shape (`Lays`). Such a loop lays its segments,
  or refuses the first that does not fit, which is known in advance because writing does not change
  a size.
-/

namespace MeteredSandbox

/-! ### Imports -/

/-- The import is a function that the resolver knows under its name and with the signature that is
asked for. -/
def Module.Provides (m : Module) (resolve : Resolver) (i : Import) (f : HostFunc) : Prop :=
  ∃ typeIndex type, i.kind = .func typeIndex ∧ m.types[typeIndex]? = some type ∧
    resolve i.source i.name type = some f

/-- Why an import is refused: it is a function that is not known, or it is no function. -/
def Import.refusal (i : Import) : LinkError :=
  match i.kind with
  | .func _ => .unresolvedImport i.source i.name
  | _ => .unsupportedImport i.source i.name

section Stages

variable {ε α β : Type} {f : α → Except ε β} {xs : List α}

theorem forall₂_of_mapM {ys : List β} (h : xs.mapM f = .ok ys) :
    List.Forall₂ (fun x y => f x = .ok y) xs ys := by
  induction xs generalizing ys with
  | nil =>
    cases h
    exact .nil
  | cons x xs ih =>
    rw [List.mapM_cons] at h
    obtain ⟨y, hx, h⟩ := exists_of_bind_eq_ok h
    obtain ⟨ys', hxs, h⟩ := exists_of_bind_eq_ok h
    cases h
    exact .cons hx (ih hxs)

theorem exists_mapM (h : ∀ x ∈ xs, ∃ y, f x = .ok y) : ∃ ys, xs.mapM f = .ok ys := by
  induction xs with
  | nil => exact ⟨[], rfl⟩
  | cons x xs ih =>
    obtain ⟨⟨y, hx⟩, hxs⟩ := List.forall_mem_cons.mp h
    obtain ⟨ys, hys⟩ := ih hxs
    refine ⟨y :: ys, ?_⟩
    rw [List.mapM_cons, hx, hys]
    rfl

/-- The first item that fails decides. -/
theorem mapM_of_firstWithout {P : α → Prop} {k : Nat} {x : α} {e : ε}
    (hP : ∀ x, P x → ∃ y, f x = .ok y) (h : FirstWithout P xs k x) (he : f x = .error e) :
    xs.mapM f = .error e := by
  induction h with
  | here =>
    rw [List.mapM_cons, he]
    rfl
  | there hy _ ih =>
    obtain ⟨y, hfy⟩ := hP _ hy
    rw [List.mapM_cons, hfy, ih he]
    rfl

end Stages

namespace Module

section Imports

variable {m : Module} {resolve : Resolver} {i : Import}

theorem Provides.resolveImport_eq {f : HostFunc} (h : m.Provides resolve i f) :
    m.resolveImport resolve i = .ok f := by
  obtain ⟨typeIndex, type, hkind, htype, hresolve⟩ := h
  unfold resolveImport
  rw [hkind]
  dsimp only
  rw [htype, Option.bind_some, hresolve]

theorem resolveImport_of_not_provides (h : ¬ ∃ f, m.Provides resolve i f) :
    m.resolveImport resolve i = .error i.refusal := by
  unfold resolveImport Import.refusal
  cases hkind : i.kind with
  | func typeIndex =>
    dsimp only
    cases hfunc : (m.types[typeIndex]?).bind (resolve i.source i.name) with
    | none => rfl
    | some f =>
      obtain ⟨type, htype, hresolve⟩ := Option.bind_eq_some_iff.mp hfunc
      exact absurd ⟨f, typeIndex, type, hkind, htype, hresolve⟩ h
  | table | memory | global => rfl

end Imports

/-! ### Globals -/

/-- The cells of all globals, each with its type and its initial value. -/
structure Initialized (m : Module) (cells : List GlobalCell) : Prop where
  types : cells.map GlobalCell.type = m.globals.map Global.type
  values : ∀ k cell, cells[k]? = some cell → m.InitialValue k cell.value
  typed : ∀ cell ∈ cells, cell.value.type = cell.type.type

end Module

/-- An initializer that is valid has a value, if the globals that it may read have one. -/
theorem ConstExpr.exists_eval {types : List GlobalType} {visible : Nat} {expected : ValType}
    {e : ConstExpr} {cells : List GlobalCell}
    (hcheck : e.checkType types visible expected = .ok ()) (hcells : visible ≤ cells.length) :
    ∃ v, e.eval cells = some v := by
  unfold checkType at hcheck
  obtain ⟨found, hfound, -⟩ := exists_of_bind_eq_ok hcheck
  cases e with
  | const v => exact ⟨v, rfl⟩
  | global k =>
    unfold type at hfound
    dsimp only at hfound
    by_cases hvisible : k < visible
    · refine ⟨cells[k].value, ?_⟩
      rw [eval, List.getElem?_eq_getElem (hvisible.trans_le hcells)]
      rfl
    · rw [if_neg hvisible] at hfound
      cases hfound

namespace Module

/-- Valid globals are initialized one after another without fail. -/
theorem exists_initGlobals {types : List GlobalType} {before : List GlobalCell}
    {rest : List Global} (hcheck : ∀ p ∈ rest.zipIdx before.length,
      p.1.init.checkType types p.2 p.1.type.type = .ok ()) :
    ∃ after, initGlobals before rest = .ok after := by
  induction rest generalizing before with
  | nil => exact ⟨before, rfl⟩
  | cons g rest ih =>
    rw [List.zipIdx_cons] at hcheck
    obtain ⟨hg, hrest⟩ := List.forall_mem_cons.mp hcheck
    obtain ⟨v, hv⟩ := ConstExpr.exists_eval hg le_rfl
    rw [initGlobals, hv]
    refine ih ?_
    rw [List.length_append, List.length_singleton]
    exact hrest

/-- **Globals get their initial values**, by induction on those that are left. -/
theorem initGlobals_values {m : Module} {done rest : List Global} {before after : List GlobalCell}
    (hm : m.globals = done ++ rest) (hlength : before.length = done.length)
    (hvalues : ∀ k cell, before[k]? = some cell → m.InitialValue k cell.value)
    (h : initGlobals before rest = .ok after) :
    ∀ k cell, after[k]? = some cell → m.InitialValue k cell.value := by
  induction rest generalizing done before with
  | nil =>
    cases h
    exact hvalues
  | cons g rest ih =>
    rw [initGlobals] at h
    split at h
    next value heval =>
      have hg : m.globals[before.length]? = some g := by
        rw [hm, hlength, List.getElem?_append_right le_rfl, Nat.sub_self, List.getElem?_cons_zero]
      have hvalue : m.InitialValue before.length value := by
        cases hinit : g.init with
        | const v =>
          rw [hinit] at heval
          cases heval
          exact .literal hg hinit
        | global j =>
          rw [hinit] at heval
          obtain ⟨cell, hcell, rfl⟩ := Option.map_eq_some_iff.mp heval
          obtain ⟨hlt, -⟩ := List.getElem?_eq_some_iff.mp hcell
          exact .copy hg hinit hlt (hvalues j cell hcell)
      have hm : m.globals = done ++ [g] ++ rest := by
        rw [hm, List.append_assoc, List.singleton_append]
      refine ih hm ?_ ?_ h
      · rw [List.length_append, List.length_append, hlength]
        rfl
      · intro k cell hk
        rcases Nat.lt_or_ge k before.length with hlt | hge
        · exact hvalues k cell (by rwa [List.getElem?_append_left hlt] at hk)
        · rw [List.getElem?_append_right hge, List.getElem?_singleton] at hk
          split at hk
          next hzero =>
            cases hk
            rwa [show k = before.length by omega]
          next => cases hk
    next => cases h

section Valid

variable {m : Module} (hvalid : m.validate = .ok ())
  (hfuncs : ∀ i ∈ m.imports, ∃ t, i.kind = .func t)
include hfuncs

theorem globalTypes_of_funcs : m.globalTypes = m.globals.map Global.type := by
  unfold globalTypes
  rw [imported_of_funcs hfuncs fun _ => rfl, List.nil_append]

include hvalid

/-- **The globals of a valid module** are initialized. -/
theorem exists_initialized :
    ∃ cells, initGlobals [] m.globals = .ok cells ∧ m.Initialized cells := by
  have hcheck : ∀ p ∈ m.globals.zipIdx 0,
      p.1.init.checkType m.globalTypes p.2 p.1.type.type = .ok () := by
    have h := (validate_eq_ok_iff.mp hvalid).2.2.2.1
    unfold checkGlobals at h
    rw [imported_of_funcs hfuncs fun _ => rfl] at h
    simp only [List.length_nil, Nat.zero_add] at h
    exact Check.all_eq_ok_iff.mp h
  obtain ⟨cells, hcells⟩ : ∃ cells, initGlobals [] m.globals = .ok cells :=
    exists_initGlobals hcheck
  have htypes : m.globalTypes = ([] ++ m.globals).map Global.type := globalTypes_of_funcs hfuncs
  obtain ⟨hmap, htyped⟩ := initGlobals_typed htypes hcheck rfl
    (fun cell hcell => absurd hcell List.not_mem_nil) hcells
  refine ⟨cells, hcells, hmap.trans htypes, ?_, htyped⟩
  exact initGlobals_values (List.nil_append m.globals).symm rfl (fun k cell hk => by cases hk)
    hcells

end Valid

/-- The offset of a valid segment evaluates to what it is declared to be. -/
theorem Initialized.exists_offset {m : Module} {cells : List GlobalCell} (h : m.Initialized cells)
    (hfuncs : ∀ i ∈ m.imports, ∃ t, i.kind = .func t) {e : ConstExpr}
    (hcheck : e.checkType m.globalTypes m.totalGlobals .i32 = .ok ()) :
    ∃ n, e.evalOffset cells = .ok n ∧ m.OffsetIs e n := by
  have htypes : m.globalTypes = cells.map GlobalCell.type :=
    (globalTypes_of_funcs hfuncs).trans h.types.symm
  have hlength : m.totalGlobals = cells.length := by
    rw [totalGlobals, htypes, List.length_map]
  obtain ⟨v, hv⟩ := ConstExpr.exists_eval hcheck hlength.le
  have htype : v.type = .i32 := by
    refine ConstExpr.eval_type hcheck (fun k _ => ?_) h.typed hv
    rw [htypes, List.getElem?_map]
  obtain ⟨bits, rfl⟩ : ∃ bits, v = .i32 bits := by
    cases v with
    | i32 bits => exact ⟨bits, rfl⟩
    | i64 | f32 | f64 => cases htype
  refine ⟨bits.toNat, ?_, bits, rfl, ?_⟩
  · unfold ConstExpr.evalOffset
    rw [hv]
  · cases e with
    | const v =>
      cases hv
      exact .inl rfl
    | global k =>
      obtain ⟨cell, hcell, hvalue⟩ := Option.map_eq_some_iff.mp hv
      exact .inr ⟨k, rfl, hvalue ▸ h.values k cell hcell⟩

end Module

/-! ### Segments -/

/-- A segment of functions, as a run of slots. -/
def ElementSegment.segment (s : ElementSegment) : Segment (Option Nat) :=
  ⟨s.offset, s.funcs.map some⟩

/-- A segment of bytes. -/
def DataSegment.segment (s : DataSegment) : Segment UInt8 := ⟨s.offset, s.bytes⟩

/-- A loop that writes segments, as it is for tables and for memories. `view` is the array that is
written to; the first segment has the number `k`, and `refuse` is what is said of one that does not
fit. -/
structure Lays {T X γ : Type} (globals : List GlobalCell) (view : T → Array γ)
    (segment : X → Segment γ) (refuse : Nat → LinkError)
    (run : (k : Nat) → T → List X → Except LinkError (Option T)) : Prop where
  nil : ∀ k t, run k t [] = .ok (some t)
  fits : ∀ k t s rest n, (segment s).offset.evalOffset globals = .ok n →
    n + (segment s).items.length ≤ (view t).size →
    ∃ t', view t' = overwritten (view t) n (segment s).items ∧
      run k t (s :: rest) = run (k + 1) t' rest
  tooLong : ∀ k t s rest n, (segment s).offset.evalOffset globals = .ok n →
    ¬ n + (segment s).items.length ≤ (view t).size → run k t (s :: rest) = .error (refuse k)

namespace Lays

variable {T X γ : Type} {globals : List GlobalCell} {view : T → Array γ} {segment : X → Segment γ}
  {refuse : Nat → LinkError} {run : Nat → T → List X → Except LinkError (Option T)}
  (h : Lays globals view segment refuse run) {m : Module} {xs : List X}
  (hoffsets : ∀ x ∈ xs, ∃ n, (segment x).offset.evalOffset globals = .ok n ∧
    m.OffsetIs (segment x).offset n)
include h hoffsets

/-- **Segments that fit are laid**, all of them. -/
theorem exists_laid (t : T) (hfits : ∀ x ∈ xs, (segment x).Fits m (view t).size) (k : Nat) :
    ∃ t', run k t xs = .ok (some t') ∧ m.Laid (view t) (xs.map segment) (view t') := by
  induction xs generalizing k t with
  | nil => exact ⟨t, h.nil k t, .nil _⟩
  | cons x xs ih =>
    obtain ⟨⟨n, heval, hn⟩, hoffsets⟩ := List.forall_mem_cons.mp hoffsets
    obtain ⟨⟨n', hn', hroom⟩, hfits⟩ := List.forall_mem_cons.mp hfits
    obtain rfl := hn.unique hn'
    obtain ⟨t₁, hview, hrun⟩ := h.fits k t x xs n heval hroom
    rw [hrun]
    -- what is written does not change the size
    have hsize : (view t₁).size = (view t).size := by rw [hview, size_overwritten]
    obtain ⟨t', hok, hlaid⟩ := ih hoffsets t₁ (by rwa [hsize]) (k + 1)
    exact ⟨t', hok, .cons hn hroom (hview ▸ hlaid)⟩

/-- **The first segment that does not fit** is refused. -/
theorem eq_error {size j : Nat} {s : Segment γ}
    (hfirst : FirstWithout (fun s => s.Fits m size) (xs.map segment) j s) (t : T)
    (hsize : (view t).size = size) (k : Nat) : run k t xs = .error (refuse (k + j)) := by
  induction xs generalizing k j t with
  | nil => cases hfirst
  | cons x xs ih =>
    obtain ⟨⟨n, heval, hn⟩, hoffsets⟩ := List.forall_mem_cons.mp hoffsets
    subst hsize
    rw [List.map_cons] at hfirst
    cases hfirst with
    | here hnot => exact h.tooLong k t x xs n heval fun hroom => hnot ⟨n, hn, hroom⟩
    | @there _ _ _ j hfits hrest =>
      obtain ⟨n', hn', hroom⟩ := hfits
      obtain rfl := hn.unique hn'
      obtain ⟨t₁, hview, hrun⟩ := h.fits k t x xs n heval hroom
      have hsize : (view t₁).size = (view t).size := by rw [hview, size_overwritten]
      rw [hrun, ih hoffsets hrest t₁ hsize, Nat.add_assoc, Nat.add_comm 1]

end Lays

namespace Module

theorem lays_initTable (globals : List GlobalCell) :
    Lays globals Table.slots ElementSegment.segment .elementsOutOfBounds
      fun k t elements => initTable globals k (some t) elements where
  nil _ _ := rfl
  fits k t s rest n hn hroom := by
    have hinit : t.init? n s.funcs = some ⟨Table.fill t.slots n s.funcs⟩ :=
      if_pos (by simpa [ElementSegment.segment, Table.size] using hroom)
    refine ⟨_, Table.fill_eq_overwritten t.slots n s.funcs, ?_⟩
    have hn : s.offset.evalOffset globals = .ok n := hn
    simp only [initTable, hn, hinit, bind, Except.bind, Option.bind_some]
  tooLong k t s rest n hn hroom := by
    have hinit : t.init? n s.funcs = none :=
      if_neg (by simpa [ElementSegment.segment, Table.size] using hroom)
    have hn : s.offset.evalOffset globals = .ok n := hn
    simp only [initTable, hn, hinit, bind, Except.bind, Option.bind_some]
    rfl

theorem lays_initMemory (globals : List GlobalCell) :
    Lays globals (fun memory : Memory => memory.bytes.data) DataSegment.segment .dataOutOfBounds
      fun k memory data => initMemory globals k (some memory) data where
  nil _ _ := rfl
  fits k memory s rest n hn hroom := by
    have hwrite : Memory.write n s.bytes memory =
        .ok () { memory with bytes := Memory.overwrite memory.bytes n s.bytes } := if_pos hroom
    refine ⟨{ memory with bytes := Memory.overwrite memory.bytes n s.bytes },
      Memory.data_overwrite memory.bytes n s.bytes, ?_⟩
    have hn : s.offset.evalOffset globals = .ok n := hn
    simp only [initMemory, hn, hwrite, bind, Except.bind]
  tooLong k memory s rest n hn hroom := by
    have hwrite : Memory.write n s.bytes memory =
        .error (.memoryOutOfBounds n s.bytes.length) memory := if_neg hroom
    have hn : s.offset.evalOffset globals = .ok n := hn
    simp only [initMemory, hn, hwrite, bind, Except.bind]
    rfl

/-! ### The table and the memory of a module -/

/-- The segments of the table. -/
def elementSegments (m : Module) : List (Segment (Option Nat)) :=
  m.elements.map ElementSegment.segment

/-- The segments of the memory. -/
def dataSegments (m : Module) : List (Segment UInt8) := m.data.map DataSegment.segment

/-- The number of slots of the table. -/
def tableSize (m : Module) : Nat := (m.tables.head?.map Limits.min).getD 0

/-- The number of bytes of the memory. -/
def memorySize (m : Module) : Nat := (m.memories.head?.map fun l => l.min * pageSize).getD 0

section Valid

variable {m : Module} (hvalid : m.validate = .ok ())
  (hfuncs : ∀ i ∈ m.imports, ∃ t, i.kind = .func t) {cells : List GlobalCell}
  (hcells : m.Initialized cells)
include hvalid hfuncs

/-- A module without a table has no segments for it. -/
theorem elements_of_no_table (hnone : m.tables.head? = none) : m.elements = [] := by
  have helements := (validate_eq_ok_iff.mp hvalid).2.2.2.2.2.2.1
  refine List.eq_nil_iff_forall_not_mem.mpr fun s hs => ?_
  have htotal : m.totalTables = 0 := by
    unfold totalTables allTables
    rw [imported_of_funcs hfuncs fun _ => rfl, List.head?_eq_none_iff.mp hnone]
    rfl
  obtain ⟨u, htable, -⟩ := exists_of_bind_eq_ok (helements s hs)
  have := of_decide_eq_true (Check.require_eq_ok_iff.mp htable)
  omega

/-- A module without a memory has no segments for it. -/
theorem data_of_no_memory (hnone : m.memories.head? = none) : m.data = [] := by
  have hdata := (validate_eq_ok_iff.mp hvalid).2.2.2.2.2.2.2
  refine List.eq_nil_iff_forall_not_mem.mpr fun s hs => ?_
  have htotal : m.totalMemories = 0 := by
    unfold totalMemories allMemories
    rw [imported_of_funcs hfuncs fun _ => rfl, List.head?_eq_none_iff.mp hnone]
    rfl
  obtain ⟨u, hmemory, -⟩ := exists_of_bind_eq_ok (hdata s hs)
  have := of_decide_eq_true (Check.require_eq_ok_iff.mp hmemory)
  omega

include hcells

theorem exists_offset_of_mem_elements : ∀ s ∈ m.elements,
    ∃ n, s.segment.offset.evalOffset cells = .ok n ∧ m.OffsetIs s.segment.offset n := by
  intro s hs
  have hcheck := (validate_eq_ok_iff.mp hvalid).2.2.2.2.2.2.1 s hs
  obtain ⟨_, -, hcheck⟩ := exists_of_bind_eq_ok hcheck
  obtain ⟨_, hoffset, -⟩ := exists_of_bind_eq_ok hcheck
  exact hcells.exists_offset hfuncs hoffset

theorem exists_offset_of_mem_data : ∀ s ∈ m.data,
    ∃ n, s.segment.offset.evalOffset cells = .ok n ∧ m.OffsetIs s.segment.offset n := by
  intro s hs
  have hcheck := (validate_eq_ok_iff.mp hvalid).2.2.2.2.2.2.2 s hs
  obtain ⟨_, -, hoffset⟩ := exists_of_bind_eq_ok hcheck
  exact hcells.exists_offset hfuncs hoffset

/-- **The table** is overlaid by its segments, if they fit. -/
theorem exists_table (hfits : ∀ s ∈ m.elementSegments, s.Fits m m.tableSize) :
    ∃ table, initTable cells 0 (m.tables.head?.map Table.ofLimits) m.elements = .ok table ∧
      Option.Rel (fun l t => m.Overlaid none l.min m.elementSegments t.slots) m.tables.head?
        table := by
  unfold tableSize at hfits
  cases hhead : m.tables.head? with
  | none =>
    rw [elements_of_no_table hvalid hfuncs hhead]
    exact ⟨none, rfl, .none⟩
  | some l =>
    have hsize : (Table.ofLimits l).slots.size = l.min := Array.size_replicate
    rw [hhead] at hfits
    obtain ⟨t, hok, hlaid⟩ := (lays_initTable cells).exists_laid
      (exists_offset_of_mem_elements hvalid hfuncs hcells) (Table.ofLimits l)
      (fun s hs => by
        rw [hsize]
        exact hfits _ (List.mem_map_of_mem hs)) 0
    exact ⟨some t, hok, .some (hlaid.overlaid rfl)⟩

/-- **The memory** is overlaid by its segments, if they fit. -/
theorem exists_memory (hfits : ∀ s ∈ m.dataSegments, s.Fits m m.memorySize) :
    ∃ memory, initMemory cells 0 (m.memories.head?.map Memory.ofLimits) m.data = .ok memory ∧
      Option.Rel (fun l memory => m.Overlaid 0 (l.min * pageSize) m.dataSegments memory.bytes.data)
        m.memories.head? memory := by
  unfold memorySize at hfits
  cases hhead : m.memories.head? with
  | none =>
    rw [data_of_no_memory hvalid hfuncs hhead]
    exact ⟨none, rfl, .none⟩
  | some l =>
    have hblank : (Memory.ofLimits l).bytes.data = Array.replicate (l.min * pageSize) 0 :=
      Memory.data_zeroPages l.min
    rw [hhead] at hfits
    obtain ⟨memory, hok, hlaid⟩ := (lays_initMemory cells).exists_laid
      (exists_offset_of_mem_data hvalid hfuncs hcells) (Memory.ofLimits l)
      (fun s hs => by
        rw [hblank, Array.size_replicate]
        exact hfits _ (List.mem_map_of_mem hs)) 0
    exact ⟨some memory, hok, .some (hlaid.overlaid hblank)⟩

theorem initTable_eq_error {k : Nat} {s : Segment (Option Nat)}
    (hfirst : FirstWithout (fun s => s.Fits m m.tableSize) m.elementSegments k s) :
    initTable cells 0 (m.tables.head?.map Table.ofLimits) m.elements =
      .error (.elementsOutOfBounds k) := by
  unfold elementSegments tableSize at hfirst
  cases hhead : m.tables.head? with
  | none =>
    rw [elements_of_no_table hvalid hfuncs hhead] at hfirst
    cases hfirst
  | some l =>
    rw [hhead] at hfirst
    have herror := (lays_initTable cells).eq_error
      (exists_offset_of_mem_elements hvalid hfuncs hcells) hfirst (Table.ofLimits l)
      Array.size_replicate 0
    rwa [Nat.zero_add] at herror

theorem initMemory_eq_error {k : Nat} {s : Segment UInt8}
    (hfirst : FirstWithout (fun s => s.Fits m m.memorySize) m.dataSegments k s) :
    initMemory cells 0 (m.memories.head?.map Memory.ofLimits) m.data =
      .error (.dataOutOfBounds k) := by
  unfold dataSegments memorySize at hfirst
  cases hhead : m.memories.head? with
  | none =>
    rw [data_of_no_memory hvalid hfuncs hhead] at hfirst
    cases hfirst
  | some l =>
    rw [hhead] at hfirst
    have herror := (lays_initMemory cells).eq_error
      (exists_offset_of_mem_data hvalid hfuncs hcells) hfirst (Memory.ofLimits l)
      (Memory.size_zeroPages l.min) 0
    rwa [Nat.zero_add] at herror

end Valid

end Module

/-! ### Instances -/

/-- **The declared initial state.** Each import has the function that the resolver provides for it,
each global its initial value, and the segments overlay an empty table and a memory of zeros, if the
module has them. -/
structure Instance.IsInitial (inst : Instance) (m : Module) (resolve : Resolver) : Prop where
  host : List.Forall₂ (m.Provides resolve) m.imports inst.host.toList
  globals_size : inst.store.globals.size = m.globals.length
  globals : ∀ (k : Nat) (g : Global), m.globals[k]? = some g →
    ∃ v, m.InitialValue k v ∧ inst.store.globals[k]? = some { type := g.type, value := v }
  table : Option.Rel (fun l t => m.Overlaid none l.min m.elementSegments t.slots) m.tables.head?
    inst.store.table
  memory : Option.Rel
    (fun l memory => m.Overlaid 0 (l.min * pageSize) m.dataSegments memory.bytes.data)
    m.memories.head? inst.store.memory

theorem Module.Initialized.exists_cell {m : Module} {cells : List GlobalCell}
    (h : m.Initialized cells) {k : Nat} {g : Global} (hg : m.globals[k]? = some g) :
    ∃ v, m.InitialValue k v ∧ cells[k]? = some { type := g.type, value := v } := by
  have htype := congrArg (·[k]?) h.types
  simp only [List.getElem?_map, hg, Option.map_some, Option.map_eq_some_iff] at htype
  obtain ⟨cell, hcell, htype⟩ := htype
  refine ⟨cell.value, h.values k cell hcell, ?_⟩
  rw [hcell, ← htype]

section Instantiate

variable {m : Module} {p : Program} {resolve : Resolver}

/-- With its imports and globals done, an instance wants its table and its memory. -/
theorem instantiate_of_stages (hsource : p.source = m) {host : List HostFunc}
    (hhost : m.imports.mapM (m.resolveImport resolve) = .ok host) {cells : List GlobalCell}
    (hcells : Module.initGlobals [] m.globals = .ok cells) :
    instantiate p resolve =
      Module.initTable cells 0 (m.tables.head?.map Table.ofLimits) m.elements >>= fun table =>
      Module.initMemory cells 0 (m.memories.head?.map Memory.ofLimits) m.data >>= fun memory =>
      .ok { program := p, host := host.toArray,
            store := { memory, table, globals := cells.toArray } } := by
  subst hsource
  unfold instantiate
  dsimp only
  rw [hhost, hcells]
  rfl

theorem instantiate_of_refused (hsource : p.source = m) {k : Nat} {i : Import}
    (h : FirstWithout (fun i => ∃ f, m.Provides resolve i f) m.imports k i) :
    instantiate p resolve = .error i.refusal := by
  have hmapM : m.imports.mapM (m.resolveImport resolve) = .error i.refusal :=
    mapM_of_firstWithout (fun i ⟨f, hf⟩ => ⟨f, hf.resolveImport_eq⟩) h
      (Module.resolveImport_of_not_provides h.not)
  subst hsource
  unfold instantiate
  dsimp only
  rw [hmapM]
  rfl

/-- **Instantiation.** It is refused for the first import that is not a function which the resolver
provides with the signature that is asked for. Otherwise no initializer is invalid: it is refused
for the first segment of functions that does not fit into the table; if there is none, for the first
segment of bytes that does not fit into the memory; and if there is none, the result is an instance
in the declared initial state. -/
theorem instantiate_declared (hp : Program.ofModule m = .ok p) (resolve : Resolver) :
    (∀ k i, FirstWithout (fun i => ∃ f, m.Provides resolve i f) m.imports k i →
      instantiate p resolve = .error i.refusal) ∧
    ((∀ i ∈ m.imports, ∃ f, m.Provides resolve i f) →
      instantiate p resolve ≠ .error .invalidInitializer ∧
      (∀ k s, FirstWithout (fun s => s.Fits m m.tableSize) m.elementSegments k s →
        instantiate p resolve = .error (.elementsOutOfBounds k)) ∧
      ((∀ s ∈ m.elementSegments, s.Fits m m.tableSize) →
        (∀ k s, FirstWithout (fun s => s.Fits m m.memorySize) m.dataSegments k s →
          instantiate p resolve = .error (.dataOutOfBounds k)) ∧
        ((∀ s ∈ m.dataSegments, s.Fits m m.memorySize) →
          ∃ inst, instantiate p resolve = .ok inst ∧ inst.program = p ∧
            inst.IsInitial m resolve))) := by
  obtain ⟨hvalid, hsource, -⟩ := Program.ofModule_eq_ok hp
  refine ⟨fun k i h => instantiate_of_refused hsource h, fun hprovided => ?_⟩
  have hfuncs : ∀ i ∈ m.imports, ∃ t, i.kind = .func t := fun i hi => by
    obtain ⟨f, typeIndex, type, hkind, -⟩ := hprovided i hi
    exact ⟨typeIndex, hkind⟩
  obtain ⟨host, hhost⟩ := exists_mapM (f := m.resolveImport resolve) fun i hi => by
    obtain ⟨f, hf⟩ := hprovided i hi
    exact ⟨f, hf.resolveImport_eq⟩
  obtain ⟨cells, hcells, hinit⟩ := Module.exists_initialized hvalid hfuncs
  have hstages := instantiate_of_stages hsource hhost hcells
  have helements : ∀ k s, FirstWithout (fun s => s.Fits m m.tableSize) m.elementSegments k s →
      instantiate p resolve = .error (.elementsOutOfBounds k) := fun k s h => by
    rw [hstages, Module.initTable_eq_error hvalid hfuncs hinit h]
    rfl
  have hdata : (∀ s ∈ m.elementSegments, s.Fits m m.tableSize) →
      ∀ k s, FirstWithout (fun s => s.Fits m m.memorySize) m.dataSegments k s →
        instantiate p resolve = .error (.dataOutOfBounds k) := fun hfits k s h => by
    obtain ⟨table, htable, -⟩ := Module.exists_table hvalid hfuncs hinit hfits
    rw [hstages, htable, Module.initMemory_eq_error hvalid hfuncs hinit h]
    rfl
  have hinstance : (∀ s ∈ m.elementSegments, s.Fits m m.tableSize) →
      (∀ s ∈ m.dataSegments, s.Fits m m.memorySize) →
      ∃ inst, instantiate p resolve = .ok inst ∧ inst.program = p ∧ inst.IsInitial m resolve := by
    intro hfits hfits'
    obtain ⟨table, htable, hslots⟩ := Module.exists_table hvalid hfuncs hinit hfits
    obtain ⟨memory, hmemory, hbytes⟩ := Module.exists_memory hvalid hfuncs hinit hfits'
    rw [hstages, htable, hmemory]
    refine ⟨_, rfl, rfl, ?_, ?_, fun k g hg => ?_, hslots, hbytes⟩
    · refine (forall₂_of_mapM hhost).imp fun i f hf => ?_
      exact Module.exists_type_of_resolveImport hf
    · simpa using congrArg List.length hinit.types
    · obtain ⟨v, hv, hcell⟩ := hinit.exists_cell hg
      exact ⟨v, hv, by simpa using hcell⟩
  refine ⟨?_, helements, fun hfits => ⟨hdata hfits, hinstance hfits⟩⟩
  -- one of the three outcomes is there, and none of them is an invalid initializer
  rcases exists_firstWithout_or_forall (fun s => s.Fits m m.tableSize) m.elementSegments with
    ⟨k, s, h⟩ | hfits
  · rw [helements k s h]
    nofun
  · rcases exists_firstWithout_or_forall (fun s => s.Fits m m.memorySize) m.dataSegments with
      ⟨k, s, h⟩ | hfits'
    · rw [hdata hfits k s h]
      nofun
    · obtain ⟨inst, hok, -⟩ := hinstance hfits hfits'
      rw [hok]
      nofun

end Instantiate

/-- A module whose segments overlap, at offsets of which some are read from a global. -/
def overlapping : Module where
  types := [{ params := [.i32], results := [] }]
  imports := [{ source := "host", name := "abort", kind := .func 0 }]
  tables := [{ min := 2, max := none }]
  memories := [{ min := 1, max := none }]
  globals := [{ type := ⟨.i32, false⟩, init := .const (.i32 1) },
    { type := ⟨.i32, false⟩, init := .global 0 }]
  elements := [{ table := 0, offset := .const (.i32 0), funcs := [0, 0] },
    { table := 0, offset := .global 1, funcs := [0] }]
  data := [{ memory := 0, offset := .global 1, bytes := [0x01, 0x02] },
    { memory := 0, offset := .const (.i32 2), bytes := [0x03] }]

/-- Its program. -/
def overlappingProgram : Program where
  source := overlapping
  signatures := #[some { params := [.i32], results := [] }]
  imported := 1
  bodies := #[]

/-- It is refused without its import, and has its declared initial state with it. -/
theorem overlapping_instantiate :
    Program.ofModule overlapping = .ok overlappingProgram ∧
      instantiate overlappingProgram Imports.empty.resolve =
        .error (.unresolvedImport "host" "abort") ∧
      ∃ inst, instantiate overlappingProgram Imports.standard.resolve = .ok inst ∧
        inst.program = overlappingProgram ∧
        inst.IsInitial overlapping Imports.standard.resolve := by
  have hp : Program.ofModule overlapping = .ok overlappingProgram := rfl
  have hglobal : overlapping.InitialValue 1 (.i32 1) :=
    .copy rfl rfl Nat.zero_lt_one (.literal rfl rfl)
  have hliteral : ∀ bits : BitVec 32, overlapping.OffsetIs (.const (.i32 bits)) bits.toNat :=
    fun bits => ⟨bits, rfl, .inl rfl⟩
  have hcopy : overlapping.OffsetIs (.global 1) 1 := ⟨1, rfl, .inr ⟨1, rfl, hglobal⟩⟩
  refine ⟨hp, ?_, ?_⟩
  · refine (instantiate_declared hp Imports.empty.resolve).1 0 _ (.here ?_)
    rintro ⟨f, typeIndex, type, -, -, hresolve⟩
    cases hresolve
  · refine (((instantiate_declared hp Imports.standard.resolve).2 ?_).2.2 ?_).2 ?_
    · exact List.forall_mem_singleton.mpr ⟨Imports.abort, 0, _, rfl, rfl, rfl⟩
    · refine List.forall_mem_cons.mpr ⟨⟨0, hliteral 0, ?_⟩, List.forall_mem_singleton.mpr
        ⟨1, hcopy, ?_⟩⟩
      · decide
      · decide
    · refine List.forall_mem_cons.mpr ⟨⟨1, hcopy, ?_⟩, List.forall_mem_singleton.mpr
        ⟨2, hliteral 2, ?_⟩⟩
      · decide
      · decide

end MeteredSandbox
