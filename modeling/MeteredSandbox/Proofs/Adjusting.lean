import MeteredSandbox.Proofs.Admission
import MeteredSandbox.Proofs.Capping

/-!
# What rewrites preserve

Before a host compiles a module it may bound the memory, bound the tables, and move the start
function to an export. Each of these is a **rewrite** (`Rewrite`), and each of them preserves what
the module means (`Rewrite.preserves_meaning`): the module that results compiles to the same bodies,
links or fails to link in the same way, and its instances begin with the same memory, table and
globals and answer all calls alike. A bound on the memory is the one thing that can be noticed, by
letting the memory grow beyond it.

A successful rewrite of a valid module gives a valid module with the same index spaces, from which
instances take the same things (`Module.Rewritten`), so it compiles (`Program.ofModule_rewritten`)
and is instantiated (`instantiate_rewritten`) as the module was. The instance is then the instance
of the module, capped.
-/

namespace MeteredSandbox

/-! ### Valid modules -/

namespace Limits

variable {l : Limits} {limit : Nat}

/-- Bounded limits are in order if the minimum is within the bound. -/
theorem checkOrder_bounded (h : l.min ≤ l.bound limit) : (l.bounded limit).checkOrder = .ok () :=
  Check.require_eq_ok_iff.mpr (decide_eq_true h)

theorem checkTable_bounded (hfits : l.min ≤ l.bound limit) (h : l.checkTable = .ok ()) :
    (l.bounded limit).checkTable = .ok () :=
  Check.bind_eq_ok_iff.mpr ⟨checkOrder_bounded hfits, (Check.bind_eq_ok_iff.mp h).2⟩

theorem checkMemory_bounded (hfits : l.min ≤ l.bound limit) (h : l.checkMemory = .ok ()) :
    (l.bounded limit).checkMemory = .ok () :=
  Check.bind_eq_ok_iff.mpr ⟨checkOrder_bounded hfits, (Check.bind_eq_ok_iff.mp h).2⟩

end Limits

namespace Module

/-- One more export, under a name that is free. -/
theorem checkExports_concat {m : Module} {seen : List String} {xs : List Export} {e : Export}
    (hkind : m.checkExportKind e.kind = .ok ()) (hfree : ∀ x ∈ xs, x.name ≠ e.name)
    (hseen : e.name ∉ seen) (h : m.checkExports seen xs = .ok ()) :
    m.checkExports seen (xs ++ [e]) = .ok () := by
  induction xs generalizing seen with
  | nil =>
    refine Check.bind_eq_ok_iff.mpr ⟨?_, Check.bind_eq_ok_iff.mpr ⟨hkind, rfl⟩⟩
    exact Check.require_eq_ok_iff.mpr (decide_eq_true hseen)
  | cons x xs ih =>
    obtain ⟨hx, hxs⟩ := List.forall_mem_cons.mp hfree
    obtain ⟨hname, h⟩ := Check.bind_eq_ok_iff.mp h
    obtain ⟨hkind', h⟩ := Check.bind_eq_ok_iff.mp h
    refine Check.bind_eq_ok_iff.mpr ⟨hname, Check.bind_eq_ok_iff.mpr ⟨hkind', ?_⟩⟩
    exact ih hxs (List.not_mem_cons_of_ne_of_not_mem hx.symm hseen) h

/-- The start function of a valid module is there. -/
theorem start_lt_totalFuncs {m : Module} (h : m.checkStart = .ok ()) {func : Nat}
    (hstart : m.start = some func) : func < m.totalFuncs := by
  unfold checkStart at h
  rw [hstart] at h
  dsimp only at h
  rcases Nat.lt_or_ge func m.totalFuncs with hlt | hge
  · exact hlt
  · have hnone : m.funcType? func = none := by
      unfold funcType? funcTypeIndex?
      rw [List.getElem?_eq_none hge]
      rfl
    rw [hnone] at h
    cases h

/-- A module with the same index spaces as a valid one is valid if what differs passes its
checks. -/
theorem SameSpaces.validate {m m' : Module} (h : SameSpaces m m') (hvalid : m.validate = .ok ())
    (hspaces : (∀ l ∈ m'.tables, l.checkTable = .ok ()) ∧ ∀ l ∈ m'.memories, l.checkMemory = .ok ())
    (hexports : m.checkExports [] m'.exports = .ok ())
    (hstart : m'.start = m.start ∨ m'.start = none) (helements : m'.elements = m.elements)
    (hdata : m'.data = m.data) : m'.validate = .ok () := by
  obtain ⟨htypes, hfuncs, hown, hglobals, -, hcheck, helement, hsegment⟩ :=
    validate_eq_ok_iff.mp hvalid
  refine validate_eq_ok_iff.mpr ⟨h.checkTypes.trans htypes, h.checkFuncs.trans hfuncs, ?_,
    h.checkGlobals.trans hglobals, (h.checkExports _ _).trans hexports, ?_, ?_, ?_⟩
  · -- imported tables and memories are the same, and there are as many of each in all
    unfold checkSpaces at hown ⊢
    simp only [Check.bind_eq_ok_iff, Check.all_eq_ok_iff] at hown ⊢
    obtain ⟨himports, htables, hmemories, -⟩ := hown
    rw [h.imports, h.totalTables, h.totalMemories]
    exact ⟨himports, htables, hmemories, hspaces⟩
  · -- a start function that has been moved is not checked as one
    unfold checkStart at hcheck ⊢
    rcases hstart with hsame | hnone
    · rw [hsame, funext h.funcType?]
      exact hcheck
    · rw [hnone]
  · intro s hs
    rw [h.checkElements]
    exact helement s (helements ▸ hs)
  · intro s hs
    rw [h.checkData]
    exact hsegment s (hdata ▸ hs)

/-! ### Rewritten modules -/

/-- What is left of a module when it is **rewritten**, with the memories of its instances capped and
nothing else about them changed. -/
structure Rewritten (bound : Option Nat) (m m' : Module) : Prop where
  valid : m'.validate = .ok ()
  spaces : SameSpaces m m'
  codes : m'.codes = m.codes
  elements : m'.elements = m.elements
  data : m'.data = m.data
  table : m'.tables.head?.map Table.ofLimits = m.tables.head?.map Table.ofLimits
  memory : m'.memories.head?.map Memory.ofLimits
    = (m.memories.head?.map Memory.ofLimits).map (Memory.cap bound)

end Module

/-- A memory with bounded limits is the memory with the limits, capped. -/
theorem Memory.ofLimits_bounded (n : Nat) (l : Limits) :
    ofLimits (l.bounded n) = (ofLimits l).cap (some n) := by
  have hmost : ∀ k, min (min (l.max.getD n) n) k = min (min (l.max.getD k) k) n := by
    intro k
    cases l.max with
    | none => rw [Option.getD_none, Option.getD_none, Nat.min_self, Nat.min_self, Nat.min_comm]
    | some max => rw [Option.getD_some, Option.getD_some, Nat.min_right_comm]
  exact congrArg (Memory.mk (zeroPages l.min)) (hmost _)

/-- A rewrite that a host may make of a module before it compiles it. -/
inductive Rewrite where
  | limitMemory (pages : Nat)
  | limitTables (elements : Nat)
  | moveStart (name : String)

namespace Rewrite

/-- Makes the rewrite. -/
def apply : Rewrite → Adjustment
  | limitMemory pages => Module.limitMemory pages
  | limitTables elements => Module.limitTables elements
  | moveStart name => Module.moveStart name

/-- The cap that the rewrite puts on memories, if it does. -/
def cap? : Rewrite → Option Nat
  | limitMemory pages => some pages
  | limitTables _ | moveStart _ => none

/-- **A successful rewrite** of a valid module. -/
theorem rewritten {r : Rewrite} {m m' : Module} (hvalid : m.validate = .ok ())
    (hr : r.apply m = .ok () m') : m.Rewritten r.cap? m' := by
  obtain ⟨-, -, hspaces, -, hexports, hstart, -⟩ := Module.validate_eq_ok_iff.mp hvalid
  unfold Module.checkSpaces at hspaces
  simp only [Check.bind_eq_ok_iff, Check.all_eq_ok_iff] at hspaces
  obtain ⟨-, -, -, htables, hmemories⟩ := hspaces
  -- memories are as they were unless they are bounded
  have hsame : ∀ memory : Option Memory, memory.map (Memory.cap none) = memory := by
    intro memory
    rw [Memory.cap_none, Option.map_id, id]
  cases r with
  | limitMemory n =>
    obtain ⟨rfl, hfits⟩ := Module.limitMemory_eq_ok hr
    have h : Module.SameSpaces m { m with memories := m.memories.map (Limits.bounded n) } :=
      ⟨rfl, rfl, rfl, rfl, rfl, List.length_map ..⟩
    refine ⟨h.validate hvalid ⟨htables, ?_⟩ hexports (.inl rfl) rfl rfl, h, rfl, rfl, rfl, rfl, ?_⟩
    · intro l' hl'
      obtain ⟨l, hl, rfl⟩ := List.mem_map.mp hl'
      exact Limits.checkMemory_bounded (hfits l hl) (hmemories l hl)
    · have hmemory : Memory.ofLimits ∘ Limits.bounded n = Memory.cap (some n) ∘ Memory.ofLimits :=
        funext (Memory.ofLimits_bounded n)
      rw [List.head?_map, Option.map_map, Option.map_map, hmemory]
      rfl
  | limitTables n =>
    obtain ⟨rfl, hfits⟩ := Module.limitTables_eq_ok hr
    have h : Module.SameSpaces m { m with tables := m.tables.map (Limits.bounded n) } :=
      ⟨rfl, rfl, rfl, rfl, List.length_map .., rfl⟩
    refine ⟨h.validate hvalid ⟨?_, hmemories⟩ hexports (.inl rfl) rfl rfl, h, rfl, rfl, rfl, ?_,
      (hsame _).symm⟩
    · intro l' hl'
      obtain ⟨l, hl, rfl⟩ := List.mem_map.mp hl'
      exact Limits.checkTable_bounded (hfits l hl) (htables l hl)
    · -- a fresh table has as many slots as it must have
      rw [List.head?_map, Option.map_map]
      rfl
  | moveStart name =>
    obtain ⟨hfree, rfl⟩ := Module.moveStart_eq_ok hr
    have h : Module.SameSpaces m { m with
        start := none
        exports := m.exports ++ (m.start.map fun func => { name, kind := .func func }).toList } :=
      ⟨rfl, rfl, rfl, rfl, rfl, rfl⟩
    refine ⟨h.validate hvalid ⟨htables, hmemories⟩ ?_ (.inr rfl) rfl rfl, h, rfl, rfl, rfl, rfl,
      (hsame _).symm⟩
    dsimp only
    cases hfunc : m.start with
    | none =>
      rw [Option.map_none, Option.toList_none, List.append_nil]
      exact hexports
    | some func =>
      -- the start function was checked, and the name that it gets is free
      refine Module.checkExports_concat ?_ ?_ List.not_mem_nil hexports
      · exact Check.require_eq_ok_iff.mpr
          (decide_eq_true (Module.start_lt_totalFuncs hstart hfunc))
      · have hnone := List.find?_eq_none.mp (Option.map_eq_none_iff.mp hfree)
        exact fun x hx hname => hnone x hx (decide_eq_true hname)

end Rewrite

/-- A rewritten module compiles to the same program, but for where it comes from. -/
theorem Program.ofModule_rewritten {bound : Option Nat} {m m' : Module} {p : Program}
    (h : m.Rewritten bound m') (hp : ofModule m = .ok p) :
    ofModule m' = .ok { p with source := m' } := by
  obtain ⟨-, -, himported, hsignatures, hbodies⟩ := ofModule_eq_ok hp
  have hbodies : m'.compileBodies m'.importedFuncs m'.codes = .ok p.bodies.toList := by
    rw [h.codes, h.spaces.importedFuncs, h.spaces.compileBodies, hbodies]
  rw [ofModule_of_bodies h.valid hbodies, h.spaces.importedFuncs, h.spaces.funcTypeIndices,
    h.spaces.types, himported, hsignatures, Array.toArray_toList]

/-! ### Instantiation -/

/-- Segments of bytes are written in the same way to a memory that is capped. -/
theorem Module.initMemory_cap (bound : Option Nat) (globals : List GlobalCell) (segment : Nat)
    (memory : Option Memory) (data : List DataSegment) :
    initMemory globals segment (memory.map (Memory.cap bound)) data
      = (initMemory globals segment memory data).map (Option.map (Memory.cap bound)) := by
  induction data generalizing segment memory with
  | nil => rfl
  | cons d rest ih =>
    rw [initMemory, initMemory]
    cases d.offset.evalOffset globals with
    | error e => rfl
    | ok offset =>
      cases memory with
      | none => rfl
      | some memory =>
        rw [Option.map_some]
        dsimp only [Bind.bind, Except.bind]
        rw [Memory.write_cap bound offset d.bytes memory]
        cases Memory.write offset d.bytes memory with
        | ok u memory' => exact ih (segment + 1) (some memory')
        | error t memory' => rfl

/-- **Linking** a rewritten module gives the capped instance, or fails for the same reason. -/
theorem instantiate_rewritten {bound : Option Nat} {m' : Module} {p : Program}
    (h : p.source.Rewritten bound m') (resolve : Resolver) :
    instantiate { p with source := m' } resolve
      = (instantiate p resolve).map (Instance.capped bound m') := by
  have himport : m'.resolveImport resolve = p.source.resolveImport resolve := by
    funext i
    unfold Module.resolveImport
    rw [h.spaces.types]
  unfold instantiate
  dsimp only
  rw [himport, h.spaces.imports, h.spaces.globals, h.table, h.elements, h.memory, h.data]
  -- only the last of the four steps works on something else than before
  cases p.source.imports.mapM (p.source.resolveImport resolve) with
  | error e => rfl
  | ok host =>
    cases Module.initGlobals [] p.source.globals with
    | error e => rfl
    | ok globals =>
      change (Module.initTable globals 0 _ _ >>= _) = Except.map _ (Module.initTable globals 0 _ _
        >>= _)
      cases Module.initTable globals 0 (p.source.tables.head?.map Table.ofLimits)
          p.source.elements with
      | error e => rfl
      | ok table =>
        change (Module.initMemory globals 0 _ _ >>= _) = Except.map _
          (Module.initMemory globals 0 _ _ >>= _)
        rw [Module.initMemory_cap]
        cases Module.initMemory globals 0 (p.source.memories.head?.map Memory.ofLimits)
            p.source.data with
        | error e => rfl
        | ok memory => rfl

namespace Rewrite

/-- **Rewrites preserve meaning.** A successful rewrite of a module that compiles gives a module
that compiles to the same bodies. With any resolver, an instance of it is made if one of the module
is, and fails for the same reason otherwise; and its store is the same but for the cap that a bound
on the memory puts on it. The two instances then answer every sequence of calls in the same way,
with the same outcomes, stores, operands and accounts and the same exchange with the checkpoint.
Under a bound on the memory this takes that the memory of the original instance does not grow beyond
the bound. -/
theorem preserves_meaning (r : Rewrite) {m m' : Module} {p : Program}
    (hp : Program.ofModule m = .ok p) (hr : r.apply m = .ok () m') :
    ∃ p', Program.ofModule m' = .ok p' ∧ p'.bodies = p.bodies ∧
      ∀ resolve,
        (∀ e, instantiate p resolve = .error e → instantiate p' resolve = .error e) ∧
        ∀ i, instantiate p resolve = .ok i →
          ∃ i', instantiate p' resolve = .ok i' ∧ i'.store = i.store.cap r.cap? ∧
            ∀ (calls : List Call) (c : Call),
              (∀ n, r = .limitMemory n → i.GrowsWithin n (calls ++ [c])) →
                (i'.afterAll calls).perform c = ((i.afterAll calls).perform c).cap r.cap? ∧
                  (i'.afterAll calls).exchange c = (i.afterAll calls).exchange c := by
  obtain ⟨hvalid, hsource, -⟩ := Program.ofModule_eq_ok hp
  have hrewritten : m.Rewritten r.cap? m' := rewritten hvalid hr
  refine ⟨_, Program.ofModule_rewritten hrewritten hp, rfl, fun resolve => ?_⟩
  rw [← hsource] at hrewritten
  rw [instantiate_rewritten hrewritten]
  refine ⟨fun e he => by rw [he]; rfl, fun i hi => ⟨i.capped r.cap? m', by rw [hi]; rfl, rfl, ?_⟩⟩
  intro calls c hcalls
  obtain ⟨hprogram, -⟩ := instantiate_eq_ok hi
  have htypes : m'.types = i.program.source.types := by
    rw [hprogram, hrewritten.spaces.types]
  -- no rewrite but the one of the memory asks anything of the calls
  have hwithin : ∀ n ∈ r.cap?, i.GrowsWithin n (calls ++ [c]) := by
    intro n hn
    cases r with
    | limitMemory pages =>
      cases hn
      exact hcalls n rfl
    | limitTables elements => cases hn
    | moveStart name => cases hn
  have hbefore : ∀ n ∈ r.cap?, i.GrowsWithin n calls := fun n hn =>
    (Instance.growsWithin_append.mp (hwithin n hn)).1
  have hlast : ∀ n ∈ r.cap?, (i.afterAll calls).CallWithin n c := fun n hn =>
    (Instance.growsWithin_append.mp (hwithin n hn)).2.1
  rw [Instance.afterAll_capped htypes hbefore]
  rw [← i.afterAll_program calls] at htypes
  exact ⟨Instance.perform_capped htypes hlast, Instance.exchange_capped htypes hlast⟩

/-- A module with an empty memory and a function that asks for a page. -/
def risingModule : Module where
  types := [{ params := [], results := [.i32] }]
  funcs := [0]
  memories := [{ min := 0, max := none }]
  codes := [{ locals := [], body := [0x41, 0x01, 0x40, 0x00, 0x0b] }]

/-- Its program. -/
def risingProgram : Program where
  source := risingModule
  signatures := #[some { params := [], results := [.i32] }]
  imported := 0
  bodies := #[{ locals := #[], code := #[.op (.const (.i32 1)), .op .memoryGrow, .endMark] }]

/-- An instance of it. -/
def rising : Instance where
  program := risingProgram
  host := #[]
  store := { memory := some (.ofLimits { min := 0, max := none }), table := none, globals := #[] }

/-- A call of the function. -/
def risingCall : Call where
  σ := Unit
  checkpoint := .unmetered
  pricing := {}
  limit := 3
  func := 0
  args := []
  operands := .empty
  account := ()

private theorem ofModule_risingModule : Program.ofModule risingModule = .ok risingProgram := by
  have hvalid : risingModule.validate = .ok () := rfl
  have hbodies : risingModule.compileBodies 0 risingModule.codes = .ok [{ locals := #[], code :=
      #[.op (.const (.i32 1)), .op .memoryGrow, .endMark] }] := by cbv
  exact Program.ofModule_of_bodies hvalid hbodies

/-- The only frame of the call. -/
private def risingFrame (position : Nat) : Frame where
  func := 0
  position
  locals := #[]
  labels := []
  base := 0
  result := some .i32

/-- The machine of the call at the given position. -/
private def risingMachine (position : Nat) (operands : List Value) (store : Store) :
    Machine Unit where
  store
  operands := .ofItems operands
  frames := .ofItems [risingFrame position]
  liveLocals := 0
  account := ()

/-- The store with the page that the function asks for. -/
private def risingStore : Store :=
  { rising.store with memory := some ⟨Memory.zeroPages 0 ++ Memory.zeroPages 1, maxPages⟩ }

/-- What a run of the call is given. -/
private def risingSetting : Setting Unit := rising.setting .unmetered {} 0

private theorem rising_turns : rising.turns risingCall =
    [risingMachine 0 [] rising.store, risingMachine 1 [.i32 1] rising.store,
      risingMachine 2 [.i32 0] risingStore] := by
  have hcall (store : Store) : Machine.call risingSetting 0 (.start store .empty ())
      = .ok () (risingMachine 0 [] store) := by cbv
  have hconst : Machine.turn risingSetting (risingMachine 0 [] rising.store)
      = .ok () (risingMachine 1 [.i32 1] rising.store) := rfl
  have hgrow : Machine.turn risingSetting (risingMachine 1 [.i32 1] rising.store)
      = .ok () (risingMachine 2 [.i32 0] risingStore) := rfl
  have hitems : ∀ position operands store,
      (risingMachine position operands store).frames.items = [risingFrame position] :=
    fun _ _ _ => rfl
  change Machine.callHistory risingSetting 3 0 (.start rising.store .empty ()) = _
  unfold Machine.callHistory
  rw [hcall]
  dsimp only
  rw [Machine.history_succ _ (hitems _ _ _) 2, hconst]
  dsimp only
  rw [Machine.history_succ _ (hitems _ _ _) 1, hgrow]
  rfl

/-- The memory gets its first page in the call, and no more. -/
private theorem rising_growsWithin : rising.GrowsWithin 1 [risingCall] := by
  -- there is only one turn in which the memory may grow
  have hgrows : ∀ {m size}, m ∈ rising.turns risingCall →
      Machine.GrowsTo risingSetting m size → m = risingMachine 1 [.i32 1] rising.store := by
    intro m size hm hgrows
    obtain ⟨hnext, -⟩ := hgrows
    rw [rising_turns] at hm
    fin_cases hm
    · cases hnext
    · rfl
    · cases hnext
  refine ⟨fun m hm size hsize => ?_, trivial⟩
  obtain rfl := hgrows hm hsize
  obtain ⟨-, -, hdelta, hmemory, hgrow⟩ := hsize
  cases hdelta
  cases hmemory
  rw [Memory.pages_grow hgrow]
  exact Nat.le_refl 1

/-- Under a bound of one page the function gets its page and answers as before. -/
theorem rising_preserves_meaning :
    ∃ m' p' i', Program.ofModule risingModule = .ok risingProgram ∧
      (limitMemory 1).apply risingModule = .ok () m' ∧ Program.ofModule m' = .ok p' ∧
      instantiate risingProgram Imports.standard.resolve = .ok rising ∧
      instantiate p' Imports.standard.resolve = .ok i' ∧ rising.GrowsWithin 1 [risingCall] ∧
      i'.perform risingCall = (rising.perform risingCall).cap (some 1) ∧
      i'.exchange risingCall = rising.exchange risingCall := by
  have hr : (limitMemory 1).apply risingModule
      = .ok () { risingModule with memories := [{ min := 0, max := some 1 }] } := rfl
  have hinstance : instantiate risingProgram Imports.standard.resolve = .ok rising := rfl
  obtain ⟨p', hp', -, hlinked⟩ := preserves_meaning (limitMemory 1) ofModule_risingModule hr
  obtain ⟨i', hi', -, hcalls⟩ := (hlinked Imports.standard.resolve).2 rising hinstance
  obtain ⟨hperform, hexchange⟩ := hcalls [] risingCall fun n hn => by
    cases hn
    exact rising_growsWithin
  exact ⟨_, p', i', ofModule_risingModule, hr, hp', hinstance, hi', rising_growsWithin, hperform,
    hexchange⟩

end Rewrite

end MeteredSandbox
