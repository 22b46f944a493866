import MeteredSandbox.Instance.Basic
import MeteredSandbox.Module.Adjustment
import MeteredSandbox.Proofs.Compiled

/-!
# Linked instances

From bytes to an instance a module goes through four stages, and each of them guarantees something
that no other looks at. Parsing gives as many bodies as functions (`Module.length_funcs_of_parse`),
and no adjustment changes that (`Module.Adjusted.length_funcs`). Validation gives every function a
signature (`Program.funcType_isSome`), and with the bodies every function that is not imported has
one (`Program.body_isSome`). Instantiation accepts no imports but functions, so it has one host
function for each index below the module's own, and a memory and globals wherever the module names
them (`Store.Fits`).
-/

namespace MeteredSandbox

/-! ### Parsing and adjustments -/

namespace Limits

/-- The limits with their maximum bounded. -/
def bounded (limit : Nat) (l : Limits) : Limits := { l with max := some (l.bound limit) }

theorem boundAll_eq {limit : Nat} {tooLarge : Nat → Nat → ValidationError} {ls ls' : List Limits}
    (h : boundAll limit tooLarge ls = (ls', none)) :
    ls' = ls.map (bounded limit) ∧ ∀ l ∈ ls, l.min ≤ l.bound limit := by
  induction ls generalizing ls' with
  | nil =>
    cases h
    exact ⟨rfl, fun l hl => absurd hl List.not_mem_nil⟩
  | cons l ls ih =>
    unfold boundAll at h
    by_cases hfits : l.min ≤ l.bound limit
    · rw [if_pos hfits] at h
      cases hrest : boundAll limit tooLarge ls with
      | mk rest e =>
        rw [hrest] at h
        cases h
        obtain ⟨rfl, hall⟩ := ih hrest
        exact ⟨rfl, List.forall_mem_cons.mpr ⟨hfits, hall⟩⟩
    · rw [if_neg hfits] at h
      cases h

end Limits

namespace Module

/-- A module that parses has a body for each of its functions. -/
theorem length_funcs_of_parse {bytes : List UInt8} {m : Module} (h : parse bytes = .ok m) :
    m.funcs.length = m.codes.length := by
  unfold parse at h
  obtain ⟨p, -, h⟩ := exists_of_bind_eq_ok h
  obtain ⟨draft, -, h⟩ := exists_of_bind_eq_ok h
  -- the lengths are compared when all sections have been placed
  split at h
  next => cases h
  next =>
    split at h
    next hlength =>
      cases h
      exact hlength
    next => cases h

/-- A module that successful adjustments may lead to, in any order and number. -/
inductive Adjusted (m : Module) : Module → Prop
  | refl : Adjusted m m
  | limitMemory {m₁ m₂ : Module} (limit : Nat) (h : Adjusted m m₁)
      (hstep : Module.limitMemory limit m₁ = .ok () m₂) : Adjusted m m₂
  | limitTables {m₁ m₂ : Module} (limit : Nat) (h : Adjusted m m₁)
      (hstep : Module.limitTables limit m₁ = .ok () m₂) : Adjusted m m₂
  | moveStart {m₁ m₂ : Module} (name : String) (h : Adjusted m m₁)
      (hstep : Module.moveStart name m₁ = .ok () m₂) : Adjusted m m₂

theorem limitMemory_eq_ok {limit : Nat} {m m' : Module} (h : limitMemory limit m = .ok () m') :
    m' = { m with memories := m.memories.map (Limits.bounded limit) } ∧
      ∀ l ∈ m.memories, l.min ≤ l.bound limit := by
  unfold limitMemory at h
  split at h
  · cases h
  · split at h
    next hbound =>
      cases h
      obtain ⟨rfl, hfits⟩ := Limits.boundAll_eq hbound
      exact ⟨rfl, hfits⟩
    next => cases h

theorem limitTables_eq_ok {limit : Nat} {m m' : Module} (h : limitTables limit m = .ok () m') :
    m' = { m with tables := m.tables.map (Limits.bounded limit) } ∧
      ∀ l ∈ m.tables, l.min ≤ l.bound limit := by
  unfold limitTables at h
  split at h
  next hbound =>
    cases h
    obtain ⟨rfl, hfits⟩ := Limits.boundAll_eq hbound
    exact ⟨rfl, hfits⟩
  next => cases h

theorem moveStart_eq_ok {name : String} {m m' : Module} (h : moveStart name m = .ok () m') :
    m.export? name = none ∧
      m' = { m with
        start := none
        exports := m.exports ++ (m.start.map fun func => { name, kind := .func func }).toList } := by
  unfold moveStart at h
  split at h
  next => cases h
  next hfree =>
    refine ⟨Option.not_isSome_iff_eq_none.mp hfree, ?_⟩
    split at h
    next hstart =>
      cases h
      rw [hstart, Option.map_none, Option.toList_none, List.append_nil, ← hstart]
    next func hstart =>
      cases h
      rw [hstart]
      rfl

/-- **Adjustments** leave the functions and their bodies alone. -/
theorem Adjusted.length_funcs {m m' : Module} (h : m.Adjusted m')
    (hm : m.funcs.length = m.codes.length) : m'.funcs.length = m'.codes.length := by
  induction h with
  | refl => exact hm
  | limitMemory limit _ hstep ih =>
    obtain ⟨rfl, -⟩ := limitMemory_eq_ok hstep
    exact ih
  | limitTables limit _ hstep ih =>
    obtain ⟨rfl, -⟩ := limitTables_eq_ok hstep
    exact ih
  | moveStart name _ hstep ih =>
    obtain ⟨-, rfl⟩ := moveStart_eq_ok hstep
    exact ih

/-- A function whose index is in range has a signature, if all functions name one. -/
theorem exists_funcType? {m : Module} (hfuncs : m.checkFuncs = .ok ()) {func : Nat}
    (hfunc : func < m.totalFuncs) : ∃ type, m.funcType? func = some type := by
  -- the type that the function names is there
  have htype : m.funcTypeIndices[func] < m.types.length :=
    of_decide_eq_true (Check.require_eq_ok_iff.mp
      (Check.all_eq_ok_iff.mp hfuncs _ (List.getElem_mem hfunc)))
  refine ⟨m.types[m.funcTypeIndices[func]], ?_⟩
  unfold funcType? funcTypeIndex?
  rw [List.getElem?_eq_getElem hfunc, Option.bind_some, List.getElem?_eq_getElem htype]

/-- Signatures have one result at most, if all types do. -/
theorem length_results_le {m : Module} (htypes : m.checkTypes = .ok ()) {func : Nat}
    {type : FuncType} (htype : m.funcType? func = some type) : type.results.length ≤ 1 := by
  obtain ⟨i, -, hi⟩ := Option.bind_eq_some_iff.mp htype
  have hmem : (type, i) ∈ m.types.zipIdx := List.mk_mem_zipIdx_iff_getElem?.mpr hi
  exact of_decide_eq_true
    (Check.require_eq_ok_iff.mp (Check.all_eq_ok_iff.mp htypes _ hmem))

end Module

/-! ### Functions of programs -/

namespace Program

theorem mem_bodies {p : Program} {func : Nat} {body : FuncBody} (h : p.body? func = some body) :
    body ∈ p.bodies := by
  unfold body? at h
  split at h
  · cases h
  · exact Array.mem_of_getElem? h

section Compiled

variable {m : Module} {p : Program} (h : ofModule m = .ok p) {func : Nat}
include h

/-- A program has the signatures of its module. -/
theorem funcType?_eq (func : Nat) : p.funcType? func = m.funcType? func := by
  obtain ⟨-, -, -, hsignatures, -⟩ := ofModule_eq_ok h
  unfold funcType? Module.funcType? Module.funcTypeIndex?
  rw [hsignatures, List.getElem?_toArray, List.getElem?_map]
  cases m.funcTypeIndices[func]? with
  | none => rfl
  | some i => rfl

/-- The function of an index in range has a signature, since the module is valid. -/
theorem funcType_isSome (hfunc : func < m.totalFuncs) : (p.funcType? func).isSome := by
  obtain ⟨hvalid, -⟩ := ofModule_eq_ok h
  have hfuncs : m.checkFuncs = .ok () := by
    unfold Module.validate at hvalid
    exact (Check.bind_eq_ok_iff.mp (Check.bind_eq_ok_iff.mp hvalid).2).1
  obtain ⟨type, htype⟩ := Module.exists_funcType? hfuncs hfunc
  rw [funcType?_eq h, htype]
  rfl

/-- Only the functions of the module have signatures. -/
theorem lt_totalFuncs {type : FuncType} (htype : p.funcType? func = some type) :
    func < m.totalFuncs := by
  rw [funcType?_eq h] at htype
  unfold Module.funcType? Module.funcTypeIndex? at htype
  rcases Nat.lt_or_ge func m.totalFuncs with hlt | hge
  · exact hlt
  · rw [List.getElem?_eq_none hge] at htype
    cases htype

/-- A function of the module's own has a body. -/
theorem body_isSome (hm : m.funcs.length = m.codes.length) (hfunc : func < m.totalFuncs)
    (hown : ¬ func < p.imported) : ∃ body, p.body? func = some body := by
  obtain ⟨-, -, himported, -, hbodies⟩ := ofModule_eq_ok h
  obtain ⟨hlength, -⟩ := Module.compileBodies_eq_ok hbodies
  have htotal : m.totalFuncs = m.importedFuncs + m.funcs.length := List.length_append
  have hlt : func - p.imported < p.bodies.size := by
    rw [← Array.length_toList, hlength, ← hm]
    omega
  refine ⟨p.bodies[func - p.imported], ?_⟩
  unfold body?
  rw [if_neg hown]
  exact Array.getElem?_eq_getElem hlt

end Compiled

end Program

/-! ### Instantiation -/

/-- The store has what the module says: a memory if the module has one, and as many globals. -/
structure Store.Fits (m : Module) (store : Store) : Prop where
  memory : 0 < m.totalMemories → store.memory.isSome
  globals : store.globals.size = m.totalGlobals

/-- Nothing that instructions do to a store makes it unfit. -/
theorem Store.fits_endures (m : Module) : Store.Endures (Store.Fits m) where
  memory _ _ h _ := ⟨fun _ => rfl, h.globals⟩
  globals store index cell h := ⟨h.memory, by rw [Array.size_setIfInBounds, h.globals]⟩

theorem mapM_eq_ok {ε α β : Type} {f : α → Except ε β} {xs : List α} {ys : List β}
    (h : xs.mapM f = .ok ys) : ys.length = xs.length ∧ ∀ x ∈ xs, ∃ y, f x = .ok y := by
  induction xs generalizing ys with
  | nil =>
    cases h
    exact ⟨rfl, fun x hx => absurd hx List.not_mem_nil⟩
  | cons x xs ih =>
    rw [List.mapM_cons] at h
    obtain ⟨y, hx, h⟩ := exists_of_bind_eq_ok h
    obtain ⟨ys', hxs, h⟩ := exists_of_bind_eq_ok h
    cases h
    obtain ⟨hlength, hall⟩ := ih hxs
    exact ⟨congrArg (· + 1) hlength, List.forall_mem_cons.mpr ⟨⟨y, hx⟩, hall⟩⟩

namespace Module

/-- Only functions resolve. -/
theorem resolveImport_eq_ok {m : Module} {resolve : Resolver} {i : Import} {f : HostFunc}
    (h : m.resolveImport resolve i = .ok f) : ∃ typeIndex, i.kind = .func typeIndex := by
  unfold resolveImport at h
  split at h
  next typeIndex hkind => exact ⟨typeIndex, hkind⟩
  next => cases h

/-- A module all of whose imports are functions imports nothing else. -/
theorem imported_of_funcs {m : Module} (h : ∀ i ∈ m.imports, ∃ t, i.kind = .func t) {α : Type}
    {pick : ImportKind → Option α} (hpick : ∀ t, pick (.func t) = none) : m.imported pick = [] := by
  refine List.filterMap_eq_nil_iff.mpr fun i hi => ?_
  obtain ⟨t, ht⟩ := h i hi
  rw [ht, hpick]

theorem importedFuncs_of_funcs {m : Module} (h : ∀ i ∈ m.imports, ∃ t, i.kind = .func t) :
    m.importedFuncs = m.imports.length := by
  unfold importedFuncs imported
  rw [List.filterMap_length_eq_length]
  intro i hi
  obtain ⟨t, ht⟩ := h i hi
  rw [ht]
  rfl

theorem initGlobals_eq_ok {before after : List GlobalCell} {globals : List Global}
    (h : initGlobals before globals = .ok after) :
    after.length = before.length + globals.length := by
  induction globals generalizing before with
  | nil =>
    cases h
    rfl
  | cons g rest ih =>
    rw [initGlobals] at h
    split at h
    · rw [ih h, List.length_append, List.length_cons, List.length_nil, List.length_cons]
      omega
    · cases h

theorem initMemory_eq_ok {globals : List GlobalCell} {segment : Nat} {data : List DataSegment}
    {memory memory' : Option Memory} (h : initMemory globals segment memory data = .ok memory')
    (hsome : memory.isSome) : memory'.isSome := by
  induction data generalizing segment memory with
  | nil =>
    cases h
    exact hsome
  | cons d rest ih =>
    rw [initMemory] at h
    obtain ⟨offset, -, h⟩ := exists_of_bind_eq_ok h
    split at h
    · cases h
    · split at h
      · exact ih h rfl
      · cases h

end Module

/-- **What a fresh instance has**: the program that it was made of, a host function for every
imported function, and a store that fits. -/
theorem instantiate_eq_ok {p : Program} {resolve : Resolver} {i : Instance}
    (h : instantiate p resolve = .ok i) :
    i.program = p ∧ i.host.size = p.source.importedFuncs ∧ i.store.Fits p.source := by
  obtain ⟨host, hhost, h⟩ := exists_of_bind_eq_ok h
  obtain ⟨globals, hglobals, h⟩ := exists_of_bind_eq_ok h
  obtain ⟨table, -, h⟩ := exists_of_bind_eq_ok h
  obtain ⟨memory, hmemory, h⟩ := exists_of_bind_eq_ok h
  cases h
  obtain ⟨hsize, hresolved⟩ := mapM_eq_ok hhost
  -- nothing but functions resolves, so the module imports nothing else
  have hfuncs : ∀ i ∈ p.source.imports, ∃ t, i.kind = .func t := fun i hi => by
    obtain ⟨f, hf⟩ := hresolved i hi
    exact Module.resolveImport_eq_ok hf
  refine ⟨rfl, ?_, ?_, ?_⟩
  · rw [Module.importedFuncs_of_funcs hfuncs, ← hsize]
    rfl
  · -- so the memories are those that the module declares
    intro hpos
    unfold Module.totalMemories Module.allMemories at hpos
    rw [Module.imported_of_funcs hfuncs fun _ => rfl, List.nil_append] at hpos
    obtain ⟨limits, rest, hcons⟩ := List.exists_cons_of_length_pos hpos
    refine Module.initMemory_eq_ok hmemory ?_
    rw [hcons]
    rfl
  · -- and so are the globals
    unfold Module.totalGlobals Module.globalTypes
    rw [Module.imported_of_funcs hfuncs fun _ => rfl, List.nil_append, List.length_map]
    change globals.length = _
    rw [Module.initGlobals_eq_ok hglobals, List.length_nil, Nat.zero_add]

end MeteredSandbox
