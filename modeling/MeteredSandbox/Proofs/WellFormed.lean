import Mathlib
import MeteredSandbox.Proofs.Admission

/-!
# Well-formed modules

Validation is a sequence of checks that stops at the first one that fails. What it comes to does
not depend on the order: a module passes exactly if it is **well formed** (`Module.WellFormed`),
which is said here rule by rule, without a check in it. Index spaces are taken with the imported
items first, and an initializer may read a global only if that is declared before it and never
changes.

Each check has an equivalence of its own, and so the theorem (`Module.validate_iff_wellFormed`) is
put together from them. Two checks look at more than one item. The names of exports are compared
with a list of the names seen so far, which grows from one export to the next, so the induction is
on the exports for any such list. And the tables and memories of a module are checked in two places,
where they are imported and where they are declared.
-/

namespace MeteredSandbox

/-! ### Limits -/

namespace Limits

/-- Limits are **sane** for a size: the minimum is not above it, nor above the maximum if there is
one. -/
structure Sane (size : Nat) (l : Limits) : Prop where
  ordered : ∀ max ∈ l.max, l.min ≤ max
  within : l.min ≤ size

theorem checkOrder_eq_ok_iff {l : Limits} : l.checkOrder = .ok () ↔ ∀ max ∈ l.max, l.min ≤ max := by
  unfold checkOrder
  cases l.max with
  | none => simp
  | some max => simp

theorem checkTable_eq_ok_iff {l : Limits} : l.checkTable = .ok () ↔ l.Sane maxTableSize := by
  unfold checkTable
  rw [Check.bind_eq_ok_iff, checkOrder_eq_ok_iff, Check.require_eq_ok_iff, decide_eq_true_iff]
  exact ⟨fun h => ⟨h.1, h.2⟩, fun h => ⟨h.ordered, h.within⟩⟩

theorem checkMemory_eq_ok_iff {l : Limits} : l.checkMemory = .ok () ↔ l.Sane maxPages := by
  unfold checkMemory
  rw [Check.bind_eq_ok_iff, checkOrder_eq_ok_iff, Check.require_eq_ok_iff, decide_eq_true_iff]
  exact ⟨fun h => ⟨h.1, h.2⟩, fun h => ⟨h.ordered, h.within⟩⟩

end Limits

/-! ### Initializers -/

namespace ConstExpr

/-- An initializer **yields** a value of type `t`, where the globals below `visible` may be read: it
is a literal of that type, or reads a global of that type that never changes. -/
inductive Yields (globals : List GlobalType) (visible : Nat) (t : ValType) : ConstExpr → Prop
  | const (v : Value) (htype : v.type = t) : Yields globals visible t (.const v)
  | global (i : Nat) (hvisible : i < visible)
      (hglobal : globals[i]? = some { type := t, mutable := false }) :
      Yields globals visible t (.global i)

theorem checkType_eq_ok_iff {globals : List GlobalType} {visible : Nat} {t : ValType}
    {e : ConstExpr} : e.checkType globals visible t = .ok () ↔ e.Yields globals visible t := by
  have hfound : e.checkType globals visible t = .ok () ↔ e.type globals visible = .ok t := by
    unfold checkType
    cases e.type globals visible with
    | error flaw => exact iff_of_false nofun nofun
    | ok found =>
      change Check.require (t = found) _ = .ok () ↔ _
      rw [Check.require_eq_ok_iff, decide_eq_true_iff, Except.ok.injEq]
      exact eq_comm
  rw [hfound]
  cases e with
  | const v =>
    constructor
    · intro h
      exact .const v (Except.ok.inj h)
    · rintro ⟨⟩
      exact congrArg Except.ok ‹_›
  | global i =>
    unfold type
    dsimp only
    constructor
    · intro h
      split at h
      next => cases h
      next g hg =>
        obtain ⟨hvisible, hglobal⟩ := Option.ite_none_right_eq_some.mp hg
        split at h
        next => cases h
        next hfixed =>
          cases h
          refine .global i hvisible (hglobal.trans ?_)
          rw [← Bool.eq_false_iff.mpr hfixed]
    · rintro (_ | ⟨_, hvisible, hglobal⟩)
      rw [if_pos hvisible, hglobal]
      rfl

end ConstExpr

/-! ### Modules -/

namespace Module

/-- The index of an export is in range for its kind. -/
def InRange (m : Module) : ExportKind → Prop
  | .func i => i < m.totalFuncs
  | .table i => i < m.totalTables
  | .memory i => i < m.totalMemories
  | .global i => i < m.totalGlobals

/-- **A well-formed module.** -/
structure WellFormed (m : Module) : Prop where
  /-- No signature has more than one result. -/
  results : ∀ t ∈ m.types, t.results.length ≤ 1
  /-- All functions, imported or not, have a signature. -/
  signatures : ∀ i ∈ m.funcTypeIndices, i < m.types.length
  /-- There is at most one table, imported or not. -/
  oneTable : m.totalTables ≤ 1
  /-- There is at most one memory, imported or not. -/
  oneMemory : m.totalMemories ≤ 1
  tables : ∀ l ∈ m.allTables, l.Sane maxTableSize
  memories : ∀ l ∈ m.allMemories, l.Sane maxPages
  /-- A global of the module's own has an initializer of its type, which may read imported globals
  and those declared before it. -/
  globals : ∀ i (g : Global), m.globals[i]? = some g →
    g.init.Yields m.globalTypes ((m.imported ImportKind.global?).length + i) g.type.type
  /-- No two exports have the same name. -/
  names : (m.exports.map Export.name).Nodup
  exports : ∀ e ∈ m.exports, m.InRange e.kind
  /-- The start function is there, and takes and returns nothing. -/
  start : ∀ func ∈ m.start, m.funcType? func = some { params := [], results := [] }
  elements : ∀ s ∈ m.elements, s.table < m.totalTables ∧
    s.offset.Yields m.globalTypes m.totalGlobals .i32 ∧ ∀ func ∈ s.funcs, func < m.totalFuncs
  data : ∀ s ∈ m.data, s.memory < m.totalMemories ∧
    s.offset.Yields m.globalTypes m.totalGlobals .i32

variable {m : Module}

theorem checkTypes_eq_ok_iff : m.checkTypes = .ok () ↔ ∀ t ∈ m.types, t.results.length ≤ 1 := by
  unfold checkTypes
  rw [Check.all_eq_ok_iff]
  simp only [Check.require_eq_ok_iff, decide_eq_true_iff, Prod.forall]
  constructor
  · intro h t ht
    obtain ⟨i, hi⟩ := List.mem_iff_getElem?.mp ht
    exact h t i (List.mk_mem_zipIdx_iff_getElem?.mpr hi)
  · intro h t i hi
    exact h t (List.mem_of_getElem? (List.mk_mem_zipIdx_iff_getElem?.mp hi))

theorem checkFuncs_eq_ok_iff :
    m.checkFuncs = .ok () ↔ ∀ i ∈ m.funcTypeIndices, i < m.types.length := by
  unfold checkFuncs
  rw [Check.all_eq_ok_iff]
  simp only [Check.require_eq_ok_iff, decide_eq_true_iff]

/-- What holds of all imported and all declared items of a kind holds of the whole index space. -/
theorem forall_mem_imported_append {α : Type} {pick : ImportKind → Option α} {own : List α}
    {P : α → Prop} : (∀ x ∈ m.imported pick ++ own, P x) ↔
      (∀ i ∈ m.imports, ∀ x ∈ pick i.kind, P x) ∧ ∀ x ∈ own, P x := by
  rw [List.forall_mem_append]
  refine and_congr_left' ?_
  unfold imported
  simp only [List.mem_filterMap, Option.mem_def]
  exact ⟨fun h i hi x hx => h x ⟨i, hi, hx⟩, fun h x ⟨i, hi, hx⟩ => h i hi x hx⟩

theorem checkImport_eq_ok_iff {i : Import} : checkImport i = .ok () ↔
    (∀ l ∈ i.kind.table?, l.Sane maxTableSize) ∧ ∀ l ∈ i.kind.memory?, l.Sane maxPages := by
  unfold checkImport
  cases i.kind with
  | func typeIndex => simp [ImportKind.table?, ImportKind.memory?]
  | table l => simp [ImportKind.table?, ImportKind.memory?, Limits.checkTable_eq_ok_iff]
  | memory l => simp [ImportKind.table?, ImportKind.memory?, Limits.checkMemory_eq_ok_iff]
  | global type => simp [ImportKind.table?, ImportKind.memory?]

/-- Tables and memories, wherever they are declared. -/
theorem checkSpaces_eq_ok_iff : m.checkSpaces = .ok () ↔
    m.totalTables ≤ 1 ∧ m.totalMemories ≤ 1 ∧ (∀ l ∈ m.allTables, l.Sane maxTableSize) ∧
      ∀ l ∈ m.allMemories, l.Sane maxPages := by
  unfold checkSpaces allTables allMemories
  rw [forall_mem_imported_append, forall_mem_imported_append]
  simp only [Check.bind_eq_ok_iff, Check.all_eq_ok_iff, Check.require_eq_ok_iff,
    decide_eq_true_iff, checkImport_eq_ok_iff, Limits.checkTable_eq_ok_iff,
    Limits.checkMemory_eq_ok_iff, forall_and]
  tauto

theorem checkGlobals_eq_ok_iff : m.checkGlobals = .ok () ↔
    ∀ i (g : Global), m.globals[i]? = some g →
      g.init.Yields m.globalTypes ((m.imported ImportKind.global?).length + i) g.type.type := by
  unfold checkGlobals
  rw [Check.all_eq_ok_iff]
  simp only [Prod.forall, List.mk_mem_zipIdx_iff_getElem?, ConstExpr.checkType_eq_ok_iff]
  exact forall_comm

theorem checkExportKind_eq_ok_iff {kind : ExportKind} :
    m.checkExportKind kind = .ok () ↔ m.InRange kind := by
  cases kind with
  | func | table | memory | global =>
    exact Check.require_eq_ok_iff.trans decide_eq_true_iff

/-- Exports, after those whose names have been `seen`. -/
theorem checkExports_eq_ok_iff {seen : List String} {exports : List Export} :
    m.checkExports seen exports = .ok () ↔
      (exports.map Export.name).Nodup ∧ (∀ e ∈ exports, e.name ∉ seen) ∧
        ∀ e ∈ exports, m.InRange e.kind := by
  induction exports generalizing seen with
  | nil => simp [checkExports]
  | cons e rest ih =>
    unfold checkExports
    rw [Check.bind_eq_ok_iff, Check.bind_eq_ok_iff, ih, Check.require_eq_ok_iff,
      decide_eq_true_iff, checkExportKind_eq_ok_iff, List.map_cons, List.nodup_cons,
      List.forall_mem_cons, List.forall_mem_cons]
    -- a name that comes later is neither among those seen nor the one that has just been added
    have hlater : (∀ x ∈ rest, x.name ∉ e.name :: seen) ↔
        e.name ∉ rest.map Export.name ∧ ∀ x ∈ rest, x.name ∉ seen := by
      simp only [List.mem_cons, not_or, forall_and, List.mem_map, not_exists, not_and]
    rw [hlater]
    tauto

theorem checkStart_eq_ok_iff : m.checkStart = .ok () ↔
    ∀ func ∈ m.start, m.funcType? func = some { params := [], results := [] } := by
  unfold checkStart
  cases m.start with
  | none => simp
  | some func =>
    simp only [Option.mem_def, Option.some.injEq, forall_eq']
    cases m.funcType? func with
    | none => simp
    | some type =>
      obtain ⟨params, results⟩ := type
      simp

theorem checkElements_eq_ok_iff {s : ElementSegment} : m.checkElements s = .ok () ↔
    s.table < m.totalTables ∧ s.offset.Yields m.globalTypes m.totalGlobals .i32 ∧
      ∀ func ∈ s.funcs, func < m.totalFuncs := by
  unfold checkElements
  simp only [Check.bind_eq_ok_iff, Check.all_eq_ok_iff, Check.require_eq_ok_iff,
    decide_eq_true_iff, ConstExpr.checkType_eq_ok_iff]

theorem checkData_eq_ok_iff {s : DataSegment} : m.checkData s = .ok () ↔
    s.memory < m.totalMemories ∧ s.offset.Yields m.globalTypes m.totalGlobals .i32 := by
  unfold checkData
  simp only [Check.bind_eq_ok_iff, Check.require_eq_ok_iff, decide_eq_true_iff,
    ConstExpr.checkType_eq_ok_iff]

/-- **Validation accepts exactly the well-formed modules.** -/
theorem validate_iff_wellFormed (m : Module) : m.validate = .ok () ↔ m.WellFormed := by
  rw [validate_eq_ok_iff, checkTypes_eq_ok_iff, checkFuncs_eq_ok_iff, checkSpaces_eq_ok_iff,
    checkGlobals_eq_ok_iff, checkExports_eq_ok_iff, checkStart_eq_ok_iff]
  simp only [checkElements_eq_ok_iff, checkData_eq_ok_iff]
  constructor
  · rintro ⟨hresults, hsignatures, ⟨honeTable, honeMemory, htables, hmemories⟩, hglobals,
      ⟨hnames, -, hexports⟩, hstart, helements, hdata⟩
    exact ⟨hresults, hsignatures, honeTable, honeMemory, htables, hmemories, hglobals, hnames,
      hexports, hstart, helements, hdata⟩
  · intro h
    exact ⟨h.results, h.signatures, ⟨h.oneTable, h.oneMemory, h.tables, h.memories⟩, h.globals,
      ⟨h.names, fun e _ => List.not_mem_nil, h.exports⟩, h.start, h.elements, h.data⟩

end Module

end MeteredSandbox
