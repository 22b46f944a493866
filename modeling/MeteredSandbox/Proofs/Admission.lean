import Mathlib
import MeteredSandbox.Catalog.Basic
import MeteredSandbox.Proofs.Linked

/-!
# Admission and compilation

A host admits a program by a longer way than compiling it: the bytes are parsed, the limits of the
module's own memory and table are bounded, its start function is turned into an export, and what
results is compiled. This compares the two.

None of the adjustments changes an index space (`Module.SameSpaces`), so bodies compile in the same
way, and almost every check has the same answer before and after. Bounded limits are in order only
if the limits were (`Limits.checkOrder_of_fits`), and the names and indices of exports are checked
with one export more. The exception is the check of the start function, which finds nothing to look
at once that function has been moved. Hence a module whose adjusted form is valid passes exactly if
it passes this one check (`Policy.validate_of_adjust`), and a program that is admitted compiles
unless its start function takes or returns something (`Catalog.insert_compile`).
-/

namespace MeteredSandbox

/-! ### Bounded limits -/

namespace Limits

/-- Limits whose minimum is within the bound were in order before they were bounded. -/
theorem checkOrder_of_fits {l : Limits} {limit : Nat} (h : l.min ≤ l.bound limit) :
    l.checkOrder = .ok () := by
  unfold checkOrder
  unfold bound at h
  cases hmax : l.max with
  | none => rfl
  | some max =>
    rw [hmax, Option.getD_some] at h
    have hle : l.min ≤ max := Nat.le_trans h (Nat.min_le_left max limit)
    exact Check.require_eq_ok_iff.mpr (decide_eq_true hle)

theorem checkTable_of_bounded {l : Limits} {limit : Nat} (hfits : l.min ≤ l.bound limit)
    (h : (l.bounded limit).checkTable = .ok ()) : l.checkTable = .ok () :=
  Check.bind_eq_ok_iff.mpr ⟨checkOrder_of_fits hfits, (Check.bind_eq_ok_iff.mp h).2⟩

theorem checkMemory_of_bounded {l : Limits} {limit : Nat} (hfits : l.min ≤ l.bound limit)
    (h : (l.bounded limit).checkMemory = .ok ()) : l.checkMemory = .ok () :=
  Check.bind_eq_ok_iff.mpr ⟨checkOrder_of_fits hfits, (Check.bind_eq_ok_iff.mp h).2⟩

end Limits

/-! ### Index spaces -/

namespace Module

/-- Two modules with the same **index spaces**. They may differ in the limits of their own tables
and memories, in their exports and in their start functions. -/
structure SameSpaces (m m' : Module) : Prop where
  types : m'.types = m.types
  imports : m'.imports = m.imports
  funcs : m'.funcs = m.funcs
  globals : m'.globals = m.globals
  tables : m'.tables.length = m.tables.length
  memories : m'.memories.length = m.memories.length

namespace SameSpaces

variable {m m' : Module} (h : SameSpaces m m')
include h

theorem imported {α : Type} (pick : ImportKind → Option α) : m'.imported pick = m.imported pick := by
  unfold Module.imported
  rw [h.imports]

theorem funcTypeIndices : m'.funcTypeIndices = m.funcTypeIndices := by
  unfold Module.funcTypeIndices
  rw [h.imported, h.funcs]

theorem globalTypes : m'.globalTypes = m.globalTypes := by
  unfold Module.globalTypes
  rw [h.imported, h.globals]

theorem totalFuncs : m'.totalFuncs = m.totalFuncs := congrArg List.length h.funcTypeIndices

theorem totalGlobals : m'.totalGlobals = m.totalGlobals := congrArg List.length h.globalTypes

theorem totalTables : m'.totalTables = m.totalTables := by
  unfold Module.totalTables allTables
  rw [List.length_append, List.length_append, h.imported, h.tables]

theorem totalMemories : m'.totalMemories = m.totalMemories := by
  unfold Module.totalMemories allMemories
  rw [List.length_append, List.length_append, h.imported, h.memories]

theorem importedFuncs : m'.importedFuncs = m.importedFuncs := by
  unfold Module.importedFuncs
  rw [h.imported]

theorem funcType? (func : Nat) : m'.funcType? func = m.funcType? func := by
  unfold Module.funcType? funcTypeIndex?
  rw [h.funcTypeIndices, h.types]

/-! What is checked by index has the same answer. -/

theorem checkTypes : m'.checkTypes = m.checkTypes := by
  unfold Module.checkTypes
  rw [h.types]

theorem checkFuncs : m'.checkFuncs = m.checkFuncs := by
  unfold Module.checkFuncs
  rw [h.funcTypeIndices, h.types]

theorem checkGlobals : m'.checkGlobals = m.checkGlobals := by
  unfold Module.checkGlobals
  rw [h.imported, h.globals, h.globalTypes]

theorem checkElements (s : ElementSegment) : m'.checkElements s = m.checkElements s := by
  unfold Module.checkElements
  rw [h.totalTables, h.globalTypes, h.totalGlobals, h.totalFuncs]

theorem checkData (s : DataSegment) : m'.checkData s = m.checkData s := by
  unfold Module.checkData
  rw [h.totalMemories, h.globalTypes, h.totalGlobals]

theorem checkExportKind (kind : ExportKind) : m'.checkExportKind kind = m.checkExportKind kind := by
  unfold Module.checkExportKind
  rw [h.totalFuncs, h.totalTables, h.totalMemories, h.totalGlobals]

theorem checkExports (seen : List String) (exports : List Export) :
    m'.checkExports seen exports = m.checkExports seen exports := by
  induction exports generalizing seen with
  | nil => rfl
  | cons e rest ih =>
    unfold Module.checkExports
    rw [h.checkExportKind, ih]

theorem checkOp (o : Op) : m'.checkOp o = m.checkOp o := by
  unfold Module.checkOp
  rw [h.totalFuncs, h.types, h.totalTables, h.totalGlobals, h.totalMemories]

theorem checkReferences (code : List Instr) : m'.checkReferences code = m.checkReferences code := by
  unfold Module.checkReferences
  rw [funext h.checkOp]

/-- Bodies compile in the same way. -/
theorem compileBodies (func : Nat) (entries : List CodeEntry) :
    m'.compileBodies func entries = m.compileBodies func entries := by
  have hbody : ∀ func entry, m'.compileBody func entry = m.compileBody func entry := by
    intro func entry
    unfold Module.compileBody
    rw [h.funcType?, funext h.checkReferences]
  induction entries generalizing func with
  | nil => rfl
  | cons entry rest ih =>
    unfold Module.compileBodies
    rw [hbody, ih]

end SameSpaces

/-! ### Checks -/

theorem validate_eq_ok_iff {m : Module} : m.validate = .ok () ↔
    m.checkTypes = .ok () ∧ m.checkFuncs = .ok () ∧ m.checkSpaces = .ok () ∧
      m.checkGlobals = .ok () ∧ m.checkExports [] m.exports = .ok () ∧ m.checkStart = .ok () ∧
      (∀ s ∈ m.elements, m.checkElements s = .ok ()) ∧ ∀ s ∈ m.data, m.checkData s = .ok () := by
  unfold validate
  simp only [Check.bind_eq_ok_iff, Check.all_eq_ok_iff]

/-- If all other checks pass, validation comes down to the check of the start function. -/
theorem validate_eq_checkStart {m : Module} (htypes : m.checkTypes = .ok ())
    (hfuncs : m.checkFuncs = .ok ()) (hspaces : m.checkSpaces = .ok ())
    (hglobals : m.checkGlobals = .ok ()) (hexports : m.checkExports [] m.exports = .ok ())
    (helements : ∀ s ∈ m.elements, m.checkElements s = .ok ())
    (hdata : ∀ s ∈ m.data, m.checkData s = .ok ()) : m.validate = m.checkStart := by
  have helements : Check.all m.elements m.checkElements = .ok () :=
    Check.all_eq_ok_iff.mpr helements
  have hdata : Check.all m.data m.checkData = .ok () := Check.all_eq_ok_iff.mpr hdata
  unfold validate
  rw [htypes, hfuncs, hspaces, hglobals, hexports, helements, hdata]
  change (m.checkStart >>= fun _ => Except.ok ()) = m.checkStart
  cases m.checkStart with
  | ok u => rfl
  | error e => rfl

theorem checkExports_append {m : Module} {seen : List String} {xs ys : List Export}
    (h : m.checkExports seen (xs ++ ys) = .ok ()) :
    m.checkExports seen xs = .ok () ∧ ∀ e ∈ ys, m.checkExportKind e.kind = .ok () := by
  induction xs generalizing seen with
  | nil =>
    refine ⟨rfl, ?_⟩
    rw [List.nil_append] at h
    induction ys generalizing seen with
    | nil => exact fun e he => absurd he List.not_mem_nil
    | cons y ys ih =>
      unfold checkExports at h
      obtain ⟨-, h⟩ := Check.bind_eq_ok_iff.mp h
      obtain ⟨hy, hys⟩ := Check.bind_eq_ok_iff.mp h
      exact List.forall_mem_cons.mpr ⟨hy, ih hys⟩
  | cons x xs ih =>
    rw [List.cons_append] at h
    unfold checkExports at h ⊢
    obtain ⟨hname, h⟩ := Check.bind_eq_ok_iff.mp h
    obtain ⟨hkind, h⟩ := Check.bind_eq_ok_iff.mp h
    obtain ⟨hxs, hys⟩ := ih h
    exact ⟨Check.bind_eq_ok_iff.mpr ⟨hname, Check.bind_eq_ok_iff.mpr ⟨hkind, hxs⟩⟩, hys⟩

/-! ### Adjustments -/

/-- A module with its memories and tables bounded and its start function exported as `name`. -/
def prepared (m : Module) (memoryBound tableBound : Nat) (name : String) : Module :=
  { m with
    memories := m.memories.map (Limits.bounded memoryBound)
    tables := m.tables.map (Limits.bounded tableBound)
    start := none
    exports := m.exports ++ (m.start.map fun func => { name, kind := .func func }).toList }

theorem sameSpaces_prepared (m : Module) (memoryBound tableBound : Nat) (name : String) :
    SameSpaces m (m.prepared memoryBound tableBound name) where
  types := rfl
  imports := rfl
  funcs := rfl
  globals := rfl
  tables := List.length_map ..
  memories := List.length_map ..

/-- **Preparing a module hides one check only.** If the prepared module is valid and all limits are
within their bounds, validation of the module comes down to the check of its start function. -/
theorem validate_of_prepared {m : Module} {memoryBound tableBound : Nat} {name : String}
    (hmemories : ∀ l ∈ m.memories, l.min ≤ l.bound memoryBound)
    (htables : ∀ l ∈ m.tables, l.min ≤ l.bound tableBound)
    (hvalid : (m.prepared memoryBound tableBound name).validate = .ok ()) :
    m.validate = m.checkStart := by
  have h := m.sameSpaces_prepared memoryBound tableBound name
  obtain ⟨htypes, hfuncs, hspaces, hglobals, hexports, -, helements, hdata⟩ :=
    validate_eq_ok_iff.mp hvalid
  rw [h.checkTypes] at htypes
  rw [h.checkFuncs] at hfuncs
  rw [h.checkGlobals] at hglobals
  rw [h.checkExports] at hexports
  refine validate_eq_checkStart htypes hfuncs ?_ hglobals (checkExports_append hexports).1
    (fun s hs => h.checkElements s ▸ helements s hs) fun s hs => h.checkData s ▸ hdata s hs
  unfold checkSpaces at hspaces ⊢
  simp only [Check.bind_eq_ok_iff, Check.all_eq_ok_iff] at hspaces ⊢
  obtain ⟨himports, htotalTables, htotalMemories, hown, hown'⟩ := hspaces
  rw [h.totalTables] at htotalTables
  rw [h.totalMemories] at htotalMemories
  refine ⟨himports, htotalTables, htotalMemories, fun l hl => ?_, fun l hl => ?_⟩
  · exact Limits.checkTable_of_bounded (htables l hl) (hown _ (List.mem_map_of_mem hl))
  · exact Limits.checkMemory_of_bounded (hmemories l hl) (hown' _ (List.mem_map_of_mem hl))

/-- The start function of a module that passes its checks once prepared is there, since it is
checked as an export. -/
theorem funcType?_of_prepared {m : Module} {memoryBound tableBound : Nat} {name : String}
    (hvalid : (m.prepared memoryBound tableBound name).validate = .ok ()) {func : Nat}
    (hstart : m.start = some func) : ∃ type, m.funcType? func = some type := by
  have h := m.sameSpaces_prepared memoryBound tableBound name
  obtain ⟨-, hfuncs, -, -, hexports, -⟩ := validate_eq_ok_iff.mp hvalid
  rw [h.checkFuncs] at hfuncs
  rw [h.checkExports] at hexports
  have hmem : ({ name, kind := .func func } : Export)
      ∈ (m.start.map fun func => ({ name, kind := .func func } : Export)).toList := by
    rw [hstart]
    exact List.mem_singleton_self _
  exact exists_funcType? hfuncs
    (of_decide_eq_true (Check.require_eq_ok_iff.mp ((checkExports_append hexports).2 _ hmem)))

/-- The name of the start function, which was free, is now that of the start function. -/
theorem export?_prepared {m : Module} {memoryBound tableBound : Nat} {name : String}
    (hfree : m.export? name = none) :
    (m.prepared memoryBound tableBound name).export? name = m.start.map .func := by
  unfold export? at hfree ⊢
  have hnone := Option.map_eq_none_iff.mp hfree
  unfold prepared
  dsimp only
  rw [List.find?_append, hnone, Option.none_or]
  cases m.start with
  | none => rfl
  | some func =>
    rw [Option.map_some, Option.toList_some, List.find?_cons, decide_eq_true rfl]
    rfl

end Module

/-! ### Policies -/

namespace Policy

/-- What a policy makes of a module that it accepts so far. -/
theorem adjust_eq_ok {p : Policy} {m m' : Module} (h : p.adjust m = .ok () m') :
    m' = m.prepared p.memoryBound p.tableBound p.startName ∧ m.export? p.startName = none ∧
      (∀ l ∈ m.memories, l.min ≤ l.bound p.memoryBound) ∧
        ∀ l ∈ m.tables, l.min ≤ l.bound p.tableBound := by
  unfold adjust at h
  rw [bind_apply] at h
  cases hmemory : Module.limitMemory p.memoryBound m with
  | error e m₁ =>
    rw [hmemory] at h
    cases h
  | ok u m₁ =>
    rw [hmemory] at h
    dsimp only at h
    rw [bind_apply] at h
    obtain ⟨rfl, hmemories⟩ := Module.limitMemory_eq_ok hmemory
    cases htable : Module.limitTables p.tableBound
        { m with memories := m.memories.map (Limits.bounded p.memoryBound) } with
    | error e m₂ =>
      rw [htable] at h
      cases h
    | ok u m₂ =>
      rw [htable] at h
      obtain ⟨rfl, htables⟩ := Module.limitTables_eq_ok htable
      obtain ⟨hfree, rfl⟩ := Module.moveStart_eq_ok h
      exact ⟨rfl, hfree, hmemories, htables⟩

/-- What has been checked of a program that a policy accepts. -/
theorem accept_eq_ok {p : Policy} {bytes : List UInt8} {e : CatalogEntry}
    (h : p.accept bytes = .ok e) :
    ∃ m, Module.parse bytes = .ok m ∧ e.digest = .of bytes ∧ e.start = m.start ∧
      Program.ofModule (m.prepared p.memoryBound p.tableBound p.startName) = .ok e.program ∧
      (∀ l ∈ m.memories, l.min ≤ l.bound p.memoryBound) ∧
        ∀ l ∈ m.tables, l.min ≤ l.bound p.tableBound := by
  obtain ⟨m', hadjusted, hrest⟩ := exists_of_bind_eq_ok h
  obtain ⟨program, hprogram, hrest⟩ := exists_of_bind_eq_ok hrest
  obtain ⟨points, -, hentry⟩ := exists_of_bind_eq_ok hrest
  obtain ⟨m, hparse, hadjust⟩ := exists_of_bind_eq_ok hadjusted
  cases hr : p.adjust m with
  | error e m' =>
    rw [hr] at hadjust
    cases hadjust
  | ok u m' =>
    rw [hr] at hadjust
    cases hadjust
    obtain ⟨rfl, hfree, hmemories, htables⟩ := adjust_eq_ok hr
    have hprogram := eq_ok_of_mapError hprogram
    cases hentry
    refine ⟨m, eq_ok_of_mapError hparse, rfl, ?_, hprogram, hmemories, htables⟩
    -- the start function is found again under the name that it was given
    obtain ⟨-, hsource, -⟩ := Program.ofModule_eq_ok hprogram
    change program.exportedFunc? p.startName = m.start
    unfold Program.exportedFunc?
    rw [hsource, Module.export?_prepared hfree]
    cases m.start with
    | none => rfl
    | some func => rfl

end Policy

/-- A module compiles like its prepared form, but for the check of its start function. -/
theorem Program.ofModule_of_prepared {m : Module} {memoryBound tableBound : Nat} {name : String}
    {program : Program} (hmemories : ∀ l ∈ m.memories, l.min ≤ l.bound memoryBound)
    (htables : ∀ l ∈ m.tables, l.min ≤ l.bound tableBound)
    (h : ofModule (m.prepared memoryBound tableBound name) = .ok program) :
    ofModule m = (m.checkStart.mapError .validation).map fun _ => { program with source := m } := by
  have hspaces := m.sameSpaces_prepared memoryBound tableBound name
  obtain ⟨hvalid, -, himported, hsignatures, hbodies⟩ := ofModule_eq_ok h
  rw [hspaces.importedFuncs, hspaces.compileBodies] at hbodies
  rw [hspaces.importedFuncs] at himported
  rw [hspaces.funcTypeIndices] at hsignatures
  have hbodies : m.compileBodies m.importedFuncs m.codes = .ok program.bodies.toList := hbodies
  unfold ofModule
  rw [Module.validate_of_prepared hmemories htables hvalid, hbodies]
  cases m.checkStart with
  | error e => rfl
  | ok u =>
    change Except.ok _ = Except.ok _
    rw [himported, hsignatures, Array.toArray_toList]
    rfl

namespace Policy

/-- **Accepted programs compile**, unless the start function takes or returns something. -/
theorem accept_compile {p : Policy} {bytes : List UInt8} {e : CatalogEntry}
    (h : p.accept bytes = .ok e) :
    ((∃ program, Program.compile bytes = .ok program) ∧
        ∀ func, e.start = some func →
          e.program.funcType? func = some { params := [], results := [] }) ∨
      ∃ func type, e.start = some func ∧ e.program.funcType? func = some type ∧
        type ≠ { params := [], results := [] } ∧
          Program.compile bytes = .error (.validation (.startSignature type)) := by
  obtain ⟨m, hparse, -, hstart, hprogram, hmemories, htables⟩ := accept_eq_ok h
  have hcompile : Program.compile bytes
      = (m.checkStart.mapError .validation).map fun _ => { e.program with source := m } := by
    unfold Program.compile
    rw [hparse]
    exact Program.ofModule_of_prepared hmemories htables hprogram
  rw [hcompile, hstart]
  cases hfunc : m.start with
  | none =>
    have hcheck : m.checkStart = .ok () := by
      unfold Module.checkStart
      rw [hfunc]
    rw [hcheck]
    exact .inl ⟨⟨_, rfl⟩, fun func hfunc => by cases hfunc⟩
  | some func =>
    obtain ⟨hvalid, -⟩ := Program.ofModule_eq_ok hprogram
    obtain ⟨type, htype⟩ := Module.funcType?_of_prepared hvalid hfunc
    have htype' : e.program.funcType? func = some type := by
      rw [Program.funcType?_eq hprogram,
        (m.sameSpaces_prepared p.memoryBound p.tableBound p.startName).funcType?, htype]
    have hcheck : m.checkStart
        = Check.require (type.params = [] ∧ type.results = []) (.startSignature type) := by
      unfold Module.checkStart
      rw [hfunc]
      dsimp only
      rw [htype]
    rw [hcheck]
    by_cases hnullary : type.params = [] ∧ type.results = []
    · obtain ⟨params, results⟩ := type
      obtain ⟨rfl, rfl⟩ := hnullary
      refine .inl ⟨⟨_, rfl⟩, fun func' hfunc' => ?_⟩
      cases hfunc'
      exact htype'
    · refine .inr ⟨func, type, rfl, htype', fun heq => hnullary ?_, ?_⟩
      · rw [heq]
        exact ⟨rfl, rfl⟩
      · unfold Check.require
        rw [decide_eq_false hnullary]
        rfl

end Policy

/-! ### Catalogs -/

namespace Catalog

theorem insert_of_accept {c : Catalog} {bytes : List UInt8} {e : CatalogEntry}
    (hnew : c.get? (.of bytes) = none) (haccept : c.policy.accept bytes = .ok e) :
    insert bytes c = .ok (.of bytes) { c with entries := c.entries ++ [e] } := by
  unfold insert
  rw [hnew]
  dsimp only
  rw [haccept]

theorem insert_of_refuse {c : Catalog} {bytes : List UInt8} {e : AdmissionError}
    (hnew : c.get? (.of bytes) = none) (hrefuse : c.policy.accept bytes = .error e) :
    insert bytes c = .error e c := by
  unfold insert
  rw [hnew]
  dsimp only
  rw [hrefuse]

/-- **Admission against compilation.** When a program is newly admitted, compiling its bytes
succeeds and its start function, if it has one, takes and returns nothing; or the start function
takes or returns something, and compiling the bytes fails for just this reason, which admission
does not see. -/
theorem insert_compile {c c' : Catalog} {bytes : List UInt8} {d : Digest}
    (hnew : c.get? (.of bytes) = none) (h : insert bytes c = .ok d c') :
    ∃ e, c'.get? (.of bytes) = some e ∧
      (((∃ program, Program.compile bytes = .ok program) ∧
          ∀ func, e.start = some func →
            e.program.funcType? func = some { params := [], results := [] }) ∨
        ∃ func type, e.start = some func ∧ e.program.funcType? func = some type ∧
          type ≠ { params := [], results := [] } ∧
            Program.compile bytes = .error (.validation (.startSignature type))) := by
  cases haccept : c.policy.accept bytes with
  | error e =>
    rw [insert_of_refuse hnew haccept] at h
    cases h
  | ok e =>
    rw [insert_of_accept hnew haccept] at h
    cases h
    obtain ⟨-, -, hdigest, -⟩ := Policy.accept_eq_ok haccept
    refine ⟨e, ?_, Policy.accept_compile haccept⟩
    unfold get? at hnew ⊢
    rw [List.find?_append, hnew, Option.none_or, List.find?_cons, decide_eq_true hdigest]

/-- A module whose start function takes an argument. -/
def demandingBytes : List UInt8 :=
  [0x00, 0x61, 0x73, 0x6d, 0x01, 0x00, 0x00, 0x00, 0x01, 0x05, 0x01, 0x60, 0x01, 0x7f, 0x00, 0x03,
    0x02, 0x01, 0x00, 0x08, 0x01, 0x00, 0x0a, 0x04, 0x01, 0x02, 0x00, 0x0b]

/-- The module that they spell. -/
def demandingModule : Module where
  types := [{ params := [.i32], results := [] }]
  funcs := [0]
  start := some 0
  codes := [{ locals := [], body := [0x0b] }]

/-- The catalog entry that the default policy makes of it. -/
def demandingEntry : CatalogEntry where
  digest := .of demandingBytes
  program :=
    { source := demandingModule.prepared 128 4096 "guest_start"
      signatures := #[some { params := [.i32], results := [] }]
      imported := 0
      bodies := #[{ locals := #[], code := #[.endMark] }] }
  points := []
  start := some 0

private theorem parse_demandingBytes : Module.parse demandingBytes = .ok demandingModule := by
  have hsections : RawSection.all ⟨8, demandingBytes.drop 8⟩ = (
      [{ id := .types, payloadOffset := 10, payload := [0x01, 0x60, 0x01, 0x7f, 0x00] },
        { id := .functions, payloadOffset := 17, payload := [0x01, 0x00] },
        { id := .start, payloadOffset := 21, payload := [0x00] },
        { id := .code, payloadOffset := 24, payload := [0x01, 0x02, 0x00, 0x0b] }],
      none) := by cbv
  exact Module.parse_of_sections rfl hsections rfl rfl

/-- The default policy accepts the module. -/
theorem accept_demandingBytes :
    Policy.accept {} demandingBytes = .ok demandingEntry := by
  have hadjusted : Policy.adjusted {} demandingBytes
      = .ok (demandingModule.prepared 128 4096 "guest_start") := by
    unfold Policy.adjusted
    rw [parse_demandingBytes]
    rfl
  have hvalid : (demandingModule.prepared 128 4096 "guest_start").validate = .ok () := rfl
  have hbodies : (demandingModule.prepared 128 4096 "guest_start").compileBodies 0
      demandingModule.codes = .ok [{ locals := #[], code := #[.endMark] }] := by cbv
  have hprogram : Program.ofModule (demandingModule.prepared 128 4096 "guest_start")
      = .ok demandingEntry.program := Program.ofModule_of_bodies hvalid hbodies
  have hpoints : demandingEntry.program.entryPoints (Policy.entryMark {}) = .ok [] := rfl
  have hstart : demandingEntry.program.exportedFunc? (Policy.startName {}) = some 0 := rfl
  unfold Policy.accept
  rw [hadjusted]
  dsimp only [Bind.bind, Except.bind]
  rw [hprogram]
  dsimp only [Except.mapError]
  rw [hpoints]
  dsimp only
  rw [hstart]
  rfl

private theorem insert_demandingBytes :
    insert demandingBytes { policy := {} }
      = .ok (.of demandingBytes) { policy := {}, entries := [demandingEntry] } :=
  insert_of_accept rfl accept_demandingBytes

private theorem compile_demandingBytes : Program.compile demandingBytes
    = .error (.validation (.startSignature { params := [.i32], results := [] })) := by
  unfold Program.compile
  rw [parse_demandingBytes]
  rfl

/-- A newly admitted program whose start function takes an argument and whose bytes do not
compile. -/
theorem demanding_admitted :
    ∃ c' e, insert demandingBytes { policy := {} } = .ok (.of demandingBytes) c' ∧
      c'.get? (.of demandingBytes) = some e ∧ e.start = some 0 ∧
      e.program.funcType? 0 = some { params := [.i32], results := [] } ∧
      ¬ ∃ program, Program.compile demandingBytes = .ok program := by
  refine ⟨_, demandingEntry, insert_demandingBytes, ?_, rfl, rfl, ?_⟩
  · have hdigest : demandingEntry.digest = .of demandingBytes := rfl
    unfold get?
    rw [List.find?_cons, decide_eq_true hdigest]
  · rintro ⟨program, hprogram⟩
    rw [compile_demandingBytes] at hprogram
    cases hprogram

/-- The program is refused by compilation for its start function. -/
theorem demanding_insert_compile :
    let c : Catalog := { policy := {} }
    c.get? (.of demandingBytes) = none ∧
      ∃ c', insert demandingBytes c = .ok (.of demandingBytes) c' ∧
        ∃ e, c'.get? (.of demandingBytes) = some e ∧
          ∃ func type, e.start = some func ∧ e.program.funcType? func = some type ∧
            type ≠ { params := [], results := [] } ∧
              Program.compile demandingBytes = .error (.validation (.startSignature type)) := by
  obtain ⟨e, he, hcases⟩ := insert_compile (by rfl) insert_demandingBytes
  refine ⟨rfl, _, insert_demandingBytes, e, he, ?_⟩
  rcases hcases with ⟨⟨program, hprogram⟩, -⟩ | hrefused
  · rw [compile_demandingBytes] at hprogram
    cases hprogram
  · exact hrefused

end Catalog

end MeteredSandbox
