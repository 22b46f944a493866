import MeteredSandbox.Proofs.Bounding
import MeteredSandbox.Proofs.Linked

/-!
# Entry points of linked programs

What an embedder calls by a selector is always guest code. Admission accepts only exports that take
nothing as entry points (`Policy.takesNothing_of_accept`). Exports may name imported functions too,
but linking with the standard imports resolves none that takes nothing, so a program with such an
entry point is never linked. Compilation gives every other function a body, with an instruction in
it and with fewer locals than a call may open (`Program.exists_entry`).

Together these make a **guest entry** of every function that a selector leads to
(`Catalog.Filled.exists_entry`).
-/

namespace MeteredSandbox

/-! ### Imports -/

/-- What a list of steps has produced, one of them has. -/
theorem exists_of_mem_mapM {ε α β : Type} {f : α → Except ε β} {xs : List α} {ys : List β}
    (h : xs.mapM f = .ok ys) {y : β} (hy : y ∈ ys) : ∃ x ∈ xs, f x = .ok y := by
  induction xs generalizing ys with
  | nil =>
    cases h
    exact absurd hy List.not_mem_nil
  | cons x xs ih =>
    rw [List.mapM_cons] at h
    obtain ⟨y', hx, h⟩ := exists_of_bind_eq_ok h
    obtain ⟨ys', hxs, h⟩ := exists_of_bind_eq_ok h
    cases h
    rcases List.mem_cons.mp hy with rfl | hy
    · exact ⟨x, List.mem_cons_self, hx⟩
    · obtain ⟨x', hx', hy'⟩ := ih hxs hy
      exact ⟨x', List.mem_cons_of_mem x hx', hy'⟩

/-- An import that resolves is a function of a type that the module has, and the resolver knows it
by that type. -/
theorem Module.exists_type_of_resolveImport {m : Module} {resolve : Resolver} {i : Import}
    {f : HostFunc} (h : m.resolveImport resolve i = .ok f) :
    ∃ typeIndex type, i.kind = .func typeIndex ∧ m.types[typeIndex]? = some type ∧
      resolve i.source i.name type = some f := by
  unfold resolveImport at h
  split at h
  next typeIndex hkind =>
    split at h
    next f' hf =>
      cases h
      obtain ⟨type, htype, hresolve⟩ := Option.bind_eq_some_iff.mp hf
      exact ⟨typeIndex, type, hkind, htype, hresolve⟩
    next => cases h
  next => cases h

section Instantiation

variable {p : Program} {resolve : Resolver} {i : Instance} (h : instantiate p resolve = .ok i)
include h

/-- The host functions of an instance are those that the resolver knows. -/
theorem exists_resolve_of_mem_host {f : HostFunc} (hf : f ∈ i.host) :
    ∃ source name type, resolve source name type = some f := by
  obtain ⟨host, hhost, h⟩ := exists_of_bind_eq_ok h
  obtain ⟨globals, -, h⟩ := exists_of_bind_eq_ok h
  obtain ⟨table, -, h⟩ := exists_of_bind_eq_ok h
  obtain ⟨memory, -, h⟩ := exists_of_bind_eq_ok h
  cases h
  obtain ⟨im, -, him⟩ := exists_of_mem_mapM hhost (List.mem_toArray.mp hf)
  obtain ⟨-, type, -, -, hresolve⟩ := Module.exists_type_of_resolveImport him
  exact ⟨im.source, im.name, type, hresolve⟩

/-- The type of an imported function is one that the resolver knows it by. -/
theorem exists_resolve_of_imported {m : Module} (hprogram : Program.ofModule m = .ok p)
    {func : Nat} (hfunc : func < p.imported) {type : FuncType}
    (htype : p.funcType? func = some type) :
    ∃ source name f, resolve source name type = some f := by
  obtain ⟨-, hsource, himported, -⟩ := Program.ofModule_eq_ok hprogram
  obtain ⟨host, hhost, -⟩ := exists_of_bind_eq_ok h
  rw [hsource] at hhost
  rw [Program.funcType?_eq hprogram, Module.funcType?, Module.funcTypeIndex?] at htype
  obtain ⟨typeIndex, hindex, htype⟩ := Option.bind_eq_some_iff.mp htype
  -- imported functions come first, so the index is that of an import
  have hlt : func < (m.imported ImportKind.func?).length := by
    rw [himported] at hfunc
    exact hfunc
  rw [Module.funcTypeIndices, List.getElem?_append_left hlt] at hindex
  obtain ⟨im, hmem, hkind⟩ := List.mem_filterMap.mp (List.mem_of_getElem? hindex)
  obtain ⟨f, hf⟩ := (mapM_eq_ok hhost).2 im hmem
  obtain ⟨typeIndex', type', hkind', htype', hresolve⟩ := Module.exists_type_of_resolveImport hf
  rw [hkind'] at hkind
  cases hkind
  rw [htype'] at htype
  cases htype
  exact ⟨im.source, im.name, f, hresolve⟩

end Instantiation

/-- The standard imports know one function, by one type. -/
theorem Imports.eq_of_standard_resolve {source name : String} {type : FuncType} {f : HostFunc}
    (h : standard.resolve source name type = some f) :
    f = abort ∧ type = { params := [.i32], results := [] } := by
  unfold resolve at h
  split at h
  next d hd =>
    have hmem : d ∈ standard.definitions := List.mem_of_find?_eq_some hd
    rw [List.mem_singleton.mp hmem] at h
    split at h
    next htype =>
      cases h
      exact ⟨rfl, htype.symm⟩
    next => cases h
  next => cases h

/-- A guest that ends a call of its own accord does not run out of ink by that. -/
theorem Imports.abort_ne_inkExhausted (args : List Value) : abort args ≠ .trap .inkExhausted := by
  unfold abort
  split
  · exact fun h => Trap.noConfusion (HostReply.trap.inj h)
  · exact fun h => Trap.noConfusion (HostReply.trap.inj h)

/-! ### Bodies -/

namespace Module

variable {m : Module} {func : Nat} {entry : CodeEntry} {body : FuncBody}
  (h : m.compileBody func entry = .ok body)
include h

/-- A body that compiles has not too many locals, parameters included. -/
theorem locals_le_of_compileBody :
    ((m.funcType? func).map fun t => t.params.length).getD 0 + body.locals.size ≤ maxLocals := by
  unfold compileBody at h
  dsimp only at h
  split at h
  next => cases h
  next hfew =>
    obtain ⟨code, -, h⟩ := exists_of_bind_eq_ok h
    obtain ⟨u, -, h⟩ := exists_of_bind_eq_ok h
    cases h
    change _ + (LocalRun.expand entry.locals).toArray.size ≤ maxLocals
    rw [List.size_toArray, LocalRun.length_expand]
    exact Nat.not_lt.mp hfew

/-- A body that compiles ends with an instruction. -/
theorem size_code_of_compileBody : 0 < body.code.size := by
  obtain ⟨tree, -, hcode, -⟩ := compileBody_eq_ok h
  rw [hcode, List.size_toArray, Seq.code_eq, List.length_append]
  exact Nat.succ_pos _

end Module

namespace Program

/-- No function has more locals than it may. -/
theorem params_add_locals_le {m : Module} {p : Program} (h : ofModule m = .ok p) {func : Nat}
    {type : FuncType} {body : FuncBody} (htype : p.funcType? func = some type)
    (hbody : p.body? func = some body) : type.params.length + body.locals.size ≤ maxLocals := by
  obtain ⟨hown, entry, -, hcompile⟩ := compileBody_of_body h hbody
  have hle := Module.locals_le_of_compileBody hcompile
  rwa [← funcType?_eq h, htype] at hle

/-- **A guest entry**: a function of the program's own that takes nothing, with fewer locals than a
call may open and with an instruction to begin with. -/
structure Entry (p : Program) (func : Nat) (type : FuncType) (body : FuncBody) : Prop where
  signature : p.funcType? func = some type
  params : type.params = []
  own : ¬ func < p.imported
  compiled : p.body? func = some body
  locals : body.locals.size ≤ maxLocals
  code : 0 < body.code.size

/-- **A function that takes nothing and is not imported** is a guest entry. -/
theorem exists_entry {m : Module} {p : Program} (h : ofModule m = .ok p)
    (hm : m.funcs.length = m.codes.length) {func : Nat} {type : FuncType}
    (htype : p.funcType? func = some type) (hparams : type.params = [])
    (hown : ¬ func < p.imported) : ∃ body, p.Entry func type body := by
  obtain ⟨body, hbody⟩ := body_isSome h hm (lt_totalFuncs h htype) hown
  obtain ⟨-, entry, -, hcompile⟩ := compileBody_of_body h hbody
  exact ⟨body, htype, hparams, hown, hbody,
    (Nat.le_add_left _ _).trans (params_add_locals_le h htype hbody),
    Module.size_code_of_compileBody hcompile⟩

/-! ### Admission -/

/-- The function is there and takes nothing. -/
def TakesNothing (p : Program) (func : Nat) : Prop :=
  ∃ type, p.funcType? func = some type ∧ type.params = []

/-- Entry points take nothing. The induction is on the exports that are left. -/
theorem takesNothing_of_collect {p : Program} {mark : String} {exports : List Export}
    {found points : List EntryPoint} (h : p.collectEntryPoints mark found exports = .ok points)
    (hfound : ∀ point ∈ found, p.TakesNothing point.func) :
    ∀ point ∈ points, p.TakesNothing point.func := by
  induction exports generalizing found with
  | nil =>
    cases h
    exact hfound
  | cons e rest ih =>
    unfold collectEntryPoints at h
    split at h
    next func selector hkind hname =>
      split at h
      next => cases h
      next type htype =>
        split at h
        next => cases h
        next hsignature =>
          split at h
          next => cases h
          next =>
            have hparams : type.params = [] := not_not.mp (not_or.mp hsignature).1
            exact ih h (List.forall_mem_append.mpr
              ⟨hfound, List.forall_mem_singleton.mpr ⟨type, htype, hparams⟩⟩)
    next => exact ih h hfound

end Program

/-- What a selector leads to in an accepted program takes nothing. -/
theorem Policy.takesNothing_of_accept {p : Policy} {bytes : List UInt8} {e : CatalogEntry}
    (h : p.accept bytes = .ok e) {selector : Int} {func : Nat}
    (hfunc : e.entry? selector = some func) : e.program.TakesNothing func := by
  obtain ⟨m, -, h⟩ := exists_of_bind_eq_ok h
  obtain ⟨program, -, h⟩ := exists_of_bind_eq_ok h
  obtain ⟨points, hpoints, h⟩ := exists_of_bind_eq_ok h
  cases h
  have hall := Program.takesNothing_of_collect (eq_ok_of_mapError hpoints)
    fun point hpoint => absurd hpoint List.not_mem_nil
  obtain ⟨point, hpoint, rfl⟩ := Option.map_eq_some_iff.mp hfunc
  exact hall point (List.mem_of_find?_eq_some hpoint)

/-- **Every selector leads to a guest entry**, in a program of a catalog that can be linked with the
standard imports. -/
theorem Catalog.Filled.exists_entry {policy : Policy} {c : Catalog} (hc : c.Filled policy)
    {e : CatalogEntry} (he : e ∈ c.entries) {i : Instance}
    (hinstance : instantiate e.program Imports.standard.resolve = .ok i) {selector : Int}
    {func : Nat} (hfunc : e.entry? selector = some func) :
    ∃ type body, e.program.Entry func type body := by
  obtain ⟨bytes, haccept⟩ := hc.accepted.2 e he
  obtain ⟨type, htype, hparams⟩ := Policy.takesNothing_of_accept haccept hfunc
  obtain ⟨m, hparse, -, -, hprogram, -⟩ := Policy.accept_eq_ok haccept
  have hbodies : m.funcs.length = m.codes.length := Module.length_funcs_of_parse hparse
  have hown : ¬ func < e.program.imported := by
    intro himported
    obtain ⟨source, name, f, hresolve⟩ :=
      exists_resolve_of_imported hinstance hprogram himported htype
    -- what the standard imports know takes an argument
    rw [(Imports.eq_of_standard_resolve hresolve).2] at hparams
    cases hparams
  exact ⟨type, Program.exists_entry hprogram hbodies htype hparams hown⟩

end MeteredSandbox
