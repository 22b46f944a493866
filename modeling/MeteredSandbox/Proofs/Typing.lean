import Mathlib
import MeteredSandbox.Proofs.Admission
import MeteredSandbox.Proofs.Watching

/-!
# Typed instances

Function bodies are not checked for types before they run. All the same, what an instance holds is
typed at every moment: every global has a value of its declared type, every open frame has the
parameters and locals that its function declares, and a call that returns gives what the signature
of its function promises (`Instance.keeps_types`). Immutable globals keep their first values.

To begin with this is the work of validation, which types initializers without evaluating them
(`ConstExpr.eval_type`). Afterwards it is the work of the checks that the machine makes before it
opens a frame and before it sets a local or a global, which is to say that it is stable
(`Moment.typed_stable`).
-/

namespace MeteredSandbox

/-! ### Typed stores and frames -/

/-- The globals are those that the module declares, with values of their types. -/
structure Store.Typed (m : Module) (store : Store) : Prop where
  types : ∀ k : Nat, (store.globals[k]?).map GlobalCell.type = (m.globals[k]?).map Global.type
  values : ∀ (k : Nat) cell, store.globals[k]? = some cell → cell.value.type = cell.type.type

/-- The types of the parameters and the declared locals of a function of the module's own. -/
def Module.localTypes? (m : Module) (func : Nat) : Option (List ValType) :=
  if func < m.importedFuncs then none
  else do
    let type ← m.funcType? func
    let entry ← m.codes[func - m.importedFuncs]?
    return type.params ++ LocalRun.expand entry.locals

/-- **A typed moment.** The globals have values of their types, and so have the locals of all
frames. -/
structure Moment.Typed (m : Module) (x : Moment) : Prop where
  store : x.store.Typed m
  frames : ∀ f ∈ x.frames, m.localTypes? f.func = some (f.locals.toList.map Value.type)

/-- The immutable globals of one store are in the other as they are. -/
def Store.KeepsConstants (store store' : Store) : Prop :=
  ∀ (k : Nat) cell, store.globals[k]? = some cell → cell.type.mutable = false →
    store'.globals[k]? = some cell

/-! ### Frames -/

theorem Module.compileBody_locals {m : Module} {func : Nat} {entry : CodeEntry} {body : FuncBody}
    (h : m.compileBody func entry = .ok body) :
    body.locals.toList = LocalRun.expand entry.locals := by
  unfold compileBody at h
  dsimp only at h
  split at h
  next => cases h
  next =>
    obtain ⟨code, -, h⟩ := exists_of_bind_eq_ok h
    obtain ⟨u, -, h⟩ := exists_of_bind_eq_ok h
    cases h
    rfl

/-- The locals of a body are those that its function declares. -/
theorem Program.localTypes?_of_body {m : Module} {p : Program} (h : ofModule m = .ok p) {func : Nat}
    {type : FuncType} {body : FuncBody} (htype : p.funcType? func = some type)
    (hbody : p.body? func = some body) :
    m.localTypes? func = some (type.params ++ body.locals.toList) := by
  obtain ⟨-, -, himported, -⟩ := ofModule_eq_ok h
  obtain ⟨hfunc, entry, hentry, hcompile⟩ := compileBody_of_body h hbody
  rw [funcType?_eq h] at htype
  rw [himported] at hfunc hentry
  unfold Module.localTypes?
  rw [if_neg hfunc, htype, hentry, Module.compileBody_locals hcompile]
  rfl

/-- A fresh frame has its arguments in front and zeros behind them. -/
theorem Machine.newFrame_locals (func : Nat) {type : FuncType} (body : FuncBody) {args : List Value}
    (hargs : args.map Value.type = type.params) (height : Nat) :
    (newFrame func type body args height).locals.toList.map Value.type
      = type.params ++ body.locals.toList := by
  have hzero : Value.type ∘ ValType.zero = id := funext Value.type_zero
  change (args.toArray ++ body.locals.map ValType.zero).toList.map Value.type = _
  rw [Array.toList_append, List.map_append, Array.toList_map, List.map_map, hzero, List.map_id,
    hargs]

/-- Setting a local to a value of its type leaves the types as they are. -/
theorem Frame.types_setLocal {f : Frame} {index : Nat} {v old : Value}
    (hold : f.locals[index]? = some old) (htype : old.type = v.type) :
    (f.locals.setIfInBounds index v).toList.map Value.type = f.locals.toList.map Value.type := by
  have hmap : (f.locals.toList.map Value.type)[index]? = some v.type := by
    rw [List.getElem?_map, Array.getElem?_toList, hold, Option.map_some, htype]
  obtain ⟨hlt, heq⟩ := List.getElem?_eq_some_iff.mp hmap
  rw [Array.toList_setIfInBounds, List.map_set, ← heq]
  exact List.set_getElem_self hlt

/-! ### What the machine keeps -/

section Stable

variable {σ : Type} {m : Module} {p : Program} (h : Program.ofModule m = .ok p) {s : Setting σ}

/-- A global that is set has its type and a value of it. -/
theorem GlobalCell.set_eq_ok {cell cell' : GlobalCell} {v : Value} (h : cell.set v = .ok cell') :
    cell.type.mutable = true ∧ cell'.type = cell.type ∧ cell'.value.type = cell'.type.type := by
  unfold set at h
  split at h
  next => cases h
  next hmutable =>
    split at h
    next => cases h
    next htype =>
      cases h
      refine ⟨?_, rfl, not_not.mp htype⟩
      cases hflag : cell.type.mutable with
      | true => rfl
      | false =>
        rw [hflag] at hmutable
        exact absurd rfl hmutable

theorem Store.Typed.setGlobal {store : Store} (hstore : store.Typed m) {index : Nat}
    {cell cell' : GlobalCell} {v : Value} (hcell : store.globals[index]? = some cell)
    (hset : cell.set v = .ok cell') :
    Store.Typed m { store with globals := store.globals.setIfInBounds index cell' } := by
  obtain ⟨-, htype, hvalue⟩ := GlobalCell.set_eq_ok hset
  obtain ⟨hlt, -⟩ := Array.getElem?_eq_some_iff.mp hcell
  constructor
  · intro k
    rw [← hstore.types k]
    by_cases heq : index = k
    · subst heq
      rw [Array.getElem?_setIfInBounds_self_of_lt hlt, hcell, Option.map_some, Option.map_some,
        htype]
    · rw [Array.getElem?_setIfInBounds_ne heq]
  · intro k cell'' hk
    by_cases heq : index = k
    · subst heq
      rw [Array.getElem?_setIfInBounds_self_of_lt hlt] at hk
      cases hk
      exact hvalue
    · rw [Array.getElem?_setIfInBounds_ne heq] at hk
      exact hstore.values k cell'' hk

include h

/-- **The checks of the machine are enough**: no change upsets the types. -/
theorem Moment.typed_stable (hs : s.program = p) :
    Machine.Stable s fun x => Moment.Typed m x.moment := by
  intro x x' hchange hx
  cases hchange with
  | operands | account => exact hx
  | write | grow => exact ⟨⟨hx.store.types, hx.store.values⟩, hx.frames⟩
  | setGlobal hcell hset => exact ⟨hx.store.setGlobal hcell hset, hx.frames⟩
  | setLocal htop hold htype =>
    obtain ⟨fs, hitems⟩ := List.head?_eq_some_iff.mp htop
    refine ⟨hx.store, ?_⟩
    change ∀ f ∈ (x.frames.modifyTop _).items, _
    rw [Stack.items_modifyTop]
    have hframes : ∀ f ∈ x.frames.items, _ := hx.frames
    rw [hitems] at hframes ⊢
    obtain ⟨hf, hfs⟩ := List.forall_mem_cons.mp hframes
    refine List.forall_mem_cons.mpr ⟨?_, hfs⟩
    rw [Frame.types_setLocal hold htype]
    exact hf
  | @move g hg =>
    refine ⟨hx.store, ?_⟩
    change ∀ f ∈ (x.frames.modifyTop _).items, _
    rw [Stack.items_modifyTop]
    have hframes : ∀ f ∈ x.frames.items, _ := hx.frames
    cases hitems : x.frames.items with
    | nil => exact fun f hf => absurd hf List.not_mem_nil
    | cons f fs =>
      rw [hitems] at hframes
      obtain ⟨hf, hfs⟩ := List.forall_mem_cons.mp hframes
      obtain ⟨position, labels, hsame⟩ := hg f
      refine List.forall_mem_cons.mpr ⟨?_, hfs⟩
      rw [hsame]
      exact hf
  | enter htype hbody hargs hcaps =>
    refine ⟨hx.store, List.forall_mem_cons.mpr ⟨?_, hx.frames⟩⟩
    rw [hs] at htype hbody
    rw [Machine.newFrame_locals _ _ hargs]
    exact Program.localTypes?_of_body h htype hbody
  | leave hitems =>
    have hframes : ∀ f ∈ x.frames.items, _ := hx.frames
    rw [hitems] at hframes
    exact ⟨hx.store, (List.forall_mem_cons.mp hframes).2⟩

end Stable

/-- An immutable global cannot be set, so whatever happens it stays. -/
theorem Store.keepsConstants_stable {σ : Type} {s : Setting σ} (store : Store) :
    Machine.Stable s fun x => store.KeepsConstants x.store := by
  intro x x' hchange hx
  cases hchange with
  | setGlobal hcell hset =>
    obtain ⟨hmutable, -⟩ := GlobalCell.set_eq_ok hset
    intro k constant hk hconstant
    have hkept := hx k constant hk hconstant
    rw [← hkept]
    refine Array.getElem?_setIfInBounds_ne ?_
    rintro rfl
    -- a global that was set is not a constant
    rw [hcell] at hkept
    cases hkept
    rw [hmutable] at hconstant
    cases hconstant
  | _ => exact hx

/-! ### Initial values -/

/-- **Initializers** have values of the types that validation finds for them, where the globals
that they may read are typed. -/
theorem ConstExpr.eval_type {types : List GlobalType} {visible : Nat} {expected : ValType}
    {e : ConstExpr} {cells : List GlobalCell} {v : Value}
    (hcheck : e.checkType types visible expected = .ok ())
    (htypes : ∀ k < visible, (cells[k]?).map GlobalCell.type = types[k]?)
    (hvalues : ∀ cell ∈ cells, cell.value.type = cell.type.type) (h : e.eval cells = some v) :
    v.type = expected := by
  unfold checkType at hcheck
  obtain ⟨found, hfound, hcheck⟩ := exists_of_bind_eq_ok hcheck
  obtain rfl : expected = found := of_decide_eq_true (Check.require_eq_ok_iff.mp hcheck)
  cases e with
  | const v' =>
    cases hfound
    cases h
    rfl
  | global k =>
    obtain ⟨cell, hcell, rfl⟩ := Option.map_eq_some_iff.mp h
    unfold type at hfound
    dsimp only at hfound
    by_cases hvisible : k < visible
    · rw [if_pos hvisible] at hfound
      have htype := htypes k hvisible
      rw [hcell, Option.map_some] at htype
      rw [← htype] at hfound
      dsimp only at hfound
      split at hfound
      next => cases hfound
      next =>
        cases hfound
        exact hvalues cell (List.mem_of_getElem? hcell)
    · rw [if_neg hvisible] at hfound
      cases hfound

namespace Module

/-- The globals that are initialized one after another have their types and values of them. The
list is taken apart at the place where initialization has got to. -/
theorem initGlobals_typed {types : List GlobalType} {done rest : List Global}
    {before after : List GlobalCell} (htypes : types = (done ++ rest).map Global.type)
    (hcheck : ∀ p ∈ rest.zipIdx done.length,
      p.1.init.checkType types p.2 p.1.type.type = .ok ())
    (hbefore : before.map GlobalCell.type = done.map Global.type)
    (hvalues : ∀ cell ∈ before, cell.value.type = cell.type.type)
    (h : initGlobals before rest = .ok after) :
    after.map GlobalCell.type = types ∧ ∀ cell ∈ after, cell.value.type = cell.type.type := by
  induction rest generalizing done before with
  | nil =>
    cases h
    rw [htypes, List.append_nil]
    exact ⟨hbefore, hvalues⟩
  | cons g rest ih =>
    rw [List.zipIdx_cons] at hcheck
    obtain ⟨hg, hrest⟩ := List.forall_mem_cons.mp hcheck
    rw [initGlobals] at h
    split at h
    next value heval =>
      have hvisible : ∀ k < done.length, (before[k]?).map GlobalCell.type = types[k]? := by
        intro k hk
        rw [← List.getElem?_map, hbefore, htypes, List.map_append,
          List.getElem?_append_left (by rwa [List.length_map])]
      have hvalue : value.type = g.type.type := ConstExpr.eval_type hg hvisible hvalues heval
      have htypes : types = (done ++ [g] ++ rest).map Global.type := by
        rw [htypes, List.append_assoc, List.singleton_append]
      refine ih htypes ?_ ?_ ?_ h
      · rw [List.length_append, List.length_singleton]
        exact hrest
      · rw [List.map_append, List.map_append, hbefore]
        rfl
      · exact List.forall_mem_append.mpr ⟨hvalues, List.forall_mem_singleton.mpr hvalue⟩
    next => cases h

end Module

/-- **A fresh instance** is typed. -/
theorem Store.typed_of_instantiate {m : Module} {p : Program} {resolve : Resolver} {i : Instance}
    (hp : Program.ofModule m = .ok p) (h : instantiate p resolve = .ok i) : i.store.Typed m := by
  obtain ⟨hvalid, hsource, -⟩ := Program.ofModule_eq_ok hp
  subst hsource
  obtain ⟨host, hhost, h⟩ := exists_of_bind_eq_ok h
  obtain ⟨cells, hcells, h⟩ := exists_of_bind_eq_ok h
  obtain ⟨table, -, h⟩ := exists_of_bind_eq_ok h
  obtain ⟨memory, -, h⟩ := exists_of_bind_eq_ok h
  cases h
  -- nothing but functions resolves, so all globals are the module's own
  have hfuncs : ∀ i ∈ p.source.imports, ∃ t, i.kind = .func t := fun i hi => by
    obtain ⟨f, hf⟩ := (mapM_eq_ok hhost).2 i hi
    exact Module.resolveImport_eq_ok hf
  have hnone : p.source.imported ImportKind.global? = [] :=
    Module.imported_of_funcs hfuncs fun _ => rfl
  have htypes : p.source.globalTypes = ([] ++ p.source.globals).map Global.type := by
    unfold Module.globalTypes
    rw [hnone, List.nil_append, List.nil_append]
  have hcheck := (Module.validate_eq_ok_iff.mp hvalid).2.2.2.1
  unfold Module.checkGlobals at hcheck
  rw [hnone] at hcheck
  simp only [List.length_nil, Nat.zero_add] at hcheck
  obtain ⟨hmap, hvalues⟩ := Module.initGlobals_typed htypes
    (fun pair hpair => Check.all_eq_ok_iff.mp hcheck pair hpair) rfl
    (fun cell hcell => absurd hcell List.not_mem_nil) hcells
  rw [htypes, List.nil_append] at hmap
  constructor
  · intro k
    have hk := congrArg (·[k]?) hmap
    simp only [List.getElem?_map] at hk
    change (cells.toArray[k]?).map GlobalCell.type = _
    rw [List.getElem?_toArray]
    exact hk
  · intro k cell hcell
    change cells.toArray[k]? = some cell at hcell
    rw [List.getElem?_toArray] at hcell
    exact hvalues cell (List.mem_of_getElem? hcell)

/-! ### Results -/

/-- A run that returns gives a value of the type that the signature promises, or none. -/
theorem Machine.run_type {σ : Type} {s : Setting σ} {limit func : Nat} {args : List Value}
    {m m' : Machine σ} {result : Option Value} (h : run s limit func args m = .ok result m') :
    ∃ type, s.program.funcType? func = some type ∧
      result.map Value.type = type.results.head? := by
  unfold run at h
  cases htype : s.program.funcType? func with
  | none =>
    rw [htype] at h
    cases h
  | some type =>
    rw [htype] at h
    have hresult : Leads (fun _ => True) (fun _ => True) (takeResult s type)
        fun result _ => result.map Value.type = type.results.head? := by
      unfold takeResult
      cases type.results.head? with
      | none => exact .pure fun _ _ => rfl
      | some expected =>
        exact (Leads.anywhere _).bind fun v => .ite (fun hv => .pure fun _ _ => congrArg some hv)
          fun _ => .throw trivial
    have hrun : Leads (fun _ => True) (fun _ => True)
        (if args.map Value.type = type.params then do
            modify fun m => { m with operands := m.operands.pushAll args }
            call s func
            takeTurns s limit
            takeResult s type
          else Exec.trap (.typeConflict .invocationArguments) : Exec σ (Option Value))
        fun result _ => result.map Value.type = type.results.head? :=
      .ite (fun _ => (Leads.anywhere _).bind fun _ => (Leads.anywhere _).bind fun _ =>
        (Leads.anywhere _).bind fun _ => hresult) fun _ => .throw trivial
    exact ⟨type, rfl, hrun.of_ok trivial h⟩

namespace Instance

/-- **The typing invariant.** Let an instance be made of bytes that compile, and be called any
number of times, in whatever ways. At every moment all globals have values of their declared types
and the immutable ones their first values, and every open frame has one value for each parameter and
each declared local of its function, in order and of the right type. And a call that returns, of
whichever function, gives a value exactly if the signature has a result, which is then its type. -/
theorem keeps_types {bytes : List UInt8} {p : Program} {resolve : Resolver} {i : Instance}
    (hcompiled : Program.compile bytes = .ok p) (hinstance : instantiate p resolve = .ok i)
    (calls : List Call) :
    (∀ x ∈ i.history calls, x.Typed p.source ∧ i.store.KeepsConstants x.store) ∧
      ∀ c result, ((i.afterAll calls).perform c).outcome = .ok result →
        ∃ type, p.funcType? c.func = some type ∧
          (result.map Value.type).toList = type.results := by
  obtain ⟨m, -, hp⟩ := exists_of_bind_eq_ok hcompiled
  obtain ⟨hvalid, rfl, -⟩ := Program.ofModule_eq_ok hp
  obtain ⟨hprogram, -⟩ := instantiate_eq_ok hinstance
  have htyped := Store.typed_of_instantiate hp hinstance
  refine ⟨fun x hx => ⟨?_, ?_⟩, ?_⟩
  · refine history_forall (fun s hs => Moment.typed_stable hp (hs.trans hprogram)) ?_
      ⟨htyped, fun f hf => absurd hf List.not_mem_nil⟩ calls x hx
    exact fun x hx => ⟨hx.store, fun f hf => absurd hf List.not_mem_nil⟩
  · exact history_forall (I := fun x => i.store.KeepsConstants x.store)
      (fun s _ => Store.keepsConstants_stable i.store) (fun _ hx => hx)
      (fun _ _ hcell _ => hcell) calls x hx
  · intro c result houtcome
    unfold perform at houtcome
    rw [invoke_eq, Machine.settle_outcome] at houtcome
    split at houtcome
    next hr =>
      cases houtcome
      obtain ⟨type, htype, hresult⟩ := Machine.run_type hr
      have htype : p.funcType? c.func = some type := by
        rw [← hprogram, ← i.afterAll_program calls]
        exact htype
      refine ⟨type, htype, ?_⟩
      rw [Program.funcType?_eq hp] at htype
      have hle := Module.length_results_le (Module.validate_eq_ok_iff.mp hvalid).1 htype
      rw [hresult]
      -- a list of at most one element is its head
      match type.results, hle with
      | [], _ => rfl
      | [_], _ => rfl
    next => cases houtcome

/-- The bytes of a module with a mutable global, a constant, and a function with one parameter and
one local that puts its argument into the global and returns it. -/
def tellingBytes : List UInt8 :=
  [0x00, 0x61, 0x73, 0x6d, 0x01, 0x00, 0x00, 0x00, 0x01, 0x06, 0x01, 0x60, 0x01, 0x7f, 0x01, 0x7f,
    0x03, 0x02, 0x01, 0x00, 0x06, 0x0b, 0x02, 0x7f, 0x01, 0x41, 0x01, 0x0b, 0x7e, 0x00, 0x42, 0x02,
    0x0b, 0x0a, 0x0c, 0x01, 0x0a, 0x01, 0x01, 0x7e, 0x20, 0x00, 0x24, 0x00, 0x20, 0x00, 0x0b]

/-- The module that they spell. -/
def tellingModule : Module where
  types := [{ params := [.i32], results := [.i32] }]
  funcs := [0]
  globals := [
    { type := { type := .i32, mutable := true }, init := .const (.i32 1) },
    { type := { type := .i64, mutable := false }, init := .const (.i64 2) }]
  codes := [{
    locals := [{ count := 1, type := .i64 }]
    body := [0x20, 0x00, 0x24, 0x00, 0x20, 0x00, 0x0b] }]

/-- An instance of the module. -/
def telling : Instance where
  program :=
    { source := tellingModule
      signatures := #[some { params := [.i32], results := [.i32] }]
      imported := 0
      bodies := #[{
        locals := #[.i64]
        code := #[.op (.localGet 0), .op (.globalSet 0), .op (.localGet 0), .endMark] }] }
  host := #[]
  store :=
    { memory := none
      table := none
      globals := #[
        { type := { type := .i32, mutable := true }, value := .i32 1 },
        { type := { type := .i64, mutable := false }, value := .i64 2 }] }

private theorem parse_tellingBytes : Module.parse tellingBytes = .ok tellingModule := by
  have hsections : RawSection.all ⟨8, tellingBytes.drop 8⟩ = (
      [{ id := .types, payloadOffset := 10, payload := [0x01, 0x60, 0x01, 0x7f, 0x01, 0x7f] },
        { id := .functions, payloadOffset := 18, payload := [0x01, 0x00] },
        { id := .globals, payloadOffset := 22, payload := [0x02, 0x7f, 0x01, 0x41, 0x01, 0x0b, 0x7e,
            0x00, 0x42, 0x02, 0x0b] },
        { id := .code, payloadOffset := 35, payload := [0x01, 0x0a, 0x01, 0x01, 0x7e, 0x20, 0x00,
            0x24, 0x00, 0x20, 0x00, 0x0b] }],
      none) := by cbv
  exact Module.parse_of_sections rfl hsections rfl rfl

private theorem compile_tellingBytes : Program.compile tellingBytes = .ok telling.program := by
  have hvalid : tellingModule.validate = .ok () := rfl
  have hbodies : tellingModule.compileBodies 0 tellingModule.codes
      = .ok telling.program.bodies.toList := by cbv
  exact Program.compile_of_bodies parse_tellingBytes hvalid hbodies

/-- A call that sets the global and returns its argument. -/
def tellingCall : Call where
  σ := Budget
  checkpoint := Budget.checkpoint
  pricing := {}
  limit := 10
  func := 0
  args := [.i32 7]
  operands := .empty
  account := { ink := 100, depth := 1 }

/-- The global is set in the first call. All that is seen of two calls is typed, and so is what the
second returns. -/
theorem telling_keeps_types :
    Program.compile tellingBytes = .ok telling.program ∧
      instantiate telling.program Imports.standard.resolve = .ok telling ∧
      (telling.after tellingCall).global? 0 = some (.i32 7) ∧
      (∀ x ∈ telling.history [tellingCall, tellingCall],
        x.Typed tellingModule ∧ telling.store.KeepsConstants x.store) ∧
      ((telling.afterAll [tellingCall]).perform tellingCall).outcome = .ok (some (.i32 7)) ∧
      ∃ type, telling.program.funcType? 0 = some type ∧ [ValType.i32] = type.results := by
  have hinstance : instantiate telling.program Imports.standard.resolve = .ok telling := rfl
  have houtcome : ((telling.afterAll [tellingCall]).perform tellingCall).outcome
      = .ok (some (.i32 7)) := by cbv
  obtain ⟨hhistory, -⟩ := keeps_types compile_tellingBytes hinstance [tellingCall, tellingCall]
  obtain ⟨-, hresult⟩ := keeps_types compile_tellingBytes hinstance [tellingCall]
  exact ⟨compile_tellingBytes, hinstance, by cbv, hhistory, houtcome,
    hresult tellingCall _ houtcome⟩

end Instance

end MeteredSandbox
