import MeteredSandbox.Proofs.Agreement
import MeteredSandbox.Proofs.Linked

/-!
# Consistency of linked instances

The machine trusts no code, and has a trap for every way in which program, instance and machine
might not fit together. On an instance that went through parsing, adjustments, compilation and
instantiation it never raises any of these, whatever code it runs and however it is called
(`Instance.invoke_trap`).

What the stages guarantee makes the setting of a call safe (`Instance.Linked.safe`): all that the
structured evaluation of a call may stop for is an ordinary trap, an answer of a host function or of
the checkpoint, or the trap of an illegal opcode that is there in a body. That a call does not find
a value of another type than its function has is not a matter of the setting. It holds because every
return checks the value that it hands over (`Machine.Yields`).

A call may change the store of an instance, also when it traps, and what the next call needs of the
store is what endures (`Store.Fits`), so the same is true after any number of calls
(`Instance.Linked.reaches`).
-/

namespace MeteredSandbox

variable {σ α : Type}

/-! ### Stops that are in order -/

/-- The trap is one that a host function or the checkpoint answers. -/
def Trap.AnsweredBy (host : Array HostFunc) (c : Checkpoint σ) (t : Trap) : Prop :=
  (∃ f ∈ host, ∃ args, f args = .trap t) ∨ (∃ cost a a', c.charge cost a = .error t a') ∨
    ∃ a a', c.enterFrame a = .error t a'

/-- Some body has the illegal opcode among its instructions. -/
def Program.HasIllegal (p : Program) (opcode : UInt8) : Prop :=
  ∃ body ∈ p.bodies, Instr.op (.illegal opcode) ∈ body.code

namespace Setting

/-- A stop is **in order** if it is not a trap, or a trap that is ordinary, or answered from
outside, or raised by an illegal opcode that is there. -/
def InOrder (s : Setting σ) (e : Stop) : Prop :=
  ∀ t, e = .trap t → t.IsOrdinary ∨ t.AnsweredBy s.host s.checkpoint ∨
    ∃ opcode, t = .illegalOpcode opcode ∧ s.program.HasIllegal opcode

variable {s : Setting σ}

theorem inOrder_of_answered {t : Trap} (h : t.AnsweredBy s.host s.checkpoint) :
    s.InOrder (.trap t) := by
  intro t' heq
  cases heq
  exact .inr (.inl h)

/-- An internal trap that is in order was answered from outside. -/
theorem InOrder.of_internal {t : Trap} (h : s.InOrder (.trap t)) (ht : t.isInternal = true) :
    t.AnsweredBy s.host s.checkpoint := by
  rcases h t rfl with hordinary | hanswered | ⟨opcode, rfl, -⟩
  · rw [hordinary.isInternal_eq_false] at ht
    cases ht
  · exact hanswered
  · cases ht

/-- The trap of an illegal opcode is answered from outside or the opcode is there. -/
theorem InOrder.of_illegal {opcode : UInt8} (h : s.InOrder (.trap (.illegalOpcode opcode))) :
    Trap.AnsweredBy s.host s.checkpoint (.illegalOpcode opcode) ∨ s.program.HasIllegal opcode := by
  rcases h _ rfl with hordinary | hanswered | ⟨opcode', heq, hhas⟩
  · exact hordinary.elim
  · exact .inl hanswered
  · cases heq
    exact .inr hhas

end Setting

/-! ### Results of calls -/

namespace Machine

open Exec

/-- If there is a result type, a value of that type lies on top of the operands. -/
def Yields (result : Option ValType) (m : Machine σ) : Prop :=
  ∀ type, result = some type → ∃ v vs, m.operands.items = v :: vs ∧ v.type = type

theorem yields_none (m : Machine σ) : m.Yields none := fun _ h => nomatch h

theorem push_yields (v : Value) :
    Leads (fun _ => True) (fun _ => True) (push v : Exec σ Unit) fun _ => Yields (some v.type) := by
  intro m _
  change Yields (some v.type) { m with operands := m.operands.push v }
  intro type htype
  refine ⟨v, m.operands.items, Stack.items_push .., ?_⟩
  cases htype
  rfl

/-- A function hands over a value of its result type. -/
theorem handOver_yields (f : Frame) :
    Leads (fun _ => True) (fun _ => True) (handOver f : Exec σ Unit) fun _ => Yields f.result := by
  unfold handOver
  cases f.result with
  | none => exact fun m _ => yields_none _
  | some expected =>
    refine (Leads.anywhere (pop f.base)).bind fun v =>
      .ite (fun htype => ?_) fun _ => .throw trivial
    rw [← htype]
    exact (Leads.anywhere (truncate f.base)).bind fun _ => push_yields v

variable {s : Setting σ} {f : Frame} {fs : List Frame}

/-- A host function answers with a value of its result type. -/
theorem callHost_yields (func : Nat) (type : FuncType) :
    Leads (fun _ => True) (fun _ => True) (callHost s func type) fun _ =>
      Yields type.results.head? := by
  unfold callHost
  cases s.host[func]? with
  | none => exact .throw trivial
  | some host =>
    refine .get_bind fun m _ => (Leads.anywhere _).bind fun args => ?_
    cases host args with
    | trap t => exact .throw trivial
    | panic p => exact .throw trivial
    | value result =>
      -- a value of another type is a trap
      refine .ite (fun hresult => ?_) fun _ => .throw trivial
      rw [← hresult]
      cases result with
      | none => exact .pure fun m _ => yields_none m
      | some v => exact push_yields v

theorem conclude_yields (turns : Nat) (exit : Exit) :
    Leads (Inside f fs fun _ => True) (fun _ => True) (conclude s turns exit) fun _ =>
      Yields f.result := by
  have hreturn : Leads (Inside f fs fun _ => True) (fun _ => True) (returnFromFrame s) fun _ =>
      Yields f.result := by
    intro m hm
    obtain ⟨locals, hitems⟩ := hm.frames
    rw [returnFromFrame_of_cons s hitems]
    exact handOver_yields { f with locals } _ trivial
  cases exit with
  | done =>
    exact (spend_leads s.safe_true _ turns).bind fun _ => hreturn.bind fun _ => .pure fun _ h => h
  | ret => exact hreturn.bind fun _ => .pure fun _ h => h
  | leave depth =>
    cases depth with
    | zero => exact hreturn.bind fun _ => .pure fun _ h => h
    | succ depth => exact .throw trivial

theorem activation_yields (turns : Nat) (tree : Seq) :
    Leads (Inside f fs fun _ => True) (fun _ => True) (activation s (evaluate s turns tree))
      fun _ => Yields f.result :=
  (evaluate_inside turns tree).bind fun r => (conclude_yields r.2 r.1).bind fun _ =>
    .pure fun _ h => h

/-- A call of a host function yields at once what a call of another function will yield at its
end. -/
theorem enter_yields {func : Nat} {type : FuncType}
    (htype : s.program.funcType? func = some type) :
    Leads (fun _ => True) (fun _ => True) (enter s func) fun
      | none, m => m.Yields type.results.head?
      | some _, m => ∃ g, m.frames.top? = some g ∧ g.result = type.results.head? := by
  unfold enter
  rw [htype]
  refine .ite (fun _ => (callHost_yields func type).bind fun _ => .pure fun _ h => h) fun _ => ?_
  cases s.program.body? func with
  | none => exact .throw trivial
  | some body =>
    cases s.program.tree? func with
    | none => exact .throw trivial
    | some tree =>
      dsimp only
      rw [callGuest_eq, bind_assoc]
      refine (Leads.anywhere _).bind fun args => ?_
      exact fun m _ => ⟨newFrame func type body args m.operands.height, rfl, rfl⟩

variable {K : Store → Prop} {E : Stop → Prop} (hs : s.Safe K E)
include hs

/-- A value of the right type is taken for the result of the call. -/
theorem takeResult_leads (type : FuncType) :
    Leads (Yields type.results.head?) E (takeResult s type) fun _ _ => True := by
  unfold takeResult
  cases hresult : type.results.head? with
  | none => exact .pure fun _ _ => trivial
  | some expected =>
    intro m hm
    obtain ⟨v, vs, hitems, htype⟩ := hm expected rfl
    have hpop : m.operands.pop? = some (v, .ofItems vs) := Stack.pop?_eq_some_iff.mpr hitems
    by_cases hfloor : m.operands.height ≤ s.floor
    · -- the value is there, but may lie under the floor: that trap is ordinary
      have hstop : pop s.floor m = .error (.trap (.malformed .stackUnderflow)) m := by
        unfold pop onOperands Operands.pop
        rw [if_pos hfloor]
      dsimp only
      rw [bind_of_error hstop]
      exact hs.ordinary _ rfl
    · have htake : pop s.floor m = .ok v { m with operands := .ofItems vs } := by
        unfold pop onOperands Operands.pop
        rw [if_neg hfloor, hpop]
      dsimp only
      rw [bind_of_ok htake, if_pos htype]
      trivial

/-- A function that is there, called and evaluated, stops only for reasons in `E` and leaves a value
of its result type. That it stops for nothing else and that it leaves such a value are known apart:
the first from where the evaluation leads, the second from what a return hands over. -/
theorem evaluateFunc_leads {func : Nat} {type : FuncType}
    (htype : s.program.funcType? func = some type) (limit : Nat) :
    Leads (fun m => m.frames.items = [] ∧ K m.store) E (evaluateFunc s limit func) fun _ =>
      Yields type.results.head? := by
  have hcall : s.program.funcType? func = none → E (.trap (.malformed .callTargetOutOfRange)) := by
    intro hnone
    rw [htype] at hnone
    cases hnone
  intro m hm
  have hleads := enter_leads hs [] hcall m hm
  have hyields := enter_yields htype m trivial
  unfold evaluateFunc
  rw [bind_apply]
  cases hr : enter s func m with
  | error e m' =>
    rw [hr] at hleads
    exact hleads
  | ok r m' =>
    rw [hr] at hleads hyields
    cases r with
    | none => exact hyields
    | some tree =>
      obtain ⟨htree, g, -, -, -, hm'⟩ := hleads
      obtain ⟨g', htop, hresult⟩ := hyields
      -- the frame that has been opened returns what the function does
      obtain ⟨locals, htop'⟩ := hm'.top?
      rw [htop'] at htop
      cases htop
      have hevaluate := evaluate_leads hs limit tree (hs.ops func tree htree) g []
      have hstops := activation_leads hs hevaluate m' hm'
      have hactivation := activation_yields (s := s) limit tree m' ⟨hm'.frames, trivial⟩
      dsimp only
      rw [bind_apply]
      cases hu : activation s (evaluate s limit tree) m' with
      | error e m'' =>
        rw [hu] at hstops
        exact hstops
      | ok u m'' =>
        rw [hu] at hactivation
        rw [← hresult]
        exact hactivation

/-- **A call** in a safe setting, of a function that is there, stops only for reasons in `E`. -/
theorem evaluateCall_leads {func : Nat} (hfunc : (s.program.funcType? func).isSome) (limit : Nat)
    (args : List Value) :
    Leads (fun m => m.frames.items = [] ∧ K m.store) E (evaluateCall s limit func args)
      fun _ _ => True := by
  obtain ⟨type, htype⟩ := Option.isSome_iff_exists.mp hfunc
  have hfunc := evaluateFunc_leads hs htype limit
  unfold evaluateCall
  rw [htype]
  refine .ite (fun _ m hm => ?_) fun _ => .throw (hs.ordinary _ rfl)
  exact (hfunc.bind fun _ => takeResult_leads hs type) _ hm

end Machine

/-! ### Linked instances -/

namespace Instance

/-- The instance is **linked** as one of the module is: its program is the module's, with a body for
every function, and it has the host functions and the store that the module needs. -/
structure Linked (m : Module) (i : Instance) : Prop where
  compiled : Program.ofModule m = .ok i.program
  bodies : m.funcs.length = m.codes.length
  host : i.host.size = m.importedFuncs
  store : i.store.Fits m

/-- **The stages** make linked instances. -/
theorem linked_of_stages {bytes : List UInt8} {m m' : Module} {p : Program} {resolve : Resolver}
    {i : Instance} (hparsed : Module.parse bytes = .ok m) (hadjusted : m.Adjusted m')
    (hcompiled : Program.ofModule m' = .ok p) (hinstance : instantiate p resolve = .ok i) :
    i.Linked m' := by
  obtain ⟨hprogram, hhost, hstore⟩ := instantiate_eq_ok hinstance
  obtain ⟨-, hsource, -⟩ := Program.ofModule_eq_ok hcompiled
  rw [hsource] at hhost hstore
  exact ⟨hprogram ▸ hcompiled, hadjusted.length_funcs (Module.length_funcs_of_parse hparsed),
    hhost, hstore⟩

namespace Linked

variable {m : Module} {i : Instance} (h : i.Linked m)
include h

/-- An instruction of a body finds what it names. -/
theorem op_safe {s : Setting σ} (hprogram : s.program = i.program) {body : FuncBody}
    (hbody : body ∈ s.program.bodies) {o : Op} (hmem : Instr.op o ∈ body.code)
    (hchecked : m.checkOp o = .ok ()) : o.Safe s (Store.Fits m) s.InOrder where
  illegal opcode ho := by
    subst ho
    intro t heq
    cases heq
    exact .inr (.inr ⟨opcode, rfl, body, hbody, hmem⟩)
  memory hneeds store hstore hnone := by
    have hmemory : 0 < m.totalMemories := by
      cases o with
      | load | store | memorySize | memoryGrow =>
        exact of_decide_eq_true (Check.require_eq_ok_iff.mp hchecked)
      | _ => exact hneeds.elim
    have hsome := hstore.memory hmemory
    rw [hnone] at hsome
    cases hsome
  global index hindex store hstore hnone := by
    have hlt : index < m.totalGlobals := by
      cases o with
      | globalGet | globalSet =>
        cases hindex
        exact of_decide_eq_true (Check.require_eq_ok_iff.mp hchecked)
      | _ => cases hindex
    rw [← hstore.globals] at hlt
    rw [Array.getElem?_eq_getElem hlt] at hnone
    cases hnone
  call func ho hnone := by
    subst ho
    have hfunc : func < m.totalFuncs := of_decide_eq_true (Check.require_eq_ok_iff.mp hchecked)
    have hsome := Program.funcType_isSome h.compiled hfunc
    rw [← hprogram, hnone] at hsome
    cases hsome

/-- **The setting of a call** of a linked instance is safe. -/
theorem safe (c : Checkpoint σ) (pricing : Pricing) (floor : Nat) :
    (i.setting c pricing floor).Safe (Store.Fits m) (i.setting c pricing floor).InOrder where
  toEndures := Store.fits_endures m
  ordinary t ht t' heq := by
    cases heq
    exact .inl ht
  turnLimit _ := Stop.noConfusion
  charge cost a t a' ht := Setting.inOrder_of_answered (.inr (.inl ⟨cost, a, a', ht⟩))
  enterFrame a t a' ht := Setting.inOrder_of_answered (.inr (.inr ⟨a, a', ht⟩))
  hostTrap f hf args t ht := Setting.inOrder_of_answered (.inl ⟨f, hf, args, ht⟩)
  hostPanic _ _ _ _ _ _ := Stop.noConfusion
  -- imports come first, and each of them has been resolved
  host func type htype hfunc hnone := by
    obtain ⟨-, -, himported, -⟩ := Program.ofModule_eq_ok h.compiled
    have hlt : func < i.host.size := by
      rw [h.host, ← himported]
      exact hfunc
    change i.host[func]? = none at hnone
    rw [Array.getElem?_eq_getElem hlt] at hnone
    cases hnone
  body func type htype hfunc hnone := by
    have hlt := Program.lt_totalFuncs h.compiled htype
    obtain ⟨body, hbody⟩ := Program.body_isSome h.compiled h.bodies hlt hfunc
    obtain ⟨tree, htree, -⟩ := Program.tree_of_body h.compiled hbody
    change i.program.body? func = none ∨ i.program.tree? func = none at hnone
    rw [hbody, htree] at hnone
    rcases hnone with hnone | hnone
    · cases hnone
    · cases hnone
  -- what was checked is the flat code, and its instructions are those of the tree
  ops func tree htree := by
    obtain ⟨body, hbody⟩ := Program.body_of_tree h.compiled htree
    obtain ⟨tree', htree', hcode, -, hchecked⟩ := Program.tree_of_body h.compiled hbody
    change i.program.tree? func = some tree at htree
    rw [htree] at htree'
    cases htree'
    have hmem : body ∈ i.program.bodies := Program.mem_bodies hbody
    refine tree.all_of_layout 0 fun o ho => ?_
    have hcode' : Instr.op o ∈ body.code := by
      rw [hcode, Seq.code_eq]
      exact List.mem_toArray.mpr (List.mem_append_left _ ho)
    exact h.op_safe rfl hmem hcode' (hchecked o hcode')

/-- Calls leave a store that fits, however they end. -/
theorem invoke_fits (c : Checkpoint σ) (pricing : Pricing) (limit func : Nat) (args : List Value)
    (operands : OperandStack) (a : σ) :
    (i.invoke c pricing limit func args operands a).store.Fits m := by
  have hkeeps := Machine.run_preserves (E := fun _ => True) (Store.fits_endures m)
    (fun _ => trivial) (i.setting c pricing operands.height) (fun _ _ _ _ _ => trivial) trivial
    limit func args (Machine.start i.store operands a) h.store
  rw [Instance.invoke_eq, Machine.settle_store]
  cases hr : Machine.run (i.setting c pricing operands.height) limit func args
      (Machine.start i.store operands a) with
  | ok result m' =>
    rw [hr] at hkeeps
    exact hkeeps
  | error stop m' =>
    rw [hr] at hkeeps
    exact hkeeps.1

/-- **One call** of a function that is there stops in order. -/
theorem invoke_inOrder (c : Checkpoint σ) (pricing : Pricing) (limit : Nat) {func : Nat}
    (hfunc : func < m.totalFuncs) (args : List Value) (operands : OperandStack) (a : σ) {e : Stop}
    (he : (i.invoke c pricing limit func args operands a).outcome = .error e) :
    (i.setting c pricing operands.height).InOrder e := by
  -- the call stops as its structured evaluation does
  have hflat : Machine.Flat (i.setting c pricing operands.height) :=
    Setting.flat_of_compiled h.compiled
  have hleads := Machine.evaluateCall_leads (h.safe c pricing operands.height)
    (Program.funcType_isSome h.compiled hfunc) limit args (Machine.start i.store operands a)
    ⟨rfl, h.store⟩
  rw [Instance.invoke_eq, Machine.settle_alike (Machine.run_alike hflat limit func args rfl),
    Machine.settle_outcome] at he
  cases hr : Machine.evaluateCall (i.setting c pricing operands.height) limit func args
      (Machine.start i.store operands a) with
  | ok result m' =>
    rw [hr] at he
    cases he
  | error stop m' =>
    rw [hr] at he hleads
    cases he
    exact hleads

end Linked

/-! ### Sequences of calls -/

/-- The instances that calls may lead to: each call leaves its store to the next. -/
inductive Reaches (i : Instance) : Instance → Prop
  | refl : Reaches i i
  | invoke {j : Instance} {σ : Type} (h : Reaches i j) (c : Checkpoint σ) (pricing : Pricing)
      (limit func : Nat) (args : List Value) (operands : OperandStack) (a : σ) :
      Reaches i { j with store := (j.invoke c pricing limit func args operands a).store }

/-- Calls change nothing of an instance but its store. -/
theorem Reaches.eq_withStore {i j : Instance} (h : i.Reaches j) :
    j.program = i.program ∧ j.host = i.host := by
  induction h with
  | refl => exact ⟨rfl, rfl⟩
  | invoke _ _ _ _ _ _ _ _ ih => exact ih

theorem Linked.reaches {m : Module} {i j : Instance} (h : i.Linked m) (hreaches : i.Reaches j) :
    j.Linked m := by
  induction hreaches with
  | refl => exact h
  | invoke _ c pricing limit func args operands a ih =>
    exact ⟨ih.compiled, ih.bodies, ih.host, ih.invoke_fits c pricing limit func args operands a⟩

/-- **Consistency.** Let an instance be made of bytes that parse, after any adjustments, and be
called any number of times, in whatever ways. Then a call of a function that is there raises no
internal trap, unless a host function or the checkpoint answers with it; and it raises the trap of
an illegal opcode only if the opcode is in a body, or that trap is answered. -/
theorem invoke_trap {bytes : List UInt8} {m m' : Module} {p : Program} {resolve : Resolver}
    {i j : Instance} (hparsed : Module.parse bytes = .ok m) (hadjusted : m.Adjusted m')
    (hcompiled : Program.ofModule m' = .ok p) (hinstance : instantiate p resolve = .ok i)
    (hreaches : i.Reaches j) (c : Checkpoint σ) (pricing : Pricing) (limit : Nat) {func : Nat}
    (hfunc : func < m'.totalFuncs) (args : List Value) (operands : OperandStack) (a : σ) {t : Trap}
    (ht : (j.invoke c pricing limit func args operands a).outcome = .error (.trap t)) :
    (t.isInternal = true → t.AnsweredBy i.host c) ∧
      ∀ opcode, t = .illegalOpcode opcode → t.AnsweredBy i.host c ∨ p.HasIllegal opcode := by
  have hlinked := linked_of_stages hparsed hadjusted hcompiled hinstance
  have horder := (hlinked.reaches hreaches).invoke_inOrder c pricing limit hfunc args operands a ht
  obtain ⟨hprogram, hhost⟩ := hreaches.eq_withStore
  obtain ⟨hp, -⟩ := instantiate_eq_ok hinstance
  rw [← hhost, ← hp, ← hprogram]
  refine ⟨fun hinternal => horder.of_internal hinternal, fun opcode heq => ?_⟩
  subst heq
  exact horder.of_illegal

/-- The bytes of a module with a memory and a start function, whose body has an opcode that stands
for nothing. -/
def brokenBytes : List UInt8 :=
  [0x00, 0x61, 0x73, 0x6d, 0x01, 0x00, 0x00, 0x00, 0x01, 0x04, 0x01, 0x60, 0x00, 0x00, 0x03, 0x02,
    0x01, 0x00, 0x05, 0x03, 0x01, 0x00, 0x01, 0x08, 0x01, 0x00, 0x0a, 0x05, 0x01, 0x03, 0x00, 0x12,
    0x0b]

/-- The module that they spell, with a bound on its memory. -/
def brokenModule (max : Option Nat) : Module where
  types := [{ params := [], results := [] }]
  funcs := [0]
  memories := [{ min := 1, max }]
  start := some 0
  codes := [{ locals := [], body := [0x12, 0x0b] }]

/-- An instance of the module. -/
def broken : Instance where
  program :=
    { source := brokenModule (some 4)
      signatures := #[some { params := [], results := [] }]
      imported := 0
      bodies := #[{ locals := #[], code := #[.op (.illegal 0x12), .endMark] }] }
  host := #[]
  store :=
    { memory := some (.ofLimits { min := 1, max := some 4 }), table := none, globals := #[] }

private theorem parse_brokenBytes : Module.parse brokenBytes = .ok (brokenModule none) := by
  have hsections : RawSection.all ⟨8, brokenBytes.drop 8⟩ = (
      [{ id := .types, payloadOffset := 10, payload := [0x01, 0x60, 0x00, 0x00] },
        { id := .functions, payloadOffset := 16, payload := [0x01, 0x00] },
        { id := .memories, payloadOffset := 20, payload := [0x01, 0x00, 0x01] },
        { id := .start, payloadOffset := 25, payload := [0x00] },
        { id := .code, payloadOffset := 28, payload := [0x01, 0x03, 0x00, 0x12, 0x0b] }],
      none) := by cbv
  exact Module.parse_of_sections rfl hsections rfl rfl

private theorem ofModule_brokenModule :
    Program.ofModule (brokenModule (some 4)) = .ok broken.program := by
  have hvalid : (brokenModule (some 4)).validate = .ok () := rfl
  have hbodies : (brokenModule (some 4)).compileBodies 0 (brokenModule none).codes
      = .ok [{ locals := #[], code := #[.op (.illegal 0x12), .endMark] }] := by cbv
  exact Program.ofModule_of_bodies hvalid hbodies

/-- The opcode is reported in a second call as in the first, and it is there. -/
theorem broken_invoke_trap :
    let call := fun i : Instance =>
      i.invoke Budget.checkpoint {} 10 0 [] .empty { ink := 100, depth := 1 }
    let after := { broken with store := (call broken).store }
    Module.parse brokenBytes = .ok (brokenModule none) ∧
      (brokenModule none).Adjusted (brokenModule (some 4)) ∧
      Program.ofModule (brokenModule (some 4)) = .ok broken.program ∧
      instantiate broken.program Imports.standard.resolve = .ok broken ∧ broken.Reaches after ∧
      (call after).outcome = .error (.trap (.illegalOpcode 0x12)) ∧
      (Trap.AnsweredBy broken.host Budget.checkpoint (.illegalOpcode 0x12) ∨
        broken.program.HasIllegal 0x12) := by
  have hadjusted : (brokenModule none).Adjusted (brokenModule (some 4)) :=
    .limitMemory 4 .refl rfl
  have hinstance : instantiate broken.program Imports.standard.resolve = .ok broken := rfl
  have hreaches : broken.Reaches { broken with store := _ } :=
    .invoke .refl Budget.checkpoint {} 10 0 [] .empty { ink := 100, depth := 1 }
  have htrap := invoke_trap parse_brokenBytes hadjusted ofModule_brokenModule hinstance hreaches
    Budget.checkpoint {} 10 (show 0 < (brokenModule (some 4)).totalFuncs from Nat.zero_lt_one) []
    .empty { ink := 100, depth := 1 } (t := .illegalOpcode 0x12) rfl
  exact ⟨parse_brokenBytes, hadjusted, ofModule_brokenModule, hinstance, hreaches, rfl,
    htrap.2 0x12 rfl⟩

end Instance

end MeteredSandbox
