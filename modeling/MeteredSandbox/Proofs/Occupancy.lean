import Mathlib
import MeteredSandbox.Proofs.Budgets
import MeteredSandbox.Proofs.Entries
import MeteredSandbox.Proofs.Watching

/-!
# Open frames and live locals

How many frames may be open at once, and how many locals they may hold, is limited whatever the
checkpoint says. The machine counts the locals of the open frames as it opens and closes them, and
checks both limits before it asks for leave to open one more. At every moment of a run the count is
right and the limits are kept (`Machine.Capped`).

A pair of meters counts the open frames once more, downwards: what is open and what may still be
opened are together what the depth was set to (`Machine.DepthBalanced`). So no frame that is closed
is lost at the upper end of what a meter can count, and once all frames are closed the depth is back
to what it was. Only a panic leaves frames open, and only then is there anything to restore
(`Instance.occupancy`).

The first is stable, so it is a matter of single changes. The second relates the frames to the
account and is no more than firm.
-/

namespace MeteredSandbox

variable {σ : Type}

/-! ### The limits of the machine -/

/-- The numbers of locals that the open frames hold. -/
def Machine.occupied (m : Machine σ) : List Nat := m.frames.items.map fun f => f.locals.size

/-- The locals are counted, and neither they nor the frames are more than there may be. -/
structure Machine.Capped (m : Machine σ) : Prop where
  liveLocals_eq : m.liveLocals = m.occupied.sum
  liveLocals_le : m.liveLocals ≤ maxLiveLocals
  frames_le : m.frames.height ≤ maxFrames
  locals_le : ∀ size ∈ m.occupied, size ≤ maxLocals

namespace Machine

theorem length_occupied (m : Machine σ) : m.occupied.length = m.frames.height := by
  rw [occupied, List.length_map, m.frames.height_eq]

/-- Changes within the current frame that leave it as many locals as it had. -/
theorem occupied_modifyTop {m : Machine σ} {g : Frame → Frame}
    (hg : ∀ f, (g f).locals.size = f.locals.size) :
    occupied { m with frames := m.frames.modifyTop g } = m.occupied := by
  unfold occupied
  rw [Stack.items_modifyTop]
  cases m.frames.items with
  | nil => rfl
  | cons f fs => rw [List.modifyHead_cons, List.map_cons, List.map_cons, hg]

theorem occupied_openFrame (func : Nat) (type : FuncType) (body : FuncBody) (args : List Value)
    (m : Machine σ) : (openFrame func type body args m).occupied
      = (args.length + body.locals.size) :: m.occupied := by
  have hsize : (args.toArray ++ body.locals.map ValType.zero).size
      = args.length + body.locals.size := by
    rw [Array.size_append, List.size_toArray, Array.size_map]
  change (args.toArray ++ body.locals.map ValType.zero).size :: m.occupied = _
  rw [hsize]

theorem Capped.of_occupied {m m' : Machine σ} (hm : m.Capped) (h : m'.occupied = m.occupied)
    (hlive : m'.liveLocals = m.liveLocals) : m'.Capped where
  liveLocals_eq := by rw [h, hlive, hm.liveLocals_eq]
  liveLocals_le := hlive ▸ hm.liveLocals_le
  frames_le := by
    rw [← length_occupied, h, length_occupied]
    exact hm.frames_le
  locals_le := h ▸ hm.locals_le

/-- What a frame gives back when it is closed has been counted. -/
theorem Capped.size_le_liveLocals {m : Machine σ} (hm : m.Capped) {f : Frame}
    (hf : f ∈ m.frames.items) : f.locals.size ≤ m.liveLocals := by
  rw [hm.liveLocals_eq]
  exact List.single_le_sum (fun _ _ => Nat.zero_le _) _ (List.mem_map_of_mem hf)

/-- **No change upsets the count of locals or exceeds the limits.** -/
theorem capped_stable {module : Module} {s : Setting σ}
    (h : Program.ofModule module = .ok s.program) : Stable s Capped := by
  intro m m' hchange hm
  -- only calls and returns change what is held by frames
  cases hchange with
  | operands | account | write | grow | setGlobal => exact hm.of_occupied rfl rfl
  | setLocal => exact hm.of_occupied (occupied_modifyTop fun f => Array.size_setIfInBounds) rfl
  | move hg =>
    refine hm.of_occupied (occupied_modifyTop fun f => ?_) rfl
    obtain ⟨position, labels, hsame⟩ := hg f
    rw [hsame]
  | @enter func type body args htype hbody hargs hcaps =>
    -- the limits on frames and on all locals are looked at here, that on one frame in the module
    obtain ⟨hframes, hlocals⟩ := not_or.mp hcaps
    have hparams : args.length = type.params.length := by rw [← hargs, List.length_map]
    have hfew := Program.params_add_locals_le h htype hbody
    have hopened := occupied_openFrame func type body args m
    exact {
      liveLocals_eq := by
        rw [hopened, List.sum_cons, ← hm.liveLocals_eq, Nat.add_comm]
        rfl
      liveLocals_le := Nat.not_lt.mp hlocals
      frames_le := Nat.not_le.mp hframes
      locals_le := by
        rw [hopened]
        exact List.forall_mem_cons.mpr ⟨hparams ▸ hfew, hm.locals_le⟩ }
  | @leave f fs hitems =>
    -- the locals of the frame are part of the count, so the subtraction is exact
    have hoccupied : m.occupied = f.locals.size :: fs.map fun f => f.locals.size := by
      rw [occupied, hitems, List.map_cons]
    have hcount := hm.liveLocals_eq
    rw [hoccupied, List.sum_cons] at hcount
    have hlocals := hm.locals_le
    rw [hoccupied] at hlocals
    have hheight : fs.length ≤ m.frames.height := by
      rw [m.frames.height_eq, hitems]
      exact Nat.le_succ _
    exact {
      liveLocals_eq := Nat.sub_eq_of_eq_add (hcount.trans (Nat.add_comm _ _))
      liveLocals_le := (Nat.sub_le _ _).trans hm.liveLocals_le
      frames_le := hheight.trans hm.frames_le
      locals_le := (List.forall_mem_cons.mp hlocals).2 }

theorem capped_start (store : Store) (operands : OperandStack) (account : σ) :
    (start store operands account).Capped where
  liveLocals_eq := rfl
  liveLocals_le := Nat.zero_le _
  frames_le := Nat.zero_le _
  locals_le _ h := absurd h List.not_mem_nil

end Machine

/-! ### The depth of meters -/

namespace Meters

/-- A charge, granted or refused, is a matter of ink. -/
theorem depth_charge (cost : Nat) (m : Meters) : (leftState (charge cost m)).depth = m.depth := by
  unfold charge
  cases InkMeter.charge cost m.ink with
  | ok u ink => rfl
  | error t ink => rfl

theorem enterFrame_eq_ok {m m' : Meters} (h : enterFrame m = .ok () m') :
    0 < m.depth.remaining ∧ m' = m.withDepth (m.depth.remaining - 1) := by
  rcases Nat.eq_zero_or_pos m.depth.remaining with hzero | hpos
  · rw [enterFrame_of_zero hzero] at h
    cases h
  · rw [enterFrame_of_pos hpos] at h
    cases h
    exact ⟨hpos, rfl⟩

theorem enterFrame_eq_error {m m' : Meters} {t : Trap} (h : enterFrame m = .error t m') :
    m' = m := by
  rcases Nat.eq_zero_or_pos m.depth.remaining with hzero | hpos
  · rw [enterFrame_of_zero hzero] at h
    cases h
    rfl
  · rw [enterFrame_of_pos hpos] at h
    cases h

/-- Frames that are closed are counted, up to what a meter can count. -/
theorem leaveFrame_iterate {count : Nat} {m : Meters}
    (h : m.depth.remaining + count ≤ DepthMeter.maxRemaining) :
    leaveFrame^[count] m = m.withDepth (m.depth.remaining + count) := by
  induction count generalizing m with
  | zero => rfl
  | succ count ih =>
    have hone : m.leaveFrame = m.withDepth (m.depth.remaining + 1) :=
      leaveFrame_of_lt (by omega)
    rw [Function.iterate_succ_apply, hone, ih (by show m.depth.remaining + 1 + count ≤ _; omega)]
    show m.withDepth (m.depth.remaining + 1 + count) = _
    rw [Nat.add_assoc, Nat.add_comm 1 count]

end Meters

namespace Machine

/-- The frames that are open and those that may still be opened are together `depth`. -/
def DepthBalanced (depth : Nat) (m : Machine Meters) : Prop :=
  m.frames.height + m.account.depth.remaining = depth

/-- **No deed upsets the balance.** -/
theorem depthBalanced_firm {s : Setting Meters} (hs : s.checkpoint = Meters.checkpoint)
    {depth : Nat} (hdepth : depth ≤ DepthMeter.maxRemaining) : Firm s (DepthBalanced depth) := by
  intro m m' hdeed hm
  unfold DepthBalanced at hm ⊢
  -- what is refused leaves the depth alone, and what is granted moves one between the two parts
  cases hdeed with
  | quiet _ haccount hheight => rw [haccount, hheight, hm]
  | @charge cost _ hanswer | @refuseCharge cost _ _ hanswer =>
    have hsame := Meters.depth_charge cost m.account
    rw [hs] at hanswer
    rw [show Meters.charge cost m.account = _ from hanswer] at hsame
    exact hsame ▸ hm
  | refuseFrame hrefused =>
    rw [hs] at hrefused
    rw [Meters.enterFrame_eq_error hrefused]
    exact hm
  | enter _ _ _ _ hgranted =>
    rw [hs] at hgranted
    obtain ⟨hpos, rfl⟩ := Meters.enterFrame_eq_ok hgranted
    show m.frames.height + 1 + (m.account.depth.remaining - 1) = depth
    omega
  | @leave f fs hitems =>
    -- while a frame is open, less than `depth` remains, so the meter is not at its highest
    have hheight : m.frames.height = fs.length + 1 := by
      rw [m.frames.height_eq, hitems, List.length_cons]
    show fs.length + (s.checkpoint.leaveFrame m.account).depth.remaining = depth
    rw [hs, show Meters.checkpoint.leaveFrame m.account = _ from
      Meters.leaveFrame_of_lt (by omega)]
    show fs.length + (m.account.depth.remaining + 1) = depth
    omega

theorem depthBalanced_start (store : Store) (operands : OperandStack) (m : Meters) :
    DepthBalanced m.depth.remaining (start store operands m) :=
  Nat.zero_add _

/-- In balance no frame that is closed is lost to the meter. -/
theorem DepthBalanced.leaveFrame_iterate {depth count : Nat} {m : Machine Meters}
    (hdepth : depth ≤ DepthMeter.maxRemaining) (hm : DepthBalanced depth m)
    (hcount : count ≤ m.frames.height) :
    Meters.leaveFrame^[count] m.account
      = m.account.withDepth (m.account.depth.remaining + count) := by
  unfold DepthBalanced at hm
  exact Meters.leaveFrame_iterate (by omega)

/-- Unwinding closes all frames, and the depth is what it was. -/
theorem DepthBalanced.unwind {depth : Nat} (hdepth : depth ≤ DepthMeter.maxRemaining)
    {s : Setting Meters} (hs : s.checkpoint = Meters.checkpoint) {m : Machine Meters}
    (hm : DepthBalanced depth m) : (unwind s m).account.depth.remaining = depth := by
  have hclose : (Machine.unwind s m).account = Meters.leaveFrame^[m.frames.height] m.account := by
    show m.frames.items.foldl (fun a _ => s.checkpoint.leaveFrame a) m.account = _
    rw [hs, m.frames.height_eq]
    exact List.foldl_const _ _ _
  rw [hclose, hm.leaveFrame_iterate hdepth le_rfl]
  exact (Nat.add_comm _ _).trans hm

end Machine

/-! ### Instances -/

namespace Instance

/-- A call that is metered leaves the depth as it was, unless it panics. -/
theorem depth_of_invoke (i : Instance) (pricing : Pricing) (limit func : Nat) (args : List Value)
    (operands : OperandStack) {m : Meters} (hm : m.depth.remaining ≤ DepthMeter.maxRemaining)
    (houtcome : ∀ p, (i.invoke Meters.checkpoint pricing limit func args operands m).outcome
      ≠ .error (.panic p)) :
    (i.invoke Meters.checkpoint pricing limit func args operands m).account.depth.remaining
      = m.depth.remaining := by
  let s := i.setting Meters.checkpoint pricing operands.height
  have hfirm : Machine.Firm s (Machine.DepthBalanced m.depth.remaining) :=
    Machine.depthBalanced_firm rfl hm
  -- the run ends in balance, however it ends
  have hrun := Machine.run_keeps hfirm.indifferent (fun _ _ => trivial)
    (Machine.call_firm hfirm) (Machine.turn_firm hfirm) trivial limit func args
    (Machine.start i.store operands m) (Machine.depthBalanced_start i.store operands m)
  rw [invoke_eq] at houtcome ⊢
  rw [Machine.settle_outcome] at houtcome
  cases hr : Machine.run s limit func args (Machine.start i.store operands m) with
  | ok result m' =>
    rw [hr] at hrun
    exact Machine.DepthBalanced.unwind hm rfl hrun
  | error stop m' =>
    rw [hr] at hrun houtcome
    have hstop : ∀ p, stop ≠ .panic p := fun p hp => houtcome p (congrArg Except.error hp)
    rw [Machine.settle_of_error _ hstop]
    exact Machine.DepthBalanced.unwind hm rfl hrun.1

/-- **Frames and locals are limited at every moment**, whoever is asked for leave. If it is a pair
of meters, the frames that are open and those that may still be opened are always as many as at the
beginning; so every frame that is closed is counted, and there is nothing to restore in the end
unless a host function panicked. -/
theorem occupancy {bytes : List UInt8} {p : Program} (hcompile : Program.compile bytes = .ok p)
    {i : Instance} (hi : i.program = p) :
    (∀ c : Call, ∀ x ∈ i.watch c,
      x.Capped ∧ ∀ f ∈ x.frames.items, f.locals.size ≤ x.liveLocals) ∧
    ∀ (pricing : Pricing) (limit func : Nat) (args : List Value) (operands : OperandStack)
      (m : Meters), m.depth.remaining ≤ DepthMeter.maxRemaining →
      (∀ x ∈ Machine.watch (i.setting Meters.checkpoint pricing operands.height) limit func args
          (Machine.start i.store operands m),
        x.frames.height + x.account.depth.remaining = m.depth.remaining ∧
        ∀ count ≤ x.frames.height, Meters.leaveFrame^[count] x.account
          = x.account.withDepth (x.account.depth.remaining + count)) ∧
      let call := i.invoke Meters.checkpoint pricing limit func args operands m
      (∃ reason, call.outcome = .error (.panic reason) ∧
        ∃ f ∈ i.host, ∃ args, f args = .panic reason) ∨
      call.account.depth.restore m.depth.remaining = call.account.depth := by
  obtain ⟨module, -, hmodule⟩ := exists_of_bind_eq_ok hcompile
  rw [← hi] at hmodule
  refine ⟨fun c x hx => ?_, fun pricing limit func args operands m hm => ⟨fun x hx => ?_, ?_⟩⟩
  · have hcapped : x.Capped := Machine.watch_forall
      (Machine.capped_stable (s := i.setting c.checkpoint c.pricing c.operands.height) hmodule)
      c.limit c.func c.args (Machine.capped_start i.store c.operands c.account) x hx
    exact ⟨hcapped, fun f hf => hcapped.size_le_liveLocals hf⟩
  · have hbalanced := Machine.watch_firm (Machine.depthBalanced_firm rfl hm) limit func args
      (Machine.depthBalanced_start i.store operands m) x hx
    exact ⟨hbalanced, fun count hcount => hbalanced.leaveFrame_iterate hm hcount⟩
  · intro call
    by_cases hpanic : ∃ reason, call.outcome = .error (.panic reason)
    · obtain ⟨reason, hreason⟩ := hpanic
      exact .inl ⟨reason, hreason, i.exists_host_of_panic _ _ _ _ _ hreason⟩
    · have hdepth : call.account.depth.remaining = m.depth.remaining :=
        i.depth_of_invoke pricing limit func args operands hm fun reason hreason =>
          hpanic ⟨reason, hreason⟩
      right
      unfold DepthMeter.restore
      rw [← hdepth]

/-- The bytes of a module with a function of three locals that does nothing but call itself. -/
def plungingBytes : List UInt8 :=
  [0x00, 0x61, 0x73, 0x6d, 0x01, 0x00, 0x00, 0x00, 0x01, 0x04, 0x01, 0x60, 0x00, 0x00, 0x03, 0x02,
    0x01, 0x00, 0x0a, 0x08, 0x01, 0x06, 0x01, 0x03, 0x7f, 0x10, 0x00, 0x0b]

/-- The module that they spell. -/
def plungingModule : Module where
  types := [{ params := [], results := [] }]
  funcs := [0]
  codes := [{ locals := [{ count := 3, type := .i32 }], body := [0x10, 0x00, 0x0b] }]

/-- An instance of the module. -/
def plunging : Instance where
  program :=
    { source := plungingModule
      signatures := #[some { params := [], results := [] }]
      imported := 0
      bodies := #[{ locals := #[.i32, .i32, .i32], code := #[.op (.call 0), .endMark] }] }
  host := #[]
  store := { memory := none, table := none, globals := #[] }

private theorem parse_plungingBytes : Module.parse plungingBytes = .ok plungingModule := by
  have hsections : RawSection.all ⟨8, plungingBytes.drop 8⟩ = (
      [{ id := .types, payloadOffset := 10, payload := [0x01, 0x60, 0x00, 0x00] },
        { id := .functions, payloadOffset := 16, payload := [0x01, 0x00] },
        { id := .code, payloadOffset := 20, payload := [0x01, 0x06, 0x01, 0x03, 0x7f, 0x10, 0x00,
            0x0b] }],
      none) := by cbv
  exact Module.parse_of_sections rfl hsections rfl rfl

private theorem compile_plungingBytes : Program.compile plungingBytes = .ok plunging.program := by
  have hvalid : plungingModule.validate = .ok () := rfl
  have hbodies : plungingModule.compileBodies 0 plungingModule.codes
      = .ok plunging.program.bodies.toList := by cbv
  exact Program.compile_of_bodies parse_plungingBytes hvalid hbodies

/-- Meters that let two frames be open at once. -/
def shallowMeters : Meters := .ofBudgets 1000 2

/-- What is left of a call of the function. -/
def plunged : Invocation Meters :=
  plunging.invoke Meters.checkpoint {} 10 0 [] .empty shallowMeters

/-- At depth two the third call is refused. Two frames of three locals are open then, and both are
closed again. -/
theorem plunging_occupancy :
    let c : Call := ⟨Meters, Meters.checkpoint, {}, 10, 0, [], .empty, shallowMeters⟩
    Program.compile plungingBytes = .ok plunging.program ∧
      shallowMeters.depth.remaining ≤ DepthMeter.maxRemaining ∧
      (plunging.watch c).map (fun x => (x.frames.height, x.liveLocals))
        = [(0, 0), (1, 3), (2, 6), (2, 6)] ∧
      (∀ x ∈ plunging.watch c, x.Capped ∧
        x.frames.height + x.account.depth.remaining = shallowMeters.depth.remaining) ∧
      plunged.outcome = .error (.trap .stackExhausted) ∧
      plunged.account.depth.restore shallowMeters.depth.remaining = plunged.account.depth := by
  intro c
  have hdepth : shallowMeters.depth.remaining ≤ DepthMeter.maxRemaining := by decide
  have hseen : (Machine.watch (plunging.setting Meters.checkpoint {} 0) 10 0 []
      (Machine.start plunging.store .empty shallowMeters)).map
        (fun x => (x.frames.height, x.liveLocals)) = [(0, 0), (1, 3), (2, 6), (2, 6)] := by cbv
  have houtcome : plunged.outcome = .error (.trap .stackExhausted) := by cbv
  obtain ⟨hcapped, hmetered⟩ := occupancy compile_plungingBytes (i := plunging) rfl
  obtain ⟨hbalanced, hrestored⟩ := hmetered {} 10 0 [] .empty shallowMeters hdepth
  refine ⟨compile_plungingBytes, hdepth, hseen,
    fun x hx => ⟨(hcapped c x hx).1, (hbalanced x hx).1⟩, houtcome, ?_⟩
  unfold plunged at houtcome ⊢
  rcases hrestored with ⟨reason, hreason, -⟩ | hrestored
  · cases houtcome.symm.trans hreason
  · exact hrestored

end Instance

end MeteredSandbox
