import MeteredSandbox.Proofs.Control
import MeteredSandbox.Proofs.Keeping

/-!
# Structured evaluation

The machine runs flat code: a construct is a label with a position to go on at, and a branch sets
the position. Here is what that code means, given by recursion on the sequences that it was made of.
Nothing in this evaluation has a position or a label. A construct is evaluated by evaluating the
sequences inside it, and a branch is a way for a sequence to end (`Exit`), which the construct
around it receives.

What an evaluation shares with the machine is what instructions without structure do, and the
operands, the store, the open functions and the checkpoint that they do it to. Every instruction
takes one turn, the marks at the ends of constructs and arms included, and is paid for when it is
taken (`Machine.spend`). All recursive calls come after a turn, so evaluation ends with the turns.
-/

namespace MeteredSandbox

variable {σ : Type}

/-- The body of a function as a sequence. -/
def Program.tree? (p : Program) (func : Nat) : Option Seq :=
  if func < p.imported then none
  else (p.source.codes[func - p.imported]?).bind fun entry => (Seq.decode entry.body).toOption

/-- How the evaluation of a sequence ends when it does not stop. -/
inductive Exit where
  /-- The sequence has been evaluated to its end. -/
  | done
  /-- A branch: `depth` constructs around the sequence are left, and the next one out is its
  target. -/
  | leave (depth : Nat)
  /-- The function returns. -/
  | ret

/-- What there is left of a number of turns. -/
abbrev Left (turns : Nat) := { left : Nat // left ≤ turns }

namespace Machine

open Exec

variable (s : Setting σ)

/-- Takes a turn: pays for an instruction. Gives the turns that are left. -/
def spend (cost : Nat) : (turns : Nat) → Exec σ { left : Nat // left < turns }
  | 0 => throw .turnLimit
  | left + 1 => do
    onAccount (s.checkpoint.charge cost)
    return ⟨left, Nat.lt_succ_self left⟩

/-- Takes values above a floor, the last of them from the top. -/
def popMany (floor : Nat) : Nat → Exec σ (List Value)
  | 0 => return []
  | count + 1 => do
    let v ← pop floor
    let vs ← popMany floor count
    return vs ++ [v]

/-- What a branch to a block or conditional does to the operands: the results are taken above the
height that the construct recorded, the operands are cut back to that height, and the results are
put back. -/
def keepResults (arity height : Nat) : Exec σ Unit := do
  let results ← popMany height arity
  truncate height
  modify fun m => { m with operands := m.operands.pushAll results }

/-- What comes of an instruction without structure. -/
inductive Effect where
  | next
  | leave (depth : Nat)
  | ret
  | call (func : Nat)

/-- Carries out an instruction without structure, short of the branch, return or call that it may
be. -/
def effect (o : Op) : Exec σ Effect := do
  let floor := Machine.floor s (← get)
  match o with
  | .br depth => return .leave depth
  | .brIf depth =>
    let condition ← popI32 floor
    return if condition ≠ 0 then .leave depth else .next
  | .brTable depths default =>
    let i ← popI32 floor
    return .leave (depths[i.toNat]?.getD default)
  | .ret => return .ret
  | .call func => return .call func
  | .callIndirect type =>
    let slot ← popI32 floor
    let func ← resolve s type slot.toNat
    return .call func
  | o =>
    stepOp s floor o
    return .next

/-- Calls a function, short of evaluating its body: a host function answers at once, and a function
of the program's own has its frame opened and its body given. -/
def enter (func : Nat) : Exec σ (Option Seq) :=
  match s.program.funcType? func with
  | none => trap (.malformed .callTargetOutOfRange)
  | some type =>
    if func < s.program.imported then do
      callHost s func type
      return none
    else
      match s.program.body? func, s.program.tree? func with
      | some body, some tree => do
        callGuest s func type body
        return some tree
      | _, _ => trap (.malformed .callTargetWithoutBody)

/-- The same evaluation with more turns to be left of. -/
def within {fewer turns : Nat} (h : fewer ≤ turns) (evaluation : Exec σ (Exit × Left fewer)) :
    Exec σ (Exit × Left turns) := do
  let (exit, left) ← evaluation
  return (exit, ⟨left, Nat.le_trans left.2 h⟩)

/-- One evaluation and then, if it comes to its end, another. -/
def sequel {turns : Nat} (first : Exec σ (Exit × Left turns))
    (next : (left : Left turns) → Exec σ (Exit × Left left)) : Exec σ (Exit × Left turns) := do
  let (exit, left) ← first
  match exit with
  | .done => within left.2 (next left)
  | exit => return (exit, left)

/-- The mark at the end of a first arm takes a turn if it is reached. -/
def passMark (turns : Nat) : Exit → Exec σ (Exit × Left turns)
  | .done => do
    let left ← spend s s.pricing.base turns
    return (.done, ⟨left, Nat.le_of_lt left.2⟩)
  | exit => return (exit, ⟨turns, Nat.le_refl turns⟩)

/-- Ends a block or conditional that recorded the given height and whose inside was left in the
given way. A branch to it ends here. -/
def close (arity height turns : Nat) : Exit → Exec σ (Exit × Left turns)
  | .leave 0 => do
    keepResults arity height
    return (.done, ⟨turns, Nat.le_refl turns⟩)
  | .leave (depth + 1) => return (.leave depth, ⟨turns, Nat.le_refl turns⟩)
  | exit => passMark s turns exit

/-- A block or conditional around an evaluation. -/
def scope {turns : Nat} (arity : Nat) (inside : Exec σ (Exit × Left turns)) :
    Exec σ (Exit × Left turns) := do
  let height := (← get).operands.height
  let (exit, left) ← inside
  within left.2 (close s arity height left exit)

/-- Ends a function whose body was left in the given way. A branch out of all constructs returns,
and one that goes further makes no sense. -/
def conclude (turns : Nat) : Exit → Exec σ (Left turns)
  | .done => do
    let left ← spend s s.pricing.base turns
    returnFromFrame s
    return ⟨left, Nat.le_of_lt left.2⟩
  | .leave (_ + 1) => trap (.malformed .branchDepth)
  | _ => do
    returnFromFrame s
    return ⟨turns, Nat.le_refl turns⟩

/-- A function around the evaluation of its body. -/
def activation {turns : Nat} (inside : Exec σ (Exit × Left turns)) : Exec σ (Left turns) := do
  let (exit, u) ← inside
  let v ← conclude s u exit
  return ⟨v, Nat.le_trans v.2 u.2⟩

/-- **Structured evaluation** of a sequence in the current frame. -/
def evaluate (turns : Nat) : Seq → Exec σ (Exit × Left turns)
  | .nil => return (.done, ⟨turns, Nat.le_refl turns⟩)
  | .op o rest => do
    let t ← spend s (s.pricing.opCost o) turns
    within (Nat.le_of_lt t.2) do
      match ← effect s o with
      | .next => evaluate t rest
      | .leave depth => return (.leave depth, ⟨t, Nat.le_refl t⟩)
      | .ret => return (.ret, ⟨t, Nat.le_refl t⟩)
      | .call func =>
        match ← enter s func with
        | none => evaluate t rest
        | some tree =>
          let u ← activation s (evaluate t tree)
          within u.2 (evaluate u rest)
  | .block arity body rest => do
    let t ← spend s s.pricing.base turns
    within (Nat.le_of_lt t.2) (sequel (scope s arity (evaluate t body)) fun u => evaluate u rest)
  | .loop body rest => do
    let t ← spend s s.pricing.base turns
    within (Nat.le_of_lt t.2) do
      let height := (← get).operands.height
      let (exit, u) ← evaluate t body
      within u.2 do
        match exit with
        | .done =>
          let v ← spend s s.pricing.base u
          within (Nat.le_of_lt v.2) (evaluate v rest)
        -- a branch to a loop starts it again
        | .leave 0 =>
          truncate height
          evaluate u (.loop body rest)
        | .leave (depth + 1) => return (.leave depth, ⟨u, Nat.le_refl u⟩)
        | .ret => return (.ret, ⟨u, Nat.le_refl u⟩)
  | .ifThen arity thenArm rest => do
    let t ← spend s s.pricing.base turns
    within (Nat.le_of_lt t.2) do
      let condition ← popI32 (Machine.floor s (← get))
      if condition ≠ 0 then sequel (scope s arity (evaluate t thenArm)) fun u => evaluate u rest
      else evaluate t rest
  | .ifElse arity thenArm elseArm rest => do
    let t ← spend s s.pricing.base turns
    within (Nat.le_of_lt t.2) do
      let condition ← popI32 (Machine.floor s (← get))
      if condition ≠ 0 then
        -- the first arm ends with a mark of its own
        let first := do
          let (exit, u) ← evaluate t thenArm
          within u.2 (passMark s u exit)
        sequel (scope s arity first) fun u => evaluate u rest
      else sequel (scope s arity (evaluate t elseArm)) fun u => evaluate u rest
termination_by turns
decreasing_by all_goals omega

/-- Calls a function and evaluates its body, if it has one. -/
def evaluateFunc (limit func : Nat) : Exec σ Unit := do
  match ← enter s func with
  | none => return ()
  | some tree =>
    let _ ← activation s (evaluate s limit tree)
    return ()

/-- Calls `func` with `args` as `Machine.run` does, with the structured evaluation of what is
called. -/
def evaluateCall (limit func : Nat) (args : List Value) : Exec σ (Option Value) := do
  match s.program.funcType? func with
  | none => trap (.malformed .functionOutOfRange)
  | some type =>
    if args.map Value.type = type.params then
      modify fun m => { m with operands := m.operands.pushAll args }
      evaluateFunc s limit func
      takeResult s type
    else trap (.typeConflict .invocationArguments)

end Machine

/-- Calls a function as `Instance.invoke` does, with the structured evaluation of what is called. -/
def Instance.evaluate (i : Instance) (checkpoint : Checkpoint σ) (pricing : Pricing)
    (limit func : Nat) (args : List Value) (operands : OperandStack) (account : σ) : Invocation σ :=
  let s := i.setting checkpoint pricing operands.height
  Machine.settle s (Machine.evaluateCall s limit func args (Machine.start i.store operands account))

/-! ### Where evaluation leads -/

/-- All instructions without structure in a sequence satisfy `P`. -/
def Seq.All (P : Op → Prop) : Seq → Prop
  | nil => True
  | op o rest => P o ∧ rest.All P
  | block _ body rest => body.All P ∧ rest.All P
  | loop body rest => body.All P ∧ rest.All P
  | ifThen _ thenArm rest => thenArm.All P ∧ rest.All P
  | ifElse _ thenArm elseArm rest => thenArm.All P ∧ elseArm.All P ∧ rest.All P

/-- The instruction stops only for reasons in `E`, given a store where `K` holds. -/
structure Op.Safe (o : Op) (s : Setting σ) (K : Store → Prop) (E : Stop → Prop) : Prop where
  illegal : ∀ opcode, o = .illegal opcode → E (.trap (.illegalOpcode opcode))
  memory : o.NeedsMemory → ∀ store, K store → store.memory = none →
    E (.trap (.malformed .noMemory))
  global : ∀ i, o.global? = some i → ∀ store, K store → store.globals[i]? = none →
    E (.trap (.malformed .globalOutOfRange))
  call : ∀ func, o = .call func → s.program.funcType? func = none →
    E (.trap (.malformed .callTargetOutOfRange))

/-- A setting is **safe** if everything that evaluation may stop for is in `E`, as long as `K` holds
of the store, and if no instruction upsets `K`. -/
structure Setting.Safe (s : Setting σ) (K : Store → Prop) (E : Stop → Prop) : Prop
    extends Store.Endures K where
  ordinary : ∀ t : Trap, t.IsOrdinary → E (.trap t)
  turnLimit : E .turnLimit
  charge : ∀ cost a t a', s.checkpoint.charge cost a = .error t a' → E (.trap t)
  enterFrame : ∀ a t a', s.checkpoint.enterFrame a = .error t a' → E (.trap t)
  hostTrap : ∀ f ∈ s.host, ∀ args t, f args = .trap t → E (.trap t)
  hostPanic : ∀ f ∈ s.host, ∀ args p, f args = .panic p → E (.panic p)
  host : ∀ func type, s.program.funcType? func = some type → func < s.program.imported →
    s.host[func]? = none → E (.trap (.malformed .unresolvedHost))
  body : ∀ func type, s.program.funcType? func = some type → ¬ func < s.program.imported →
    s.program.body? func = none ∨ s.program.tree? func = none →
    E (.trap (.malformed .callTargetWithoutBody))
  ops : ∀ func tree, s.program.tree? func = some tree → tree.All fun o => o.Safe s K E

theorem Seq.all_of_forall {P : Op → Prop} (h : ∀ o, P o) (s : Seq) : s.All P := by
  induction s with
  | nil => trivial
  | op o rest ih => exact ⟨h o, ih⟩
  | block _ _ _ ihBody ih | loop _ _ ihBody ih | ifThen _ _ _ ihBody ih => exact ⟨ihBody, ih⟩
  | ifElse _ _ _ _ ihThen ihElse ih => exact ⟨ihThen, ihElse, ih⟩

/-- Every instruction is safe as far as nothing is asked of it. -/
theorem Op.safe_true (o : Op) (s : Setting σ) : o.Safe s (fun _ => True) fun _ => True where
  illegal _ _ := trivial
  memory _ _ _ _ := trivial
  global _ _ _ _ _ := trivial
  call _ _ _ := trivial

/-- Every setting is safe as far as nothing is asked of it. -/
theorem Setting.safe_true (s : Setting σ) : s.Safe (fun _ => True) fun _ => True where
  ordinary _ _ := trivial
  turnLimit := trivial
  charge _ _ _ _ _ := trivial
  enterFrame _ _ _ _ := trivial
  hostTrap _ _ _ _ _ := trivial
  hostPanic _ _ _ _ _ := trivial
  toEndures := Store.endures_true
  host _ _ _ _ _ := trivial
  body _ _ _ _ _ := trivial
  ops _ tree _ := tree.all_of_forall fun o => o.safe_true s

namespace Machine

open Exec

/-- The current frame is `f`, up to the values of its locals, and lies on top of `fs`; and `K` holds
of the store. -/
structure Inside (f : Frame) (fs : List Frame) (K : Store → Prop) (m : Machine σ) : Prop where
  frames : ∃ locals, m.frames.items = { f with locals } :: fs
  store : K m.store

section Leads

variable {s : Setting σ} {K : Store → Prop} {E : Stop → Prop} {f : Frame} {fs : List Frame}

theorem Inside.top? {m : Machine σ} (h : m.Inside f fs K) :
    ∃ locals, m.frames.top? = some { f with locals } := by
  obtain ⟨locals, hitems⟩ := h.frames
  exact ⟨locals, Stack.top?_of_cons hitems⟩

/-- Taking a turn changes nothing but the account. -/
theorem spend_keeps {I : Machine σ → Prop} (ha : ∀ m a, I m → I { m with account := a })
    (hlimit : E .turnLimit) {cost : Nat}
    (hcharge : ∀ a t a', s.checkpoint.charge cost a = .error t a' → E (.trap t)) (turns : Nat) :
    Keeps I E (spend s cost turns) := by
  cases turns with
  | zero => exact .throw hlimit
  | succ left => exact (onAccount_keeps ha hcharge).bind fun _ => .pure _

theorem within_leads {I J : Machine σ → Prop} {fewer turns : Nat} (h : fewer ≤ turns)
    {a : Exec σ (Exit × Left fewer)} (ha : Leads I E a fun _ => J) :
    Leads I E (within h a) fun _ => J :=
  ha.bind fun _ => .pure fun _ hm => hm

theorem sequel_leads {I : Machine σ → Prop} {turns : Nat} {first : Exec σ (Exit × Left turns)}
    {next : (left : Left turns) → Exec σ (Exit × Left left)} (h : Leads I E first fun _ => I)
    (hn : ∀ left, Leads I E (next left) fun _ => I) :
    Leads I E (sequel first next) fun _ => I := by
  refine h.bind fun r => ?_
  obtain ⟨exit, left⟩ := r
  cases exit with
  | done => exact within_leads left.2 (hn left)
  | leave | ret => exact .pure fun _ hm => hm

variable (hs : s.Safe K E)
include hs

theorem inside_steady (f : Frame) (fs : List Frame) :
    Steady (Inside (σ := σ) f fs K) E where
  ordinary := hs.ordinary
  operands _ _ h := ⟨h.frames, h.store⟩
  memory m memory h hsome := ⟨h.frames, hs.memory m.store memory h.store hsome⟩
  globals m index cell h := ⟨h.frames, hs.globals m.store index cell h.store⟩
  locals m index v h := by
    obtain ⟨locals, hitems⟩ := h.frames
    refine ⟨⟨locals.setIfInBounds index v, ?_⟩, h.store⟩
    rw [Stack.items_modifyTop, hitems]
    rfl

theorem spend_leads (cost turns : Nat) :
    Leads (Inside f fs K) E (spend s cost turns) fun _ => Inside f fs K :=
  (spend_keeps (fun _ _ h => ⟨h.1, h.2⟩) hs.turnLimit (hs.charge cost) turns).leads

theorem popMany_keeps (floor count : Nat) :
    Keeps (Inside f fs K) E (popMany floor count : Exec σ _) := by
  have hi := (inside_steady hs f fs).toIndifferent
  induction count with
  | zero => exact .pure []
  | succ count ih => exact (pop_keeps hi floor).bind fun v => ih.bind fun vs => .pure _

theorem keepResults_keeps (arity height : Nat) :
    Keeps (Inside f fs K) E (keepResults arity height : Exec σ Unit) :=
  (popMany_keeps hs height arity).bind fun _ =>
    (truncate_keeps (inside_steady hs f fs).toIndifferent height).bind fun _ =>
      .modify fun _ h => ⟨h.1, h.2⟩

theorem passMark_leads (turns : Nat) (exit : Exit) :
    Leads (Inside f fs K) E (passMark s turns exit) fun _ => Inside f fs K := by
  cases exit with
  | done => exact (spend_leads hs _ turns).bind fun _ => .pure fun _ hm => hm
  | leave | ret => exact .pure fun _ hm => hm

theorem close_leads (arity height turns : Nat) (exit : Exit) :
    Leads (Inside f fs K) E (close s arity height turns exit) fun _ => Inside f fs K := by
  cases exit with
  | done => exact passMark_leads hs turns .done
  | ret => exact passMark_leads hs turns .ret
  | leave depth =>
    cases depth with
    | zero => exact (keepResults_keeps hs arity height).leads.bind fun _ => .pure fun _ hm => hm
    | succ depth => exact .pure fun _ hm => hm

theorem scope_leads {turns : Nat} (arity : Nat) {inside : Exec σ (Exit × Left turns)}
    (h : Leads (Inside f fs K) E inside fun _ => Inside f fs K) :
    Leads (Inside f fs K) E (scope s arity inside) fun _ => Inside f fs K :=
  .get_bind fun m _ => h.bind fun r =>
    within_leads r.2.2 (close_leads hs arity m.operands.height r.2 r.1)

/-! ### Returns and calls -/

/-- A return leads to the frames below. -/
theorem returnFromFrame_leads :
    Leads (Inside f fs K) E (returnFromFrame s) fun _ m => m.frames.items = fs ∧ K m.store := by
  intro m hm
  obtain ⟨locals, hitems⟩ := hm.frames
  have hi : Indifferent (fun m : Machine σ => m.frames.items = fs ∧ K m.store) E :=
    { ordinary := hs.ordinary, operands := fun _ _ h => h }
  rw [returnFromFrame_of_cons s hitems]
  exact (handOver_keeps hi _).leads _ ⟨rfl, hm.store⟩

theorem conclude_leads (turns : Nat) (exit : Exit) :
    Leads (Inside f fs K) E (conclude s turns exit) fun _ m =>
      m.frames.items = fs ∧ K m.store := by
  have hreturn : Leads (Inside f fs K) E
      (do returnFromFrame s; return (⟨turns, Nat.le_refl turns⟩ : Left turns))
      fun _ m => m.frames.items = fs ∧ K m.store :=
    (returnFromFrame_leads hs).bind fun _ => .pure fun _ hm => hm
  cases exit with
  | done =>
    exact (spend_leads hs _ turns).bind fun _ => (returnFromFrame_leads hs).bind fun _ =>
      .pure fun _ hm => hm
  | ret => exact hreturn
  | leave depth =>
    cases depth with
    | zero => exact hreturn
    | succ depth => exact .throw (hs.ordinary _ rfl)

theorem activation_leads {turns : Nat} {inside : Exec σ (Exit × Left turns)}
    (h : Leads (Inside f fs K) E inside fun _ => Inside f fs K) :
    Leads (Inside f fs K) E (activation s inside) fun _ m => m.frames.items = fs ∧ K m.store :=
  h.bind fun r => (conclude_leads hs r.2 r.1).bind fun _ => .pure fun _ hm => hm

/-- A call leads to the frame that it opens, or back if it is to a host function. -/
theorem enter_leads (fs : List Frame) {func : Nat}
    (hcall : s.program.funcType? func = none → E (.trap (.malformed .callTargetOutOfRange))) :
    Leads (fun m => m.frames.items = fs ∧ K m.store) E (enter s func) fun
      | none, m => m.frames.items = fs ∧ K m.store
      | some tree, m => s.program.tree? func = some tree ∧
          ∃ g : Frame, g.func = func ∧ g.position = 0 ∧ g.labels = [] ∧ m.Inside g fs K := by
  have hi : Indifferent (fun m : Machine σ => m.frames.items = fs ∧ K m.store) E :=
    { ordinary := hs.ordinary, operands := fun _ _ h => h }
  unfold enter
  cases htype : s.program.funcType? func with
  | none => exact .throw (hcall htype)
  | some type =>
    refine .ite (fun hfunc => ?_) fun hfunc => ?_
    · exact (callHost_keeps s hi (hs.host func type htype hfunc) hs.hostTrap hs.hostPanic
        type).leads.bind fun _ => .pure fun _ hm => hm
    · cases hbody : s.program.body? func with
      | none => exact .throw (hs.body func type htype hfunc (.inl hbody))
      | some body =>
        cases htree : s.program.tree? func with
        | none => exact .throw (hs.body func type htype hfunc (.inr htree))
        | some tree =>
          -- granting the call changes no frame, and then the new one lies on top of them
          dsimp only
          rw [callGuest_eq, bind_assoc]
          refine (grant_keeps s hi (fun _ _ h => h) hs.charge hs.enterFrame type body).leads.bind
            fun args => ?_
          intro m hm
          refine ⟨rfl, newFrame func type body args m.operands.height, rfl, rfl, rfl, ⟨?_, hm.2⟩⟩
          refine ⟨(newFrame func type body args m.operands.height).locals, ?_⟩
          change _ :: m.frames.items = _
          rw [hm.1]

/-- What an instruction comes to. A function that is to be called is there, unless the instruction
names one that is not. -/
theorem effect_leads {o : Op} (ho : o.Safe s K E) :
    Leads (Inside f fs K) E (effect s o) fun e m => m.Inside f fs K ∧
      ∀ func, e = .call func → s.program.funcType? func = none →
        E (.trap (.malformed .callTargetOutOfRange)) := by
  have hi := (inside_steady hs f fs).toIndifferent
  have hpop : ∀ floor, Leads (Inside f fs K) E (popI32 floor : Exec σ _) fun _ => Inside f fs K :=
    fun floor => (popI32_keeps hi floor).leads
  have hplain : o.IsPlain → ∀ floor, Leads (Inside f fs K) E
      (stepOp s floor o >>= fun _ => Pure.pure Effect.next) fun e m => m.Inside f fs K ∧
        ∀ func, e = .call func → s.program.funcType? func = none →
          E (.trap (.malformed .callTargetOutOfRange)) := by
    intro hop floor
    refine (stepOp_keeps (inside_steady hs f fs) s floor hop ⟨ho.illegal, ?_, ?_, ?_⟩).leads.bind
      fun _ => .pure fun _ hm => ⟨hm, fun _ => Effect.noConfusion⟩
    · -- inside a frame there is one
      intro m hm hnone
      obtain ⟨locals, htop⟩ := hm.top?
      rw [htop] at hnone
      cases hnone
    · exact fun hneeds m hm => ho.memory hneeds m.store hm.store
    · exact fun i hi m hm => ho.global i hi m.store hm.store
  refine .get_bind fun m _ => ?_
  cases o with
  | br depth => exact .pure fun _ hm => ⟨hm, fun _ => Effect.noConfusion⟩
  | ret => exact .pure fun _ hm => ⟨hm, fun _ => Effect.noConfusion⟩
  | brIf depth =>
    refine (hpop _).bind fun condition => .pure fun _ hm => ⟨hm, fun func heq => ?_⟩
    split at heq <;> cases heq
  | brTable depths default =>
    exact (hpop _).bind fun _ => .pure fun _ hm => ⟨hm, fun _ => Effect.noConfusion⟩
  | call func =>
    refine .pure fun _ hm => ⟨hm, fun target heq => ?_⟩
    cases heq
    exact ho.call func rfl
  | callIndirect type =>
    refine (hpop _).bind fun slot => ?_
    intro m hm
    have hresolve := (resolve_keeps s hs.ordinary type slot.toNat).leads m hm
    rw [bind_apply]
    cases hr : resolve s type slot.toNat m with
    | error e m' =>
      rw [hr] at hresolve
      exact hresolve
    | ok func m' =>
      -- the table can name anything, but what is found has the expected type
      obtain ⟨rfl, hsome⟩ := resolve_eq_ok s hr
      refine ⟨hm, fun target heq hnone => ?_⟩
      cases heq
      rw [hnone] at hsome
      cases hsome
  | _ => exact hplain trivial _

/-- **Evaluation** in a safe setting leads back to the frame that it started in, and stops only for
reasons in `E`. The induction is on the turns: every recursive call comes after one. -/
theorem evaluate_leads (turns : Nat) (seq : Seq) (hseq : seq.All fun o => o.Safe s K E)
    (f : Frame) (fs : List Frame) :
    Leads (Inside f fs K) E (evaluate s turns seq) fun _ => Inside f fs K := by
  induction turns using Nat.strongRecOn generalizing seq f fs with
  | ind turns ih =>
    cases seq with
    | nil =>
      rw [evaluate]
      exact .pure fun _ hm => hm
    | op o rest =>
      rw [evaluate]
      refine (spend_leads hs _ turns).bind fun t => within_leads _ ?_
      refine (effect_leads hs hseq.1).bind fun e => ?_
      cases e with
      | next => exact fun m hm => ih t.1 t.2 rest hseq.2 f fs m hm.1
      | leave | ret => exact .pure fun m hm => hm.1
      | call func =>
        intro m hm
        obtain ⟨locals, hitems⟩ := hm.1.frames
        have henter := enter_leads hs ({ f with locals } :: fs) (hm.2 func rfl) m
          ⟨hitems, hm.1.store⟩
        dsimp only
        rw [bind_apply]
        cases hr : enter s func m with
        | error stop m' =>
          rw [hr] at henter
          exact henter
        | ok r m' =>
          rw [hr] at henter
          cases r with
          | none => exact ih t.1 t.2 rest hseq.2 f fs m' ⟨⟨locals, henter.1⟩, henter.2⟩
          | some tree =>
            -- the callee is evaluated in its own frame `g`, and returns to this one
            obtain ⟨htree, g, -, -, -, hinside⟩ := henter
            refine (activation_leads hs (ih t.1 t.2 tree (hs.ops func tree htree) g _)).bind
              (fun u => within_leads u.2 ?_) m' hinside
            exact fun m hm => ih u.1 (Nat.lt_of_le_of_lt u.2 t.2) rest hseq.2 f fs m
              ⟨⟨locals, hm.1⟩, hm.2⟩
    | block arity body rest =>
      rw [evaluate]
      refine (spend_leads hs _ turns).bind fun t => within_leads _ ?_
      exact sequel_leads (scope_leads hs arity (ih t.1 t.2 body hseq.1 f fs)) fun u =>
        ih u.1 (Nat.lt_of_le_of_lt u.2 t.2) rest hseq.2 f fs
    | loop body rest =>
      rw [evaluate]
      refine (spend_leads hs _ turns).bind fun t => within_leads _ ?_
      refine .get_bind fun m _ => (ih t.1 t.2 body hseq.1 f fs).bind fun r => ?_
      obtain ⟨exit, u⟩ := r
      have hu : u.1 < turns := Nat.lt_of_le_of_lt u.2 t.2
      refine within_leads u.2 ?_
      cases exit with
      | done =>
        refine (spend_leads hs _ u.1).bind fun v => within_leads _ ?_
        exact ih v.1 (Nat.lt_trans v.2 hu) rest hseq.2 f fs
      | ret => exact .pure fun m hm => hm
      | leave depth =>
        cases depth with
        | zero =>
          -- the same loop again, which is no smaller but has fewer turns
          exact (truncate_keeps (inside_steady hs f fs).toIndifferent _).leads.bind fun _ =>
            ih u.1 hu (.loop body rest) hseq f fs
        | succ depth => exact .pure fun m hm => hm
    | ifThen arity thenArm rest =>
      rw [evaluate]
      refine (spend_leads hs _ turns).bind fun t => within_leads _ ?_
      refine .get_bind fun m _ => (popI32_keeps (inside_steady hs f fs).toIndifferent _).leads.bind
        fun condition => .ite (fun _ => ?_) fun _ => ih t.1 t.2 rest hseq.2 f fs
      exact sequel_leads (scope_leads hs arity (ih t.1 t.2 thenArm hseq.1 f fs)) fun u =>
        ih u.1 (Nat.lt_of_le_of_lt u.2 t.2) rest hseq.2 f fs
    | ifElse arity thenArm elseArm rest =>
      rw [evaluate]
      refine (spend_leads hs _ turns).bind fun t => within_leads _ ?_
      have hrest : ∀ u : Left t.1, Leads (Inside f fs K) E (evaluate s u.1 rest) fun _ =>
          Inside f fs K :=
        fun u => ih u.1 (Nat.lt_of_le_of_lt u.2 t.2) rest hseq.2.2 f fs
      refine .get_bind fun m _ => (popI32_keeps (inside_steady hs f fs).toIndifferent _).leads.bind
        fun condition => .ite (fun _ => ?_) fun _ => ?_
      · refine sequel_leads (scope_leads hs arity ?_) hrest
        exact (ih t.1 t.2 thenArm hseq.1 f fs).bind fun r =>
          within_leads r.2.2 (passMark_leads hs r.2 r.1)
      · exact sequel_leads (scope_leads hs arity (ih t.1 t.2 elseArm hseq.2.1 f fs)) hrest

end Leads

end Machine

end MeteredSandbox
