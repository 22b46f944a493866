import MeteredSandbox.Proofs.Changing

/-!
# Instances that are watched

What an instance is like while it is called, and not only afterwards. A run is watched from one turn
to the next (`Machine.watch`): what is seen is the machine before the call, before each turn, and
when the run stops, for whatever reason. The last that is seen has the store that the run leaves
(`Machine.exists_watch_last`), so nothing happens behind the watcher's back.

A sequence of calls gives an instance a **history** (`Instance.history`), of which each moment shows
the store and the open frames. Whatever is stable holds at every moment if it holds at the beginning
(`Instance.history_forall`), and stores that can only get further along an order do so from each
moment to all later ones (`Instance.history_pairwise`).
-/

namespace MeteredSandbox

variable {σ : Type}

/-! ### Watching a run -/

namespace Machine

/-- The machine before each of at most `limit` turns, and when there are no more. -/
def course (s : Setting σ) : (limit : Nat) → Machine σ → List (Machine σ)
  | 0, m => [m]
  | limit + 1, m =>
    m :: if m.frames.isEmpty then []
      else
        match turn s m with
        | .ok () m' => course s limit m'
        | .error _ m' => [m']

/-- **What is seen of a run**: the machine before the call, and the course of its turns. -/
def watch (s : Setting σ) (limit func : Nat) (args : List Value) (m : Machine σ) :
    List (Machine σ) :=
  m :: match s.program.funcType? func with
    | none => []
    | some type =>
      if args.map Value.type = type.params then
        match call s func { m with operands := m.operands.pushAll args } with
        | .ok () m' => course s limit m'
        | .error _ m' => [m']
      else []

variable {s : Setting σ}

/-- The course of turns, with the predicate kept by each of them. -/
theorem course_forall {I : Machine σ → Prop} (hturn : Respects I (turn s)) (limit : Nat)
    {m : Machine σ} (hm : I m) : ∀ x ∈ course s limit m, I x := by
  induction limit generalizing m with
  | zero => exact List.forall_mem_singleton.mpr hm
  | succ limit ih =>
    have hleft := hturn m hm
    rw [course]
    refine List.forall_mem_cons.mpr ⟨hm, ?_⟩
    split
    · exact fun x hx => absurd hx List.not_mem_nil
    · cases hr : turn s m with
      | ok u m' =>
        rw [hr] at hleft
        exact ih hleft
      | error e m' =>
        rw [hr] at hleft
        exact List.forall_mem_singleton.mpr hleft.1

/-- **All that is seen of a run** has what is firm. -/
theorem watch_firm {I : Machine σ → Prop} (hI : Firm s I) (limit func : Nat) (args : List Value)
    {m : Machine σ} (hm : I m) : ∀ x ∈ watch s limit func args m, I x := by
  unfold watch
  refine List.forall_mem_cons.mpr ⟨hm, ?_⟩
  cases s.program.funcType? func with
  | none => exact fun x hx => absurd hx List.not_mem_nil
  | some type =>
    dsimp only
    split
    · have hleft := call_firm hI func _
        (hI.indifferent.operands m (m.operands.pushAll args) hm)
      cases hr : call s func { m with operands := m.operands.pushAll args } with
      | ok u m' =>
        rw [hr] at hleft
        exact course_forall (turn_firm hI) limit hleft
      | error e m' =>
        rw [hr] at hleft
        exact List.forall_mem_singleton.mpr hleft.1
    · exact fun x hx => absurd hx List.not_mem_nil

/-- All that is seen of a run has what is stable. -/
theorem watch_forall {I : Machine σ → Prop} (hI : Stable s I) (limit func : Nat)
    (args : List Value) {m : Machine σ} (hm : I m) : ∀ x ∈ watch s limit func args m, I x :=
  watch_firm hI.firm limit func args hm

/-- What stores can only get further along, as a whole or in part. -/
structure Forward (s : Setting σ) (R : Store → Store → Prop) : Prop where
  refl : ∀ store, R store store
  trans : ∀ {store store' store''}, R store store' → R store' store'' → R store store''
  stable : ∀ store, Stable s fun m => R store m.store

/-- Along the course of turns the store gets further. -/
theorem course_pairwise {R : Store → Store → Prop} (hR : Forward s R) (limit : Nat)
    (m : Machine σ) : (course s limit m).Pairwise fun x y => R x.store y.store := by
  induction limit generalizing m with
  | zero => exact List.pairwise_singleton _ _
  | succ limit ih =>
    have hall := course_forall (turn_firm (hR.stable m.store).firm) (limit + 1) (hR.refl m.store)
    rw [course] at hall ⊢
    refine List.pairwise_cons.mpr ⟨(List.forall_mem_cons.mp hall).2, ?_⟩
    split
    · exact .nil
    · cases turn s m with
      | ok u m' => exact ih m'
      | error e m' => exact List.pairwise_singleton _ _

theorem watch_pairwise {R : Store → Store → Prop} (hR : Forward s R) (limit func : Nat)
    (args : List Value) (m : Machine σ) :
    (watch s limit func args m).Pairwise fun x y => R x.store y.store := by
  have hall := watch_forall (hR.stable m.store) limit func args (hR.refl m.store)
  unfold watch at hall ⊢
  refine List.pairwise_cons.mpr ⟨(List.forall_mem_cons.mp hall).2, ?_⟩
  cases s.program.funcType? func with
  | none => exact .nil
  | some type =>
    dsimp only
    split
    · cases call s func { m with operands := m.operands.pushAll args } with
      | ok u m' => exact course_pairwise hR limit m'
      | error e m' => exact List.pairwise_singleton _ _
    · exact .nil

/-- The machine that turns leave is the last of their course. -/
theorem course_getLast? (s : Setting σ) (limit : Nat) (m : Machine σ) :
    (course s limit m).getLast? = match takeTurns s limit m with
      | .ok _ m' => some m'
      | .error _ m' => some m' := by
  induction limit generalizing m with
  | zero =>
    cases hitems : m.frames.items with
    | nil =>
      rw [takeTurns_of_nil s hitems]
      rfl
    | cons f fs =>
      rw [takeTurns_zero s hitems]
      rfl
  | succ limit ih =>
    rw [course]
    cases hitems : m.frames.items with
    | nil =>
      have hempty : m.frames.isEmpty = true := List.isEmpty_iff.mpr hitems
      rw [takeTurns_of_nil s hitems, if_pos hempty]
      rfl
    | cons f fs =>
      rw [takeTurns_succ s hitems, if_neg (Stack.not_isEmpty_of_cons hitems), bind_apply]
      cases turn s m with
      | ok u m' =>
        have hne : course s limit m' ≠ [] := by
          cases limit <;> exact List.cons_ne_nil _ _
        rw [List.getLast?_cons_of_ne_nil hne]
        exact ih m'
      | error e m' => rfl

/-- What is left of an action has the store and the frames of the machine `x`. -/
def Leaves {α : Type} (x : Machine σ) : EStateM.Result Stop (Machine σ) α → Prop
  | .ok _ m => m.store = x.store ∧ m.frames = x.frames
  | .error _ m => m.store = x.store ∧ m.frames = x.frames

/-- Taking the result changes nothing but the operands. -/
theorem takeResult_leaves (s : Setting σ) (type : FuncType) (m : Machine σ) :
    Leaves m (takeResult s type m) := by
  have hi : Indifferent (fun m' : Machine σ => m'.store = m.store ∧ m'.frames = m.frames)
      fun _ => True := ⟨fun _ _ => trivial, fun _ _ h => h⟩
  have hkeeps : Respects (fun m' : Machine σ => m'.store = m.store ∧ m'.frames = m.frames)
      (takeResult s type) := by
    unfold takeResult
    cases type.results.head? with
    | none => exact .pure none
    | some expected =>
      exact (Exec.pop_keeps hi s.floor).bind fun v =>
        .ite (fun _ => .pure (some v)) fun _ => .throw trivial
  have hleft := hkeeps m ⟨rfl, rfl⟩
  cases hr : takeResult s type m with
  | ok result m' =>
    rw [hr] at hleft
    exact hleft
  | error e m' =>
    rw [hr] at hleft
    exact hleft.1

/-- **Nothing is missed.** What a run leaves has the store and the frames of the last that is seen
of it. -/
theorem exists_watch_last (s : Setting σ) (limit func : Nat) (args : List Value) (m : Machine σ) :
    ∃ x, (watch s limit func args m).getLast? = some x ∧ Leaves x (run s limit func args m) := by
  unfold watch run
  cases s.program.funcType? func with
  | none => exact ⟨m, rfl, rfl, rfl⟩
  | some type =>
    dsimp only
    split
    · have hmodify : (modify fun m => { m with operands := m.operands.pushAll args } : Exec σ _) m
          = .ok () { m with operands := m.operands.pushAll args } := rfl
      rw [bind_of_ok hmodify, bind_apply]
      cases call s func { m with operands := m.operands.pushAll args } with
      | error e m' => exact ⟨m', rfl, rfl, rfl⟩
      | ok u m' =>
        have hlast := course_getLast? s limit m'
        have hne : course s limit m' ≠ [] := by
          cases limit <;> exact List.cons_ne_nil _ _
        dsimp only
        rw [List.getLast?_cons_of_ne_nil hne, hlast, bind_apply]
        cases takeTurns s limit m' with
        | error e m'' => exact ⟨m'', rfl, rfl, rfl⟩
        | ok u m'' => exact ⟨m'', rfl, takeResult_leaves s type m''⟩
    · exact ⟨m, rfl, rfl, rfl⟩

end Machine

/-! ### Sequences of calls -/

/-- A call of a function, with everything that it is given. -/
structure Call where
  /-- The state of the checkpoint. -/
  σ : Type
  checkpoint : Checkpoint σ
  pricing : Pricing
  limit : Nat
  func : Nat
  args : List Value
  operands : OperandStack
  account : σ

/-- What can be seen of an instance at one moment: its store, and the frames that are open. -/
structure Moment where
  store : Store
  frames : List Frame

/-- What can be seen of the instance while a machine works on it. -/
def Machine.moment (m : Machine σ) : Moment := ⟨m.store, m.frames.items⟩

namespace Instance

/-- What is left of a call. -/
def perform (i : Instance) (c : Call) : Invocation c.σ :=
  i.invoke c.checkpoint c.pricing c.limit c.func c.args c.operands c.account

/-- The instance after a call. -/
def after (i : Instance) (c : Call) : Instance := { i with store := (i.perform c).store }

/-- The instance after a sequence of calls, whatever their outcomes. -/
def afterAll (i : Instance) (calls : List Call) : Instance := calls.foldl after i

/-- What is seen of a call. -/
def watch (i : Instance) (c : Call) : List (Machine c.σ) :=
  Machine.watch (i.setting c.checkpoint c.pricing c.operands.height) c.limit c.func c.args
    (Machine.start i.store c.operands c.account)

/-- **The history** of an instance: all that is seen of it during a sequence of calls, and what it
is like afterwards. -/
def history (i : Instance) : List Call → List Moment
  | [] => [⟨i.store, []⟩]
  | c :: calls => (i.watch c).map Machine.moment ++ (i.after c).history calls

/-- The store after a call is the last that is seen of it. -/
theorem exists_watch_last (i : Instance) (c : Call) :
    ∃ x, (i.watch c).getLast? = some x ∧ (i.after c).store = x.store := by
  obtain ⟨x, hx, hleaves⟩ := Machine.exists_watch_last
    (i.setting c.checkpoint c.pricing c.operands.height) c.limit c.func c.args
    (Machine.start i.store c.operands c.account)
  refine ⟨x, hx, ?_⟩
  unfold after perform
  dsimp only
  rw [invoke_eq, Machine.settle_store]
  cases hr : Machine.run (i.setting c.checkpoint c.pricing c.operands.height) c.limit c.func c.args
      (Machine.start i.store c.operands c.account) with
  | ok result m =>
    rw [hr] at hleaves
    exact hleaves.1
  | error e m =>
    rw [hr] at hleaves
    exact hleaves.1

/-- **What is stable holds at every moment**, if it holds before the first call. Between calls no
frame is open. -/
theorem history_forall {i : Instance} {I : Moment → Prop}
    (hI : ∀ {σ : Type} (s : Setting σ), s.program = i.program →
      Machine.Stable s fun m => I m.moment)
    (hclose : ∀ x, I x → I ⟨x.store, []⟩) (h : I ⟨i.store, []⟩) (calls : List Call) :
    ∀ x ∈ i.history calls, I x := by
  induction calls generalizing i with
  | nil => exact List.forall_mem_singleton.mpr h
  | cons c calls ih =>
    have hwatch : ∀ x ∈ i.watch c, I x.moment :=
      Machine.watch_forall (hI (i.setting c.checkpoint c.pricing c.operands.height) rfl) c.limit
        c.func c.args h
    obtain ⟨last, hlast, hstore⟩ := i.exists_watch_last c
    have hafter : I ⟨(i.after c).store, []⟩ := by
      rw [hstore]
      exact hclose _ (hwatch last (List.mem_of_getLast? hlast))
    refine List.forall_mem_append.mpr ⟨?_, ih hI hafter⟩
    intro x hx
    obtain ⟨m, hm, rfl⟩ := List.mem_map.mp hx
    exact hwatch m hm

/-- **Stores get further** from each moment to all later ones. -/
theorem history_pairwise {i : Instance} {R : Store → Store → Prop}
    (hR : ∀ {σ : Type} (s : Setting σ), s.program = i.program → Machine.Forward s R)
    (calls : List Call) : (i.history calls).Pairwise fun x y => R x.store y.store := by
  induction calls generalizing i with
  | nil => exact List.pairwise_singleton _ _
  | cons c calls ih =>
    have hforward := hR (i.setting c.checkpoint c.pricing c.operands.height) rfl
    have hwatch : (i.watch c).Pairwise fun x y => R x.store y.store :=
      Machine.watch_pairwise hforward _ _ _ _
    obtain ⟨last, hlast, hstore⟩ := i.exists_watch_last c
    obtain ⟨before, hbefore⟩ := List.getLast?_eq_some_iff.mp hlast
    refine List.pairwise_append.mpr ⟨List.pairwise_map.mpr hwatch, ih hR, ?_⟩
    intro x hx y hy
    obtain ⟨m, hm, rfl⟩ := List.mem_map.mp hx
    -- everything seen of the call gets to what it leaves, and that to everything later
    have hlater : R (i.after c).store y.store :=
      history_forall (i := i.after c) (I := fun x => R (i.after c).store x.store)
        (fun s hs => (hR s hs).stable _) (fun _ h => h) (hforward.refl _) calls y hy
    have hearlier : R m.store (i.after c).store := by
      rw [hstore]
      rw [hbefore] at hm hwatch
      rcases List.mem_append.mp hm with hm | hm
      · exact (List.pairwise_append.mp hwatch).2.2 m hm last (List.mem_singleton_self last)
      · rw [List.mem_singleton.mp hm]
        exact hforward.refl _
    exact hforward.trans hearlier hlater

theorem afterAll_cons (i : Instance) (c : Call) (calls : List Call) :
    i.afterAll (c :: calls) = (i.after c).afterAll calls := rfl

theorem afterAll_program (i : Instance) (calls : List Call) :
    (i.afterAll calls).program = i.program := by
  induction calls generalizing i with
  | nil => rfl
  | cons c calls ih => exact ih (i.after c)

end Instance

end MeteredSandbox
