import MeteredSandbox.Proofs.Control
import MeteredSandbox.Proofs.Structured

/-!
# Placing the current frame

The structured evaluation of a function and the machine that runs its flat code work on the same
operands, store and account, and the frames of the machine have positions and labels besides. So a
state of the machine is a state of the evaluation with its current frame **placed** at a position,
inside constructs (`Machine.place`), and what the machine does at a placed state is known from what
the evaluation does: jumps and marks change the place alone, returns do not depend on it, and a
branch goes from one place to another (`Machine.branch_place`).

What the machine does after a sequence depends on how the evaluation of the sequence ends: it goes
on behind the sequence, or branches, or returns (`Machine.resumption`).

When a run stops, its frames are of no further use, and where they stopped is not part of what is
left. Results are therefore compared up to the positions and labels of frames (`Machine.Alike`).
-/

namespace MeteredSandbox

variable {σ α β : Type}

/-! ### Results and what comes after them -/

/-- What comes of a result that is not a stop. -/
def resume {ε τ : Type} (r : EStateM.Result ε τ α) (K : α → τ → EStateM.Result ε τ β) :
    EStateM.Result ε τ β :=
  match r with
  | .ok x s => K x s
  | .error e s => .error e s

theorem resume_bind {ε τ γ : Type} (a : EStateM ε τ α) (k : α → EStateM ε τ β) (s : τ)
    (K : β → τ → EStateM.Result ε τ γ) :
    resume ((a >>= k) s) K = resume (a s) fun x s' => resume (k x s') K := by
  rw [bind_apply]
  cases a s with
  | ok x s' => rfl
  | error e s' => rfl

/-! ### Frames without positions -/

/-- The frame without its position and labels. -/
def Frame.bare (f : Frame) : Frame := { f with position := 0, labels := [] }

/-- The frame at a position, inside constructs. -/
def Frame.placed (position : Nat) (labels : List Label) (f : Frame) : Frame :=
  { f with position, labels }

@[simp] theorem Frame.bare_placed (position : Nat) (labels : List Label) (f : Frame) :
    (f.placed position labels).bare = f.bare := rfl

/-- The reading that places the current frame and replaces the frames below it. -/
def Reading.placed (position : Nat) (labels : List Label) (below : List Frame) : Reading σ σ where
  under := .empty
  top := Frame.placed position labels
  below _ := below
  account := id
  top_locals _ := rfl
  top_withLocals _ _ := rfl

namespace Machine

open Exec

/-- The machine with other frames. -/
def withFrames (fs : List Frame) (m : Machine σ) : Machine σ := { m with frames := .ofItems fs }

theorem withFrames_self {m : Machine σ} {fs : List Frame} (h : m.frames.items = fs) :
    m.withFrames fs = m :=
  Machine.ext rfl rfl (Stack.ext h.symm) rfl rfl

/-- The machine without the positions and labels of its frames. -/
def bare (m : Machine σ) : Machine σ := m.withFrames (m.frames.items.map Frame.bare)

/-- Two results are **alike** if they differ in positions and labels of frames at most. -/
def Alike (r r' : EStateM.Result Stop (Machine σ) α) : Prop :=
  mapState bare r = mapState bare r'

namespace Alike

variable {r r' r'' : EStateM.Result Stop (Machine σ) α}

theorem refl (r : EStateM.Result Stop (Machine σ) α) : Alike r r := Eq.refl _

theorem symm (h : Alike r r') : Alike r' r := Eq.symm h

theorem trans (h : Alike r r') (h' : Alike r' r'') : Alike r r'' := Eq.trans h h'

theorem of_eq (h : r = r') : Alike r r' := h ▸ refl r

theorem error {e : Stop} {m m' : Machine σ} (h : m.bare = m'.bare) :
    Alike (.error e m : EStateM.Result Stop (Machine σ) α) (.error e m') := by
  unfold Alike
  rw [mapState_error, mapState_error, h]

/-- What comes after a result may be replaced by what is alike. -/
theorem resume {q : EStateM.Result Stop (Machine σ) β}
    {K K' : β → Machine σ → EStateM.Result Stop (Machine σ) α}
    (h : ∀ x m, q = .ok x m → Alike (K x m) (K' x m)) :
    Alike (MeteredSandbox.resume q K) (MeteredSandbox.resume q K') := by
  cases q with
  | ok x m => exact h x m rfl
  | error e m => exact refl _

end Alike

/-! ### Placing the current frame -/

/-- The machine with its current frame at a position, inside constructs, and on top of other
frames. -/
def place (position : Nat) (labels : List Label) (below : List Frame) (m : Machine σ) : Machine σ :=
  (Reading.placed position labels below).machine m

section Placed

variable {p : Nat} {L : List Label} {below fs : List Frame} {m : Machine σ} {f : Frame}

theorem place_eq (h : m.frames.items = f :: fs) :
    m.place p L below = m.withFrames (f.placed p L :: below) := by
  have hframes : (m.place p L below).frames = .ofItems (f.placed p L :: below) := by
    change Stack.ofItems ((Reading.placed p L below : Reading σ σ).frames m.frames.items) = _
    rw [h]
    rfl
  exact Machine.ext rfl (Stack.empty_beneath m.operands) hframes rfl rfl

theorem place_items (h : m.frames.items = f :: fs) :
    (m.place p L below).frames.items = f.placed p L :: below := by
  rw [place_eq h]
  rfl

theorem place_top? (h : m.frames.items = f :: fs) :
    (m.place p L below).frames.top? = some (f.placed p L) := by
  exact Stack.top?_of_cons (place_items h)

theorem floor_place (s : Setting σ) : floor s (m.place p L below) = floor s m :=
  Reading.floor_machine (fun _ => rfl) s m

/-- Where a frame is placed makes no difference once positions and labels are forgotten. -/
theorem bare_place (h : m.frames.items = f :: fs)
    (hbelow : below.map Frame.bare = fs.map Frame.bare) :
    (m.place p L below).bare = m.bare := by
  rw [place_eq h]
  unfold bare withFrames
  dsimp only
  rw [Stack.items_ofItems, h, List.map_cons, List.map_cons, hbelow, Frame.bare_placed]

/-- Changing the current frame where it has been placed. -/
theorem modifyFrame_place (h : m.frames.items = f :: fs) {g : Frame → Frame} {q : Nat}
    {L' : List Label} (hg : g (f.placed p L) = f.placed q L') :
    modifyFrame g (m.place p L below) = .ok () (m.place q L' below) := by
  have hempty : ¬ (m.place p L below).frames.isEmpty = true :=
    Stack.not_isEmpty_of_cons (place_items h)
  have hframes : (m.place p L below).frames.modifyTop g = (m.place q L' below).frames := by
    apply Stack.ext
    rw [Stack.items_modifyTop, place_items h, place_items h, List.modifyHead_cons, hg]
  rw [modifyFrame_apply, if_neg hempty, hframes]
  rfl

theorem pushLabel_place (h : m.frames.items = f :: fs) (arity target : Nat) :
    pushLabel arity target (m.place p L below)
      = .ok () (m.place p ({ arity, height := m.operands.height, target } :: L) below) := by
  have hheight : (m.place p L below).operands.height = m.operands.height := by
    rw [place_eq h]
    rfl
  unfold pushLabel
  rw [get_bind_apply, hheight]
  exact modifyFrame_place h rfl

theorem frame_place (h : m.frames.items = f :: fs) :
    frame (m.place p L below) = .ok (f.placed p L) (m.place p L below) := by
  unfold frame
  rw [place_top? h]

theorem jump_place (h : m.frames.items = f :: fs) (q : Nat) :
    jump q (m.place p L below) = .ok () (m.place q L below) := modifyFrame_place h rfl

end Placed

/-! ### Returns and branches of placed machines -/

theorem handOver_withFrames (f : Frame) (fs : List Frame) :
    Follows (withFrames (σ := σ) fs) (handOver f) (handOver f) := by
  have operands : ∀ {α : Type} (action : Operands α),
      Follows (withFrames (σ := σ) fs) (onOperands action) (onOperands action) :=
    onOperands_along (fun _ => rfl) fun _ _ => rfl
  have cut : ∀ height, Follows (withFrames (σ := σ) fs) (truncate height) (truncate height) :=
    fun height => .modify fun _ => rfl
  unfold handOver
  cases f.result with
  | none => exact cut f.base
  | some expected =>
    exact (operands _).bind fun v => .ite ((cut f.base).bind fun _ => operands _) (.throw _)

variable (s : Setting σ)

section Placed

variable {p : Nat} {L : List Label} {below fs : List Frame} {m : Machine σ} {f : Frame}

/-- A return does not depend on where in its body the frame was. -/
theorem returnFromFrame_place (h : m.frames.items = f :: fs) :
    returnFromFrame s (m.place p L below)
      = mapState (withFrames below) (returnFromFrame s m) := by
  have hclose : closeFrame s (f.placed p L) below (m.place p L below)
      = (closeFrame s f fs m).withFrames below := by
    rw [place_eq h]
    rfl
  rw [returnFromFrame_of_cons s (place_items h), returnFromFrame_of_cons s h, hclose]
  exact handOver_withFrames f below _

/-- A return to the same frames below, whether it succeeds or not. -/
theorem returnFromFrame_alike (h : m.frames.items = f :: fs)
    (hbelow : below.map Frame.bare = fs.map Frame.bare) (k : Exec σ Unit) :
    Alike ((returnFromFrame s >>= fun _ => k) (m.place p L below))
      (resume (returnFromFrame s m) fun _ m' => k (m'.withFrames below)) := by
  have hkeeps := handOver_keeps (I := fun m' : Machine σ => m'.frames.items = fs)
    (E := fun _ => True) { ordinary := fun _ _ => trivial, operands := fun _ _ h => h } f
    (closeFrame s f fs m) rfl
  -- the frames below are as they were, also when the result cannot be handed over
  rw [← returnFromFrame_of_cons s h] at hkeeps
  rw [bind_apply, returnFromFrame_place s h]
  cases hr : returnFromFrame s m with
  | ok x m' => exact .refl _
  | error e m' =>
    rw [hr] at hkeeps
    refine .error ?_
    unfold bare withFrames
    dsimp only
    rw [Stack.items_ofItems, hkeeps.1, hbelow]

/-- A branch to a construct carries its result over and goes on at its target. -/
theorem branch_place (h : m.frames.items = f :: fs)
    (hbelow : below.map Frame.bare = fs.map Frame.bare) {depth : Nat} {label : Label}
    {outer : List Label} (hdrop : L.drop depth = label :: outer) (k : Exec σ Unit) :
    Alike ((branch s depth >>= fun _ => k) (m.place p L below))
      (resume (carry label.arity label.height m) fun _ m' =>
        k (m'.place label.target outer below)) := by
  have htop : (m.place p L below).frames.top? = some (f.placed p L) := place_top? h
  have hcarry : carry label.arity label.height (m.place p L below)
      = mapState (place p L below) (carry label.arity label.height m) :=
    carry_follows (Reading.placed p L below) label.arity label.height m
  have hkeeps := carry_keeps (I := fun m' : Machine σ => m'.frames.items = f :: fs)
    (E := fun _ => True) { ordinary := fun _ _ => trivial, operands := fun _ _ h => h }
    label.arity label.height m h
  -- the result is carried before the frame is moved, so a stop leaves the frame where it was
  cases hr : carry label.arity label.height m with
  | ok x m' =>
    rw [hr] at hcarry hkeeps
    have hbranch : branch s depth (m.place p L below)
        = .ok () (m'.place label.target outer below) := by
      rw [branch_of_drop s htop hdrop, bind_of_ok hcarry]
      exact modifyFrame_place hkeeps rfl
    rw [bind_of_ok hbranch]
    exact .refl _
  | error e m' =>
    rw [hr] at hcarry hkeeps
    have hbranch : branch s depth (m.place p L below) = .error e (m'.place p L below) := by
      rw [branch_of_drop s htop hdrop, bind_of_error hcarry]
    rw [bind_of_error hbranch]
    exact .error (bare_place hkeeps.1 hbelow)

end Placed

/-! ### Resuming -/

/-- What the machine does when the evaluation of a sequence has ended: `position` is where the
sequence ends in the flat code, and it lies inside constructs with the given labels. -/
def resumption (position : Nat) (labels : List Label) (below : List Frame) :
    Exit → Nat → Machine σ → EStateM.Result Stop (Machine σ) Unit
  | .done, turns, m => takeTurns s turns (m.place position labels below)
  | .leave depth, turns, m =>
    (branch s depth >>= fun _ => takeTurns s turns) (m.place position labels below)
  | .ret, turns, m =>
    (returnFromFrame s >>= fun _ => takeTurns s turns) (m.place position labels below)

/-- What comes after an evaluation, which does not depend on where its turns came from. -/
def continuing {turns : Nat} (K : Exit → Nat → Machine σ → EStateM.Result Stop (Machine σ) α)
    (r : Exit × Left turns) : Machine σ → EStateM.Result Stop (Machine σ) α :=
  K r.1 r.2.1

theorem resume_within {fewer turns : Nat} (h : fewer ≤ turns) (a : Exec σ (Exit × Left fewer))
    (m : Machine σ) (K : Exit → Nat → Machine σ → EStateM.Result Stop (Machine σ) α) :
    resume (within h a m) (continuing K) = resume (a m) (continuing K) := by
  unfold within
  rw [resume_bind]
  rfl

section Resumption

variable {p q : Nat} {L : List Label} {below fs : List Frame} {m : Machine σ} {f : Frame}

theorem resumption_ret (h : m.frames.items = f :: fs) (p q : Nat) (L L' : List Label)
    (turns : Nat) :
    resumption s p L below .ret turns m = resumption s q L' below .ret turns m := by
  unfold resumption
  dsimp only
  rw [bind_apply, bind_apply, returnFromFrame_place s h, returnFromFrame_place s h]

/-- A branch that leaves all constructs of the frame returns. -/
theorem resumption_leave_length (h : m.frames.items = f :: fs) {depth : Nat}
    (hdepth : depth = L.length) (turns : Nat) :
    resumption s p L below (.leave depth) turns m = resumption s p L below .ret turns m := by
  unfold resumption
  dsimp only
  rw [bind_apply, bind_apply, branch_of_length s (place_top? h) hdepth]

/-- A branch that leaves more constructs than there are makes no sense. -/
theorem resumption_leave_gt (h : m.frames.items = f :: fs)
    (hbelow : below.map Frame.bare = fs.map Frame.bare) {depth : Nat} (hdepth : L.length < depth)
    (turns : Nat) :
    Alike (resumption s p L below (.leave depth) turns m)
      (.error (.trap (.malformed .branchDepth)) m) := by
  unfold resumption
  dsimp only
  rw [bind_of_error (branch_of_gt s (place_top? h) hdepth)]
  exact .error (bare_place h hbelow)

/-- A branch to a construct further out does not depend on where in the inner one the frame was, nor
on the label of that one. -/
theorem resumption_leave (h : m.frames.items = f :: fs)
    (hbelow : below.map Frame.bare = fs.map Frame.bare) (p q : Nat) {L L' : List Label}
    {depth depth' : Nat} (hdrop : L.drop depth = L'.drop depth')
    (hlength : L.length - depth = L'.length - depth' ∧ (depth ≤ L.length ↔ depth' ≤ L'.length))
    (turns : Nat) :
    Alike (resumption s p L below (.leave depth) turns m)
      (resumption s q L' below (.leave depth') turns m) := by
  obtain ⟨hsub, hle⟩ := hlength
  -- as far as the branch is concerned, the labels that are left are all that there is
  rcases branch_cases L depth with ⟨label, outer, hcons⟩ | heq | hgt
  · exact (branch_place s h hbelow hcons _).trans
      (branch_place s h hbelow (hdrop.symm.trans hcons) _).symm
  · rw [resumption_leave_length s h heq, resumption_leave_length s h (by omega)]
    exact .of_eq (resumption_ret s h p q L L' turns)
  · exact (resumption_leave_gt s h hbelow hgt turns).trans
      (resumption_leave_gt s h hbelow (by omega) turns).symm

/-- A branch out of a construct is, outside of it, a branch that leaves one construct less. -/
theorem resumption_leave_succ (h : m.frames.items = f :: fs)
    (hbelow : below.map Frame.bare = fs.map Frame.bare) (p q : Nat) (label : Label)
    (L : List Label) (depth turns : Nat) :
    Alike (resumption s p (label :: L) below (.leave (depth + 1)) turns m)
      (resumption s q L below (.leave depth) turns m) := by
  refine resumption_leave s h hbelow p q (List.drop_succ_cons ..) ⟨?_, ?_⟩ turns
  · rw [List.length_cons, Nat.add_sub_add_right]
  · rw [List.length_cons]
    exact Nat.add_le_add_iff_right

/-- However an evaluation ends other than at its end, it does not matter where in the innermost
construct that was. -/
theorem resumption_of_ne_done (h : m.frames.items = f :: fs)
    (hbelow : below.map Frame.bare = fs.map Frame.bare) (p q : Nat) (L : List Label) {exit : Exit}
    (hexit : exit ≠ .done) (turns : Nat) :
    Alike (resumption s p L below exit turns m) (resumption s q L below exit turns m) := by
  cases exit with
  | done => exact absurd rfl hexit
  | leave depth => exact resumption_leave s h hbelow p q rfl ⟨rfl, Iff.rfl⟩ turns
  | ret => exact .of_eq (resumption_ret s h p q L L turns)

end Resumption

end Machine

end MeteredSandbox
