import Mathlib
import MeteredSandbox.Proofs.Flattening

/-!
# The machine and the structured evaluation

A call that the machine runs and the same call evaluated by recursion on the sequences of the
functions (`Machine.evaluateCall`) come to the same. Below the frame that the call opens there is
none, so the frame is its own placed form, at the beginning of its body, and what is left to say is
what happens before the frame is there and after it is gone.
-/

namespace MeteredSandbox

variable {σ α : Type}

/-- A setting whose program has been compiled is flat. -/
theorem Setting.flat_of_compiled {m : Module} {s : Setting σ}
    (h : Program.ofModule m = .ok s.program) : Machine.Flat s where
  tree func body hbody := by
    obtain ⟨tree, htree, hcode, hnarrow, -⟩ := Program.tree_of_body h hbody
    exact ⟨tree, htree, hcode, hnarrow⟩
  body func tree htree := Program.body_of_tree h htree

namespace Machine

open Exec

variable {s : Setting σ}

/-! ### Calls from outside -/

/-- Entering a function is calling it. -/
theorem call_eq_enter (hs : Flat s) (func : Nat) :
    call s func = (enter s func >>= fun _ => pure ()) := by
  unfold call enter
  cases s.program.funcType? func with
  | none => rfl
  | some type =>
    dsimp only
    split
    · rw [bind_assoc]
      exact bind_pure_unit.symm
    · cases hbody : s.program.body? func with
      | none => rfl
      | some body =>
        obtain ⟨tree, htree, -⟩ := hs.tree func body hbody
        rw [htree]
        dsimp only
        rw [bind_assoc]
        exact bind_pure_unit.symm

/-- A frame that is alone and has just been opened stands where it is placed. -/
theorem place_self {m : Machine σ} {f : Frame} (h : m.frames.items = [f])
    (hposition : f.position = 0) (hlabels : f.labels = []) : m.place 0 [] [] = m := by
  have hplaced : f.placed 0 [] = f := by
    rw [← hposition, ← hlabels]
    rfl
  rw [place_eq h, hplaced]
  exact withFrames_self h

/-- A call from outside, run until it returns. -/
theorem call_takeTurns_alike (hs : Flat s) {m : Machine σ} (h : m.frames.items = [])
    (limit func : Nat) :
    Alike ((call s func >>= fun _ => takeTurns s limit) m) (evaluateFunc s limit func m) := by
  unfold evaluateFunc
  rw [call_eq_enter hs, bind_assoc, bind_apply, bind_apply]
  have henter := enter_leads s.safe_true [] (fun _ : s.program.funcType? func = none => trivial) m
    ⟨h, trivial⟩
  cases hr : enter s func m with
  | error e m' => exact .refl _
  | ok r m' =>
    rw [hr] at henter
    cases r with
    | none => exact .of_eq (takeTurns_of_nil s henter.1 limit)
    | some tree =>
      obtain ⟨htree, g, hfunc, hposition, hlabels, hm'⟩ := henter
      obtain ⟨locals, hitems⟩ := hm'.frames
      obtain ⟨body, hbody, hcode, hnarrow⟩ := hs.body_of_tree htree
      rw [← hfunc] at hbody
      -- there is no frame below, so the return leads to where the run ends
      have hrun := activation_alike hitems rfl hbody hcode (flattens hs limit hnarrow)
      rw [place_self hitems hposition hlabels] at hrun
      refine hrun.trans ?_
      dsimp only
      rw [bind_apply]
      have hleads := activation_leads s.safe_true (evaluate_inside (s := s) limit tree) m' hm'
      cases hu : activation s (evaluate s limit tree) m' with
      | error e m'' => exact .refl _
      | ok u m'' =>
        rw [hu] at hleads
        refine .of_eq ?_
        change takeTurns s u (m''.withFrames []) = .ok () m''
        rw [withFrames_self hleads.1, takeTurns_of_nil s hleads.1]

/-! ### Runs -/

/-- An action that does not look at positions does the same after results that are alike. -/
theorem Alike.bind {a b : Exec σ α} {β : Type} {m : Machine σ} {k : α → Exec σ β}
    (h : Alike (a m) (b m)) (hk : ∀ x, Follows bare (k x) (k x)) :
    Alike ((a >>= k) m) ((b >>= k) m) := by
  unfold Alike at h ⊢
  rw [bind_apply, bind_apply]
  cases ha : a m with
  | ok x m₁ =>
    cases hb : b m with
    | ok y m₂ =>
      -- both go on, with the same value, from states that differ in positions only
      rw [ha, hb] at h
      injection h with hx hm
      rw [← hx]
      calc mapState bare (k x m₁)
          = k x m₁.bare := (hk x m₁).symm
        _ = k x m₂.bare := congrArg (k x) hm
        _ = mapState bare (k x m₂) := hk x m₂
    | error e m₂ =>
      rw [ha, hb] at h
      cases h
  | error e m₁ =>
    cases hb : b m with
    | ok y m₂ =>
      rw [ha, hb] at h
      cases h
    | error e' m₂ =>
      rw [ha, hb] at h
      injection h with he hm
      rw [he]
      exact Alike.error hm

theorem onOperands_bare (action : Operands α) :
    Follows (bare (σ := σ)) (onOperands action) (onOperands action) :=
  onOperands_along (f := bare) (fun _ => rfl) (fun _ _ => rfl) action

theorem takeResult_bare (type : FuncType) :
    Follows bare (takeResult s type) (takeResult s type) := by
  unfold takeResult
  cases type.results.head? with
  | none => exact .pure none
  | some expected => exact (onOperands_bare _).bind fun v => .ite (.pure _) (.throw _)

/-- **A run** is the structured evaluation of the call, up to the positions of frames that are still
open when it stops. -/
theorem run_alike (hs : Flat s) (limit func : Nat) (args : List Value) {m : Machine σ}
    (h : m.frames.items = []) :
    Alike (run s limit func args m) (evaluateCall s limit func args m) := by
  unfold run evaluateCall
  cases s.program.funcType? func with
  | none => exact .refl _
  | some type =>
    dsimp only
    split
    · change Alike ((call s func >>= fun _ => takeTurns s limit >>= fun _ => takeResult s type)
          { m with operands := m.operands.pushAll args })
        ((evaluateFunc s limit func >>= fun _ => takeResult s type)
          { m with operands := m.operands.pushAll args })
      -- taking the result comes after the run, and looks at operands only
      rw [← bind_assoc]
      exact (call_takeTurns_alike hs (m := { m with operands := m.operands.pushAll args }) h limit
        func).bind fun _ => takeResult_bare type
    · exact .refl _

/-- What is left of a run does not depend on positions of frames. -/
theorem settle_bare (r : EStateM.Result Stop (Machine σ) (Option Value)) :
    settle s (mapState bare r) = settle s r := by
  have hunwind : ∀ m : Machine σ, unwind s m.bare = unwind s m := fun m => by
    -- as many frames are reported as there are, wherever they are
    unfold unwind bare withFrames
    dsimp only
    rw [Stack.items_ofItems, List.foldl_map]
  cases r with
  | ok result m =>
    rw [mapState_ok]
    unfold settle
    dsimp only
    rw [hunwind]
  | error stop m =>
    rw [mapState_error]
    cases stop with
    | panic p => rfl
    | trap t =>
      unfold settle
      dsimp only
      rw [hunwind]
    | turnLimit =>
      unfold settle
      dsimp only
      rw [hunwind]

theorem settle_alike {r r' : EStateM.Result Stop (Machine σ) (Option Value)} (h : Alike r r') :
    settle s r = settle s r' :=
  calc settle s r
      = settle s (mapState bare r) := (settle_bare r).symm
    _ = settle s (mapState bare r') := congrArg (settle s) h
    _ = settle s r' := settle_bare r'

end Machine

namespace Instance

/-- **Flat control is structured control.** A call of an instance of a compiled program is the
structured evaluation of that call: it has the same outcome within every bound on turns, and leaves
the same store, operands and account. -/
theorem invoke_eq_evaluate {m : Module} (i : Instance) (h : Program.ofModule m = .ok i.program)
    (c : Checkpoint σ) (pricing : Pricing) (limit func : Nat) (args : List Value)
    (operands : OperandStack) (a : σ) :
    i.invoke c pricing limit func args operands a
      = i.evaluate c pricing limit func args operands a := by
  have hflat : Machine.Flat (i.setting c pricing operands.height) := Setting.flat_of_compiled h
  exact Machine.settle_alike (Machine.run_alike hflat limit func args rfl)

/-- An instance whose function goes round a loop until its argument is not zero, and leaves the loop
by a branch to the block around it. -/
def patient : Instance where
  program :=
    { source := {
        types := [{ params := [.i32], results := [.i32] }]
        funcs := [0]
        codes := [{
          locals := []
          body := [0x02, 0x40, 0x03, 0x40, 0x20, 0x00, 0x0d, 0x01, 0x41, 0x01, 0x21, 0x00, 0x0c,
            0x00, 0x0b, 0x0b, 0x20, 0x00, 0x0b] }] }
      signatures := #[some { params := [.i32], results := [.i32] }]
      imported := 0
      bodies := #[{
        locals := #[]
        code := #[.block 0 8, .loop, .op (.localGet 0), .op (.brIf 1), .op (.const (.i32 1)),
          .op (.localSet 0), .op (.br 0), .endMark, .endMark, .op (.localGet 0), .endMark] }] }
  host := #[]
  store := { memory := none, table := none, globals := #[] }

/-- The loop is restarted once and then left. -/
theorem patient_invoke_eq_evaluate :
    let account : Budget := { ink := 100, depth := 1 }
    Program.ofModule patient.program.source = .ok patient.program ∧
      patient.invoke Budget.checkpoint {} 20 0 [.i32 0] .empty account
        = patient.evaluate Budget.checkpoint {} 20 0 [.i32 0] .empty account ∧
      (patient.evaluate Budget.checkpoint {} 20 0 [.i32 0] .empty account).outcome
        = .ok (some (.i32 1)) := by
  have hcompiled : Program.ofModule patient.program.source = .ok patient.program := by cbv
  exact ⟨hcompiled, patient.invoke_eq_evaluate hcompiled Budget.checkpoint {} 20 0 [.i32 0] .empty
    { ink := 100, depth := 1 }, by cbv⟩

end Instance

end MeteredSandbox
