import MeteredSandbox.Machine.Checkpoint
import MeteredSandbox.Proofs.Following

/-!
# Recorded checkpoints

A machine and its checkpoint exchange three kinds of **events**: the machine asks for the price of
an instruction or of locals, it asks for leave to open a frame, and it reports that a frame is
closed. `Checkpoint.recorded` is a checkpoint that answers like a given one and keeps, next to the
state of that one, the list of all events so far with the answers in them. Whoever runs a machine
with it learns what has been exchanged and in which order.

The list changes no answer: the checkpoint that is recorded follows along the map that forgets the
list (`Checkpoint.recorded_follows`).
-/

namespace MeteredSandbox

variable {σ τ : Type}

/-- What passes between a machine and its checkpoint. A question has the trap that refuses it, if it
is refused. -/
inductive Event where
  | charge (cost : Nat) (refusal : Option Trap)
  | enter (refusal : Option Trap)
  | leave
  deriving DecidableEq

/-- A question, with the event that it makes of the answer written down. -/
def recordAnswer (event : Option Trap → Event) (question : EStateM Trap σ Unit) :
    EStateM Trap (σ × List Event) Unit := fun (a, events) =>
  match question a with
  | .ok () a => .ok () (a, events ++ [event none])
  | .error t a => .error t (a, events ++ [event (some t)])

theorem recordAnswer_of_ok (event : Option Trap → Event) {question : EStateM Trap σ Unit} {a a' : σ}
    (h : question a = .ok () a') (events : List Event) :
    recordAnswer event question (a, events) = .ok () (a', events ++ [event none]) := by
  unfold recordAnswer
  dsimp only
  rw [h]

theorem recordAnswer_of_error (event : Option Trap → Event) {question : EStateM Trap σ Unit}
    {a a' : σ} {t : Trap} (h : question a = .error t a') (events : List Event) :
    recordAnswer event question (a, events) = .error t (a', events ++ [event (some t)]) := by
  unfold recordAnswer
  dsimp only
  rw [h]

theorem recordAnswer_follows (event : Option Trap → Event) (question : EStateM Trap σ Unit) :
    Follows Prod.fst (recordAnswer event question) question := by
  rintro ⟨a, events⟩
  unfold recordAnswer
  dsimp only
  cases question a with
  | ok x a => rfl
  | error t a => rfl

namespace Checkpoint

/-- One checkpoint answers as another does, on a state that is mapped. -/
structure FollowsAlong (f : σ → τ) (c : Checkpoint σ) (d : Checkpoint τ) : Prop where
  charge : ∀ cost, Follows f (c.charge cost) (d.charge cost)
  enterFrame : Follows f c.enterFrame d.enterFrame
  leaveFrame : ∀ a, d.leaveFrame (f a) = f (c.leaveFrame a)

theorem FollowsAlong.refl (c : Checkpoint σ) : FollowsAlong id c c where
  charge cost := .refl (c.charge cost)
  enterFrame := .refl c.enterFrame
  leaveFrame _ := rfl

/-- The checkpoint with a list of everything that it has been asked and told, the oldest first. -/
def recorded (c : Checkpoint σ) : Checkpoint (σ × List Event) where
  charge cost := recordAnswer (.charge cost) (c.charge cost)
  enterFrame := recordAnswer .enter c.enterFrame
  leaveFrame p := (c.leaveFrame p.1, p.2 ++ [.leave])

/-- A record changes no answer. -/
theorem recorded_follows (c : Checkpoint σ) : FollowsAlong Prod.fst c.recorded c where
  charge cost := recordAnswer_follows (.charge cost) (c.charge cost)
  enterFrame := recordAnswer_follows .enter c.enterFrame
  leaveFrame _ := rfl

end Checkpoint

end MeteredSandbox
