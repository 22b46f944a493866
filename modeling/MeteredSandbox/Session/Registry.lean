import MeteredSandbox.Catalog.Basic
import MeteredSandbox.Instance.Basic
import MeteredSandbox.Meter
import MeteredSandbox.Outcome

/-!
# Registries

Linking a program makes an instance of it with meters of its own, and hands out a handle. The
registry knows what every handle stands for, until it is unlinked. Handles count upwards and are
never used again, so that there are only as many as a counter of 32 bits can number.
-/

namespace MeteredSandbox

/-- Stands for a linked program. -/
structure Handle where
  number : Nat
  deriving DecidableEq

/-- A handle as shown in messages. -/
def Handle.text (h : Handle) : String := s!"#{h.number}"

/-- An instance of an admitted program, with its meters. -/
structure LinkedProgram where
  entry : CatalogEntry
  guest : Instance
  meters : Meters := {}

namespace LinkedProgram

/-- Calls a function without arguments, on top of an operand stack and under guard. The depth that
may still be used is afterwards what it was before, whatever happened. -/
def call (p : LinkedProgram) (pricing : Pricing) (limit func : Nat) (operands : OperandStack) :
    Outcome × OperandStack × LinkedProgram :=
  guarded operands fun operands =>
    let run := p.guest.invoke Meters.checkpoint pricing limit func [] operands p.meters
    let depth := run.account.depth.restore p.meters.depth.remaining
    (run.outcome, run.operands, { p with
      guest := { p.guest with store := run.store }
      meters := { run.account with depth } })

end LinkedProgram

/-- Why a program cannot be linked. -/
inductive LinkFailure where
  | unknownDigest (digest : Digest)
  | instantiation (digest : Digest) (error : LinkError)
  /-- The numbers for handles are used up. -/
  | handlesExhausted
  deriving DecidableEq

/-- The message of a failure to link. -/
def LinkFailure.message : LinkFailure → String
  | unknownDigest digest => s!"no program with digest {digest.hex} in the catalog"
  | instantiation digest error => s!"failed to instantiate {digest.hex}: {error.message}"
  | handlesExhausted => "module handle space exhausted"

/-- The linked programs over a catalog. -/
structure Registry where
  catalog : Catalog
  /-- What guests may import. -/
  resolver : Resolver
  /-- Counts the handles that were handed out. -/
  counter : UInt32 := 0
  linked : List (Handle × LinkedProgram) := []

namespace Registry

/-- The number of the next handle. -/
def next (r : Registry) : Nat := r.counter.toNat

/-- What a handle stands for. -/
def get? (r : Registry) (h : Handle) : Option LinkedProgram := r.linked.lookup h

/-- Whether a handle stands for something. -/
def isLinked (r : Registry) (h : Handle) : Bool := (r.get? h).isSome

/-- Whether a handle was ever handed out. -/
def isIssued (r : Registry) (h : Handle) : Bool := h.number < r.next

/-- The number of linked programs. -/
def size (r : Registry) : Nat := r.linked.length

/-- The prices that linked programs are charged. -/
def pricing (r : Registry) : Pricing := r.catalog.policy.pricing

/-- Whether the counter can go on, so that a handle can be handed out. -/
def HasRoom (r : Registry) : Prop := r.next + 1 < 0x1_0000_0000

instance (r : Registry) : Decidable r.HasRoom := inferInstanceAs (Decidable (r.next + 1 < _))

/-- Handles are used up when the counter has come to its end. -/
theorem not_hasRoom_iff (r : Registry) : ¬ r.HasRoom ↔ r.next = 0xFFFF_FFFF := by
  have hnext : r.next < 0x1_0000_0000 := r.counter.toNat_lt
  unfold HasRoom
  omega

/-- Makes an instance of a program under a fresh handle, if there is one. Nothing changes on
failure. -/
def link (digest : Digest) : EStateM LinkFailure Registry Handle := fun r =>
  match r.catalog.get? digest with
  | none => .error (.unknownDigest digest) r
  | some entry =>
    match instantiate entry.program r.resolver with
    | .error e => .error (.instantiation digest e) r
    | .ok guest =>
      if r.HasRoom then
        let h : Handle := ⟨r.next⟩
        .ok h { r with counter := r.counter + 1, linked := r.linked ++ [(h, { entry, guest })] }
      else .error .handlesExhausted r

/-- Forgets what a handle stands for. -/
def erase (r : Registry) (h : Handle) : Registry :=
  { r with linked := r.linked.filter fun (k, _) => k ≠ h }

/-- Unlinks a program, if the handle stands for one. -/
def unlink? (r : Registry) (h : Handle) : Option Registry :=
  if r.isLinked h then some (r.erase h) else none

/-- Changes what a handle stands for. -/
def update (r : Registry) (h : Handle) (p : LinkedProgram) : Registry :=
  { r with linked := r.linked.map fun (k, q) => if k = h then (k, p) else (k, q) }

/-- The registry as shown to a developer. -/
def debugText (r : Registry) : String :=
  s!"ModuleRegistry \x7b programs: {r.catalog.size}, linked: {r.size}, .. \x7d"

end Registry

end MeteredSandbox
