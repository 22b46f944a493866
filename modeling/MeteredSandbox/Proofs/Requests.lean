import MeteredSandbox.Proofs.Guarding
import MeteredSandbox.Session.Host

/-!
# Requests in normal form

What a session answers to a request, and the desk that it leaves, in one equation for each kind of
request. A session that fits its registry (`Desk.Sound`) checks the handle that is named, and most
requests are then **jobs** (`Request.job?`): they look at the linked program behind the handle, and
put another one in its place or leave it alone (`Request.perform_job`). Linking, unlinking, halting
and the two requests for operands have equations of their own.

A job is a function of the prices, the operands and the linked program, of nothing else in the
registry and of no other handle. That is what the frame conditions of sessions rest on.
-/

namespace MeteredSandbox

/-! ### Look-ups -/

namespace Registry

variable (r : Registry) (h k : Handle)

theorem get?_update (p : LinkedProgram) :
    (r.update h p).get? k = if k = h then (r.get? h).map fun _ => p else r.get? k := by
  unfold get? update
  dsimp only
  induction r.linked with
  | nil =>
    split
    · rfl
    · rfl
  | cons pair rest ih =>
    obtain ⟨key, q⟩ := pair
    rw [List.map_cons]
    by_cases hkey : key = h
    · subst hkey
      rw [if_pos rfl]
      by_cases hk : k = key
      · subst hk
        simp
      · simp only [List.lookup_cons, beq_eq_false_iff_ne.mpr hk, if_neg hk] at ih ⊢
        exact ih
    · rw [if_neg hkey]
      by_cases hk : k = key
      · subst hk
        simp [hkey]
      · have hh : (h == key) = false := beq_eq_false_iff_ne.mpr (Ne.symm hkey)
        simp only [List.lookup_cons, beq_eq_false_iff_ne.mpr hk, hh]
        exact ih

theorem get?_update_of_ne {h k : Handle} (hk : k ≠ h) (p : LinkedProgram) :
    (r.update h p).get? k = r.get? k := by
  rw [get?_update, if_neg hk]

theorem get?_update_self {p : LinkedProgram} (hp : r.get? h = some p) (p' : LinkedProgram) :
    (r.update h p').get? h = some p' := by
  rw [get?_update, if_pos rfl, hp, Option.map_some]

theorem get?_erase : (r.erase h).get? k = if k = h then none else r.get? k := by
  unfold get? erase
  dsimp only
  induction r.linked with
  | nil =>
    split
    · rfl
    · rfl
  | cons pair rest ih =>
    obtain ⟨key, q⟩ := pair
    by_cases hkey : key = h
    · subst hkey
      rw [List.filter_cons_of_neg (by simp)]
      by_cases hk : k = key
      · rw [if_pos hk] at ih ⊢
        exact ih
      · rw [if_neg hk] at ih ⊢
        rw [ih, List.lookup_cons, beq_eq_false_iff_ne.mpr hk]
    · rw [List.filter_cons_of_pos (by simpa using hkey), List.lookup_cons, List.lookup_cons]
      by_cases hk : k = key
      · subst hk
        simp [hkey]
      · rw [beq_eq_false_iff_ne.mpr hk]
        exact ih

theorem get?_erase_of_ne {h k : Handle} (hk : k ≠ h) : (r.erase h).get? k = r.get? k := by
  rw [get?_erase, if_neg hk]

theorem get?_foldl_erase (handles : List Handle) :
    (handles.foldl erase r).get? k = if k ∈ handles then none else r.get? k := by
  induction handles generalizing r with
  | nil => rw [if_neg List.not_mem_nil, List.foldl_nil]
  | cons h rest ih =>
    rw [List.foldl_cons, ih, get?_erase]
    by_cases hrest : k ∈ rest
    · rw [if_pos hrest, if_pos (List.mem_cons_of_mem h hrest)]
    · rw [if_neg hrest]
      simp only [List.mem_cons, hrest, or_false]

theorem next_foldl_erase (handles : List Handle) :
    (handles.foldl erase r).next = r.next := by
  induction handles generalizing r with
  | nil => rfl
  | cons h rest ih => exact ih (r.erase h)

/-- The program that linking a digest puts behind the next handle. -/
def produce (r : Registry) (digest : Digest) : Except LinkFailure LinkedProgram :=
  match r.catalog.get? digest with
  | none => .error (.unknownDigest digest)
  | some entry =>
    match instantiate entry.program r.resolver with
    | .error e => .error (.instantiation digest e)
    | .ok guest => .ok { entry, guest }

/-- Puts a program behind the next handle. -/
def issue (p : LinkedProgram) (r : Registry) : Registry :=
  { r with counter := r.counter + 1, linked := r.linked ++ [(⟨r.next⟩, p)] }

theorem link_apply (digest : Digest) : link digest r = match r.produce digest with
    | .error e => .error e r
    | .ok p =>
      if r.HasRoom then .ok ⟨r.next⟩ (r.issue p) else .error .handlesExhausted r := by
  unfold link produce
  cases r.catalog.get? digest with
  | none => rfl
  | some entry =>
    dsimp only
    cases instantiate entry.program r.resolver with
    | error e => rfl
    | ok guest => rfl

/-- No budget of a new program is set. -/
theorem meters_of_produce {digest : Digest} {p : LinkedProgram} (hp : r.produce digest = .ok p) :
    p.meters = {} := by
  unfold produce at hp
  split at hp
  next => cases hp
  next =>
    split at hp
    next => cases hp
    next => cases hp; rfl

/-- Whatever is linked was issued. -/
def Fresh : Prop := ∀ k, (r.get? k).isSome → k.number < r.next

variable {r}

/-! A link fails for one of three reasons. -/

theorem link_of_unknown {digest : Digest} (hget : r.catalog.get? digest = none) :
    link digest r = .error (.unknownDigest digest) r := by
  unfold link
  rw [hget]

theorem link_of_error {digest : Digest} {entry : CatalogEntry} {e : LinkError}
    (hget : r.catalog.get? digest = some entry)
    (hmake : instantiate entry.program r.resolver = .error e) :
    link digest r = .error (.instantiation digest e) r := by
  unfold link
  rw [hget]
  dsimp only
  rw [hmake]

theorem link_of_full {digest : Digest} {entry : CatalogEntry} {guest : Instance}
    (hget : r.catalog.get? digest = some entry)
    (hmake : instantiate entry.program r.resolver = .ok guest) (hfull : r.next = 0xFFFF_FFFF) :
    link digest r = .error .handlesExhausted r := by
  unfold link
  rw [hget]
  dsimp only
  rw [hmake]
  exact if_neg (r.not_hasRoom_iff.mpr hfull)

/-- With room for it, the counter goes on by one. -/
theorem next_issue (hroom : r.HasRoom) (p : LinkedProgram) : (r.issue p).next = r.next + 1 :=
  (UInt32.toNat_add r.counter 1).trans (Nat.mod_eq_of_lt hroom)

theorem Fresh.get?_issue (hr : r.Fresh) (p : LinkedProgram) (k : Handle) :
    (r.issue p).get? k = if k = ⟨r.next⟩ then some p else r.get? k := by
  change List.lookup k (r.linked ++ [(⟨r.next⟩, p)]) = if k = ⟨r.next⟩ then some p else r.get? k
  rw [List.lookup_append]
  by_cases hk : k = ⟨r.next⟩
  · have hnone : r.linked.lookup k = none := by
      rw [← Option.not_isSome_iff_eq_none]
      intro hsome
      have hlt : k.number < r.next := hr k hsome
      rw [hk] at hlt
      exact absurd hlt (lt_irrefl _)
    rw [if_pos hk, hnone, Option.none_or, List.lookup_cons, beq_iff_eq.mpr hk]
  · rw [if_neg hk, List.lookup_cons, beq_eq_false_iff_ne.mpr hk]
    exact Option.or_none

theorem Fresh.update (hr : r.Fresh) (h : Handle) (p : LinkedProgram) : (r.update h p).Fresh := by
  intro k hk
  rw [get?_update] at hk
  split at hk
  next heq =>
    rw [Option.isSome_map, ← heq] at hk
    exact hr k hk
  next => exact hr k hk

theorem Fresh.erase (hr : r.Fresh) (h : Handle) : (r.erase h).Fresh := by
  intro k hk
  rw [get?_erase] at hk
  split at hk
  next => cases hk
  next => exact hr k hk

theorem Fresh.foldl_erase (hr : r.Fresh) (handles : List Handle) :
    (handles.foldl Registry.erase r).Fresh := by
  intro k hk
  rw [get?_foldl_erase] at hk
  rw [next_foldl_erase]
  split at hk
  next => cases hk
  next => exact hr k hk

theorem Fresh.issue (hr : r.Fresh) (p : LinkedProgram) (hroom : r.HasRoom) :
    (r.issue p).Fresh := by
  intro k hk
  rw [hr.get?_issue] at hk
  rw [next_issue hroom]
  split at hk
  next heq =>
    rw [heq]
    exact Nat.lt_succ_self _
  next => exact (hr k hk).trans (Nat.lt_succ_self _)

end Registry

/-! ### Requests in normal form -/

namespace Desk

/-- What a session finds behind a handle for an operation: a linked program, or a reason why it may
not work with it. -/
def check (operation : Operation) (h : Handle) (d : Desk) : Except SessionError LinkedProgram :=
  if d.session.phase = .halted then .error (.notAllowed operation d.session.phase)
  else if h ∉ d.session.owned then .error (.notLinked h)
  else
    match d.registry.get? h with
    | some p => .ok p
    | none => .error (.notLinked h)

/-- A session and a registry that fit together. -/
structure Sound (d : Desk) : Prop where
  fresh : d.registry.Fresh
  /-- What is owned is linked. -/
  owned : ∀ k ∈ d.session.owned, (d.registry.get? k).isSome
  /-- The phase is that of the handles, or the session is halted and owns none. -/
  phase : d.session.phase = .halted ∧ d.session.owned = [] ∨ d.session.phase = d.settledPhase

variable {d : Desk}

/-- A session that is open and fits has settled already. -/
theorem Sound.settle_eq (hd : d.Sound) (h : d.session.phase ≠ .halted) : d.settle = d := by
  rcases hd.phase with ⟨hhalted, -⟩ | hphase
  · exact absurd hhalted h
  · unfold settle setPhase
    rw [← hphase]

/-- The three answers of a check. -/
theorem check_eq_ok {operation : Operation} {h : Handle} {p : LinkedProgram}
    (hp : d.check operation h = .ok p) :
    d.session.phase ≠ .halted ∧ h ∈ d.session.owned ∧ d.registry.get? h = some p := by
  unfold check at hp
  split at hp
  next => cases hp
  next hphase =>
    split at hp
    next => cases hp
    next howned =>
      split at hp
      next q hq =>
        cases hp
        exact ⟨hphase, not_not.mp howned, hq⟩
      next => cases hp

theorem check_of_halted (operation : Operation) (h : Handle) (hphase : d.session.phase = .halted) :
    d.check operation h = .error (.notAllowed operation d.session.phase) := if_pos hphase

theorem check_of_not_mem (operation : Operation) {h : Handle} (hphase : d.session.phase ≠ .halted)
    (howned : h ∉ d.session.owned) : d.check operation h = .error (.notLinked h) := by
  unfold check
  rw [if_neg hphase, if_pos howned]

theorem check_of_get? (operation : Operation) {h : Handle} {p : LinkedProgram}
    (hphase : d.session.phase ≠ .halted) (howned : h ∈ d.session.owned)
    (hp : d.registry.get? h = some p) : d.check operation h = .ok p := by
  unfold check
  rw [if_neg hphase, if_neg (not_not.mpr howned), hp]

end Desk

namespace Session

variable (operation : Operation) (h : Handle) (d : Desk)

/-- An operation that is refused once the session is halted. -/
theorem requireOpen_bind_apply {α : Type} (k : Unit → SessionM α) :
    (requireOpen operation >>= k) d =
      if d.session.phase = .halted then .error (.notAllowed operation d.session.phase) d
      else k () d := by
  unfold requireOpen
  rw [bind_assoc, get_bind_apply]
  by_cases hphase : d.session.phase = .halted
  · dsimp only
    rw [if_pos hphase, if_pos hphase]
    rfl
  · dsimp only
    rw [if_neg hphase, if_neg hphase]
    rfl

/-- An operation on a handle that the session must own. -/
theorem requireOwned_bind_apply {α : Type} (k : Unit → SessionM α) :
    (requireOwned h >>= k) d =
      if h ∉ d.session.owned then .error (.notLinked h) d else k () d := by
  unfold requireOwned
  rw [bind_assoc, get_bind_apply]
  split
  · rfl
  · rfl

theorem lookup_apply : lookup h d = match d.registry.get? h with
    | some p => .ok p d
    | none => .error (.notLinked h) d := by
  unfold lookup
  rw [get_bind_apply]
  cases d.registry.get? h with
  | none => rfl
  | some p => rfl

theorem require_apply : require operation h d = match d.check operation h with
    | .ok p => .ok p d
    | .error e => .error e d := by
  unfold require Desk.check
  rw [requireOpen_bind_apply, requireOwned_bind_apply, lookup_apply]
  split
  · rfl
  split
  · rfl
  cases d.registry.get? h with
  | none => rfl
  | some p => rfl

end Session

/-! ### Jobs -/

/-- What comes of looking at a linked program: a reason to refuse, or an answer and perhaps another
program in the place of this one. -/
abbrev Result (α : Type) := Except SessionError (α × Option LinkedProgram)

/-- Work with the linked program behind a handle. -/
structure Job where
  operation : Operation
  handle : Handle
  work : Pricing → OperandStack → LinkedProgram → Result Reply

namespace LinkedProgram

/-- A call of a function of a linked program, which must have both budgets. -/
def serve (p : LinkedProgram) (limit : Nat) (h : Handle) (func : Nat) (pricing : Pricing)
    (operands : OperandStack) : Result Outcome :=
  if p.meters.configured then
    .ok ((p.call pricing limit func operands).1, some (p.call pricing limit func operands).2.2)
  else .error (.unconfigured h)

/-- A call of an entry point. -/
def serveEntry (p : LinkedProgram) (limit : Nat) (h : Handle) (selector : Int) (pricing : Pricing)
    (operands : OperandStack) : Result Outcome :=
  match p.entry.entry? selector with
  | none => .error (.unknownSelector h selector)
  | some func => p.serve limit h func pricing operands

/-- A call of the start function. -/
def serveStart (p : LinkedProgram) (limit : Nat) (h : Handle) (pricing : Pricing)
    (operands : OperandStack) : Result Outcome :=
  match p.entry.start with
  | none => .ok (.success none, none)
  | some func => p.serve limit h func pricing operands

end LinkedProgram

namespace Request

/-- The job that a request comes to, unless it links, unlinks, halts or works on operands. -/
def job? (limit : Nat) : Request → Option Job
  | setInk h budget => some ⟨.setInk, h, fun _ _ p =>
      .ok (.done, some { p with meters := { p.meters with ink := p.meters.ink.set budget } })⟩
  | setDepth h depth => some ⟨.setDepth, h, fun _ _ p =>
      .ok (.done, some { p with meters := { p.meters with depth := p.meters.depth.set depth } })⟩
  | inkLeft h => some ⟨.inkLeft, h, fun _ _ p => .ok (.ink p.meters.ink.remaining, none)⟩
  | inkStatus h => some ⟨.inkStatus, h, fun _ _ p => .ok (.status p.meters.ink.status, none)⟩
  | depthLeft h => some ⟨.depthLeft, h, fun _ _ p => .ok (.depth p.meters.depth.remaining, none)⟩
  | callEntry h selector => some ⟨.callEntry, h, fun pricing operands p =>
      (p.serveEntry limit h selector pricing operands).map (Prod.map .outcome id)⟩
  | runStart h => some ⟨.runStart, h, fun pricing operands p =>
      (p.serveStart limit h pricing operands).map (Prod.map .outcome id)⟩
  | link _ | unlink _ | halt | pushOperand _ | popOperand => none

/-- A job is about the handle that the request names. -/
theorem handle?_of_job {limit : Nat} {r : Request} {j : Job} (hj : r.job? limit = some j) :
    r.handle? = some j.handle := by
  cases r with
  | setInk | setDepth | inkLeft | inkStatus | depthLeft | callEntry | runStart =>
    cases hj
    rfl
  | link | unlink | halt | pushOperand | popOperand => cases hj

end Request

namespace Desk

/-- Draws the conclusion from a result: the other program is put in place. -/
def conclude {α : Type} (h : Handle) (d : Desk) : Result α → EStateM.Result SessionError Desk α
  | .error e => .error e d
  | .ok (a, none) => .ok a d
  | .ok (a, some p) => .ok a (d.update h p)

/-- A job is checked and carried out, and then the session settles. -/
def carryOut (j : Job) (d : Desk) : EStateM.Result SessionError Desk Reply :=
  match d.check j.operation j.handle with
  | .error e => .error e d
  | .ok p =>
    mapState settle (d.conclude j.handle (j.work d.registry.pricing d.session.operands p))

/-- Links a program and settles. -/
def adopt (p : LinkedProgram) (d : Desk) : Desk :=
  settle {
    registry := d.registry.issue p
    session := { d.session with
      owned := d.session.owned ++ [⟨d.registry.next⟩], everLinked := true } }

/-- Unlinks a program and settles. -/
def abandon (h : Handle) (d : Desk) : Desk :=
  settle {
    registry := d.registry.erase h
    session := { d.session with owned := d.session.owned.filter (· ≠ h) } }

/-- Closes the session. -/
def close (d : Desk) : Desk := (d.setPhase .halted).setOperands .empty

end Desk

namespace Session

variable {d : Desk}

/-- A query is a job that leaves the linked program alone. A session that fits has settled. -/
theorem query_apply {α : Type} {operation : Operation} {h : Handle} (hd : d.Sound)
    (answer : α → Reply) (f : LinkedProgram → α) :
    (answer <$> do return f (← require operation h)) d
      = d.carryOut ⟨operation, h, fun _ _ p => .ok (answer (f p), none)⟩ := by
  rw [← bind_pure_comp, bind_assoc, bind_apply, require_apply, Desk.carryOut]
  dsimp only
  cases hcheck : d.check operation h with
  | error e => rfl
  | ok p => exact congrArg (EStateM.Result.ok _) (hd.settle_eq (Desk.check_eq_ok hcheck).1).symm

/-- Setting a budget is a job that replaces the linked program. -/
theorem modify_apply {operation : Operation} {h : Handle} (f : LinkedProgram → LinkedProgram) :
    (Request.done do
      let p ← require operation h
      modify fun d => (d.update h (f p)).settle) d
      = d.carryOut ⟨operation, h, fun _ _ p => .ok (.done, some (f p))⟩ := by
  rw [Request.done, bind_assoc, bind_apply, require_apply, Desk.carryOut]
  dsimp only
  cases d.check operation h with
  | error e => rfl
  | ok p => rfl

theorem callFunction_apply (limit : Nat) (h : Handle) (p : LinkedProgram) (func : Nat) (d : Desk) :
    callFunction limit h p func d
      = d.conclude h (p.serve limit h func d.registry.pricing d.session.operands) := by
  unfold callFunction LinkedProgram.serve
  by_cases hconfigured : p.meters.configured = true
  · have hoperands := p.call_operands d.registry.pricing limit func d.session.operands
    rw [if_pos hconfigured, if_pos hconfigured]
    change EStateM.Result.ok _ (((d.update h _).setOperands
      (p.call d.registry.pricing limit func d.session.operands).2.1)) = _
    rw [hoperands]
    rfl
  · rw [if_neg hconfigured, if_neg hconfigured]
    rfl

/-- A job that calls a guest. The phase of a running guest is gone when the session settles. -/
theorem whileInvoking_apply {operation : Operation} {h : Handle} (hd : d.Sound)
    {k : LinkedProgram → SessionM Outcome}
    (work : Pricing → OperandStack → LinkedProgram → Result Outcome)
    (hk : ∀ p d, k p d = d.conclude h (work d.registry.pricing d.session.operands p)) :
    (Reply.outcome <$> do
      requireOpen operation
      requireOwned h
      whileInvoking (lookup h >>= k)) d
      = d.carryOut ⟨operation, h, fun pricing operands p =>
          (work pricing operands p).map (Prod.map Reply.outcome id)⟩ := by
  rw [← bind_pure_comp, bind_assoc, requireOpen_bind_apply, bind_assoc, requireOwned_bind_apply]
  by_cases hphase : d.session.phase = .halted
  · rw [if_pos hphase, Desk.carryOut, Desk.check_of_halted operation h hphase]
  rw [if_neg hphase]
  by_cases howned : h ∉ d.session.owned
  · rw [if_pos howned, Desk.carryOut, Desk.check_of_not_mem operation hphase howned]
  rw [if_neg howned]
  rw [bind_apply, whileInvoking, bind_apply, lookup_apply]
  cases hget : d.registry.get? h with
  | none =>
    -- Not reached when the session is sound; the answer would be the same.
    have hcheck : d.check operation h = .error (.notLinked h) := by
      unfold Desk.check
      rw [if_neg hphase, if_neg howned, hget]
    have hget' : (d.setPhase .invoking).registry.get? h = none := hget
    rw [Desk.carryOut, hcheck, hget']
    change EStateM.Result.error _ d.settle = _
    rw [hd.settle_eq hphase]
  | some p =>
    have hget' : (d.setPhase .invoking).registry.get? h = some p := hget
    rw [Desk.carryOut, Desk.check_of_get? operation hphase (not_not.mp howned) hget, hget']
    dsimp only
    rw [hk]
    have hwork : work (d.setPhase .invoking).registry.pricing
          (d.setPhase .invoking).session.operands p
        = work d.registry.pricing d.session.operands p := rfl
    rw [hwork]
    rcases work d.registry.pricing d.session.operands p with e | ⟨outcome, _ | p'⟩
    · rfl
    · rfl
    · rfl

end Session

namespace Request

/-- **A job is carried out.** -/
theorem perform_job {limit : Nat} {r : Request} {j : Job} (hj : r.job? limit = some j) {d : Desk}
    (hd : d.Sound) : r.perform limit d = d.carryOut j := by
  cases r with
  | setInk h budget => cases hj; exact Session.modify_apply _
  | setDepth h depth => cases hj; exact Session.modify_apply _
  | inkLeft h => cases hj; exact Session.query_apply hd .ink fun p => p.meters.ink.remaining
  | inkStatus h => cases hj; exact Session.query_apply hd .status fun p => p.meters.ink.status
  | depthLeft h => cases hj; exact Session.query_apply hd .depth fun p => p.meters.depth.remaining
  | callEntry h selector =>
    cases hj
    refine Session.whileInvoking_apply hd
      (fun pricing operands p => p.serveEntry limit h selector pricing operands) fun p d => ?_
    unfold LinkedProgram.serveEntry
    cases p.entry.entry? selector with
    | none => rfl
    | some func => exact Session.callFunction_apply limit h p func d
  | runStart h =>
    cases hj
    refine Session.whileInvoking_apply hd
      (fun pricing operands p => p.serveStart limit h pricing operands) fun p d => ?_
    unfold LinkedProgram.serveStart
    cases p.entry.start with
    | none => rfl
    | some func => exact Session.callFunction_apply limit h p func d
  | link digest => cases hj
  | unlink h => cases hj
  | halt => cases hj
  | pushOperand v => cases hj
  | popOperand => cases hj

variable (limit : Nat) (d : Desk)

theorem perform_link (digest : Digest) : (link digest).perform limit d =
    if d.session.phase = .halted then .error (.notAllowed .link d.session.phase) d
    else match d.registry.produce digest with
      | .error e => .error (.link e) d
      | .ok p =>
        if d.registry.HasRoom then .ok (.linked ⟨d.registry.next⟩) (d.adopt p)
        else .error (.link .handlesExhausted) d := by
  change (Reply.linked <$> Session.link digest) d = _
  unfold Session.link
  rw [← bind_pure_comp, bind_assoc, Session.requireOpen_bind_apply, bind_assoc, get_bind_apply,
    Registry.link_apply]
  cases d.registry.produce digest with
  | error e => rfl
  | ok p =>
    dsimp only
    by_cases hroom : d.registry.HasRoom
    · rw [if_pos hroom, if_pos hroom]
      rfl
    · rw [if_neg hroom, if_neg hroom]
      rfl

/-- **What comes of a link**: it fails and leaves the desk alone, or there is a program, room for
it, and a session that may have it. -/
theorem perform_link_cases (digest : Digest) :
    (∃ e, (link digest).perform limit d = .error e d) ∨
      ∃ p, d.session.phase ≠ .halted ∧ d.registry.produce digest = .ok p ∧ d.registry.HasRoom ∧
        (link digest).perform limit d = .ok (.linked ⟨d.registry.next⟩) (d.adopt p) := by
  rw [perform_link]
  by_cases hphase : d.session.phase = .halted
  · exact .inl ⟨_, if_pos hphase⟩
  rw [if_neg hphase]
  cases hproduce : d.registry.produce digest with
  | error e => exact .inl ⟨_, rfl⟩
  | ok p =>
    by_cases hroom : d.registry.HasRoom
    · exact .inr ⟨p, hphase, rfl, hroom, if_pos hroom⟩
    · exact .inl ⟨_, if_neg hroom⟩

variable {d} in
/-- A session that is not halted fails to link what the registry fails to link. -/
theorem perform_link_of_error {digest : Digest} {failure : LinkFailure}
    (hphase : d.session.phase ≠ .halted)
    (hlink : Registry.link digest d.registry = .error failure d.registry) :
    (link digest).perform limit d = .error (.link failure) d := by
  change (Reply.linked <$> Session.link digest) d = _
  unfold Session.link
  rw [← bind_pure_comp, bind_assoc, Session.requireOpen_bind_apply, if_neg hphase, bind_assoc,
    get_bind_apply, hlink]
  rfl

theorem perform_unlink (h : Handle) : (unlink h).perform limit d =
    match d.check .unlink h with
    | .error e => .error e d
    | .ok _ => .ok .done (d.abandon h) := by
  change (done (Session.unlink h)) d = _
  unfold done Session.unlink
  rw [bind_assoc, bind_apply, discard, map_const, Function.comp_apply, ← bind_pure_comp, bind_apply,
    Session.require_apply]
  cases d.check .unlink h with
  | error e => rfl
  | ok p => rfl

theorem perform_halt : halt.perform limit d =
    if d.session.phase = .halted then .error (.notAllowed .halt d.session.phase) d
    else match d.session.phase with
      | .unlinked => .ok .done d.close
      | .linked | .configured => .error (.stillLinked d.session.owned.length) d
      | phase => .error (.notAllowed .halt phase) d := by
  change (done Session.halt) d = _
  unfold done Session.halt
  rw [bind_assoc, Session.requireOpen_bind_apply, bind_assoc, get_bind_apply]
  dsimp only
  cases d.session.phase with
  | idle => rfl
  | linked => rfl
  | configured => rfl
  | invoking => rfl
  | unlinked => rfl
  | halted => rfl

theorem perform_pushOperand (v : Value) : (pushOperand v).perform limit d =
    if d.session.phase = .halted then .error (.notAllowed .pushOperand d.session.phase) d
    else .ok .done (d.setOperands (d.session.operands.push v)) := by
  change (done (Session.pushOperand v)) d = _
  unfold done Session.pushOperand
  rw [bind_assoc, Session.requireOpen_bind_apply]
  rfl

theorem perform_popOperand : popOperand.perform limit d =
    if d.session.phase = .halted then .error (.notAllowed .popOperand d.session.phase) d
    else match d.session.operands.pop? with
      | none => .ok (.operand none) d
      | some (v, operands) => .ok (.operand (some v)) (d.setOperands operands) := by
  change (Reply.operand <$> Session.popOperand) d = _
  unfold Session.popOperand
  rw [← bind_pure_comp, bind_assoc, Session.requireOpen_bind_apply, bind_assoc, get_bind_apply]
  rcases d.session.operands.pop? with _ | ⟨v, operands⟩
  · rfl
  · rfl

end Request

end MeteredSandbox
