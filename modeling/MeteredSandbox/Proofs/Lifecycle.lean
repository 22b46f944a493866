import MeteredSandbox.Proofs.Chronicle

/-!
# The phases of a session

The phase of a session is stored, and several requests write it: linking, unlinking, setting budgets
and calls let the session settle, a call puts it into the phase of a running guest on the way, and
halting overwrites it. What it is settled from lies in two places, the handles of the session and
the meters in a registry that others work on as well.

Whatever is asked of whom, the phase is the one that the past of the session demands
(`Host.Chronicled.lifecycle`). `Chronicle.phaseOf` reads it off the chronicle, without a look at the
host. Apart from what is on record (`Host.Records`) this takes the budgets. A registry knows whether
a budget was ever set (`Host.Reachable.isSet_iff`), and a session asks whether it was set since the
handle was linked. These come to the same, because only the session that owns a handle sets budgets
of it, and it owns the handle from the time when it linked it.
-/

namespace MeteredSandbox

namespace Chronicle

/-- A session has linked a program and has not unlinked it. -/
def Owned (log : Chronicle) (n : Nat) (k : Handle) : Prop := log.Linked n k ∧ ¬ log.Unlinked n k

/-- A session has given a handle the budget of a resource since it linked it. -/
def GrantedSince (log : Chronicle) (n : Nat) (b : Resource) (k : Handle) : Prop :=
  ∃ (recent old : Chronicle) (digest : Digest),
    log = recent ++ .asked n (.link digest) (.ok (.linked k)) :: old ∧
      recent.Did n fun r _ => r.Sets b k

open Classical in
/-- **The phase that the past of a session demands.** -/
noncomputable def phaseOf (log : Chronicle) (n : Nat) : Phase :=
  if log.Halted n then .halted
  else if ∀ k, ¬ log.Linked n k then .idle
  else if ∀ k, ¬ log.Owned n k then .unlinked
  else if ∀ k, log.Owned n k → ∀ b, log.GrantedSince n b k then .configured
  else .linked

variable {log : Chronicle} {n : Nat}

/-- No past demands the phase of a running guest. -/
theorem phaseOf_ne_invoking (log : Chronicle) (n : Nat) : log.phaseOf n ≠ .invoking := by
  unfold phaseOf
  split_ifs <;> exact Phase.noConfusion

theorem mem_requests {r : Request} {reply : Except SessionError Reply} :
    (r, reply) ∈ log.requests ↔ ∃ n, .asked n r reply ∈ log := by
  unfold requests
  rw [List.mem_filterMap]
  constructor
  · rintro ⟨e, hmem, he⟩
    cases e with
    | asked n r' reply' =>
      cases he
      exact ⟨n, hmem⟩
    | opened n => cases he
    | dropped n => cases he
  · rintro ⟨n, hmem⟩
    exact ⟨_, hmem, rfl⟩

end Chronicle

/-! ### Halted sessions -/

namespace Request

/-- The operation that is asked for. -/
def operation : Request → Operation
  | link _ => .link
  | unlink _ => .unlink
  | setInk _ _ => .setInk
  | inkLeft _ => .inkLeft
  | inkStatus _ => .inkStatus
  | setDepth _ _ => .setDepth
  | depthLeft _ => .depthLeft
  | callEntry _ _ => .callEntry
  | runStart _ => .runStart
  | halt => .halt
  | pushOperand _ => .pushOperand
  | popOperand => .popOperand

variable {limit : Nat} {r : Request} {d : Desk}

theorem operation_of_job {j : Job} (hj : r.job? limit = some j) : j.operation = r.operation := by
  cases r with
  | link | unlink | halt | pushOperand | popOperand => cases hj
  | setInk | setDepth | inkLeft | inkStatus | depthLeft | callEntry | runStart => cases hj; rfl

/-- **A halted session refuses everything**, and nothing changes. -/
theorem serve_of_halted (limit : Nat) (r : Request) (hd : d.Sound)
    (hphase : d.session.phase = .halted) :
    r.serve limit d = (.error (.notAllowed r.operation .halted), d) := by
  have hjob : ∀ j, r.job? limit = some j →
      r.serve limit d = (.error (.notAllowed r.operation .halted), d) := by
    intro j hj
    unfold serve
    rw [perform_job hj hd, Desk.carryOut, Desk.check_of_halted _ _ hphase, operation_of_job hj,
      hphase]
    rfl
  cases r with
  | link digest => unfold serve; rw [perform_link, if_pos hphase, hphase]; rfl
  | unlink h => unfold serve; rw [perform_unlink, Desk.check_of_halted _ _ hphase, hphase]; rfl
  | halt => unfold serve; rw [perform_halt, if_pos hphase, hphase]; rfl
  | pushOperand v => unfold serve; rw [perform_pushOperand, if_pos hphase, hphase]; rfl
  | popOperand => unfold serve; rw [perform_popOperand, if_pos hphase, hphase]; rfl
  | setInk | setDepth | inkLeft | inkStatus | depthLeft | callEntry | runStart => exact hjob _ rfl

/-- A session may be halted when it has unlinked everything, and at no other time. -/
theorem serve_halt_iff (limit : Nat) (d : Desk) : (∃ reply, (halt.serve limit d).1 = .ok reply)
    ↔ d.session.phase = .unlinked := by
  unfold serve
  rw [perform_halt]
  cases hphase : d.session.phase with
  | unlinked => exact iff_of_true ⟨.done, rfl⟩ rfl
  | idle | linked | configured | invoking | halted =>
    exact iff_of_false (by rintro ⟨reply, ⟨⟩⟩) Phase.noConfusion

end Request

namespace Host

variable {catalog : Catalog} {resolver : Resolver} {log : Chronicle} {host : Host} {n : Nat}
  {s : Session}

namespace Chronicled

/-- Only the session that owns a handle has set budgets of it, and it has linked it before. -/
theorem grantedSince_iff (h : Chronicled catalog resolver log host) {k : Handle}
    (hlinked : log.Linked n k) (b : Resource) :
    log.GrantedSince n b k ↔ log.requests.Grants b k := by
  constructor
  · rintro ⟨recent, old, digest, rfl, r, reply, hmem, hsets⟩
    have hasked := List.mem_append_left (.asked n (.link digest) (.ok (.linked k)) :: old) hmem
    exact ⟨r, reply, Chronicle.mem_requests.mpr ⟨n, hasked⟩, hsets⟩
  · rintro ⟨r, reply, hmem, hsets⟩
    obtain ⟨n', hasked⟩ := Chronicle.mem_requests.mp hmem
    obtain ⟨recent, old, rfl⟩ : ∃ recent old : Chronicle, log = recent ++ _ :: old :=
      List.append_of_mem hasked
    -- at the time of the request the handle was owned by the session that made it
    have hbefore : old.Linked n' k := by
      obtain ⟨before, s, d, hbefore, hs, hstep, -⟩ := h.asked_at
      have howned : k ∈ s.owned := hstep.owned_of_sets rfl hsets
      exact (((hbefore.records.sessions n' s hs).owned k).mp howned).1
    obtain ⟨r', reply', hlink, ⟨digest, rfl⟩, rfl⟩ := hbefore
    obtain ⟨later, earlier, rfl⟩ : ∃ later earlier : Chronicle, old = later ++ _ :: earlier :=
      List.append_of_mem hlink
    have hsame : n' = n := by
      refine h.records.linked_inj ⟨.link digest, .linked k, ?_, ⟨digest, rfl⟩, rfl⟩ hlinked
      exact List.mem_append_right _ (List.mem_cons_of_mem _ hlink)
    subst hsame
    refine ⟨recent ++ .asked n' r (.ok reply) :: later, earlier, digest, ?_, r, reply, ?_, hsets⟩
    · rw [List.append_assoc, List.cons_append]
    · exact List.mem_append_right _ List.mem_cons_self

/-- A session owns what it has linked and not unlinked. -/
theorem mem_owned (h : Chronicled catalog resolver log host) (hs : host.session? n = some s)
    (k : Handle) : k ∈ s.owned ↔ log.Owned n k := (h.records.sessions n s hs).owned k

/-- The handles of a session are configured when it has given them both budgets since it linked
them. -/
theorem isConfigured_iff (h : Chronicled catalog resolver log host) (hs : host.session? n = some s)
    {k : Handle} (hk : k ∈ s.owned) :
    host.registry.isConfigured k = true ↔ ∀ b, log.GrantedSince n b k := by
  obtain ⟨p, hp⟩ := Option.isSome_iff_exists.mp ((h.sound.sound n s hs).owned k hk)
  have hlinked : log.Linked n k := ((h.mem_owned hs k).mp hk).1
  calc host.registry.isConfigured k = true
      ↔ p.meters.configured = true := by unfold Registry.isConfigured; rw [hp]
    _ ↔ ∀ b, p.meters.IsSet b := p.meters.configured_iff
    _ ↔ ∀ b, log.GrantedSince n b k := forall_congr' fun b =>
      (h.reachable.isSet_iff hp b).trans (h.grantedSince_iff hlinked b).symm

/-- **The phase of a session is the one that its past demands.** -/
theorem phase_eq (h : Chronicled catalog resolver log host) (hs : host.session? n = some s) :
    s.phase = log.phaseOf n := by
  have htold := h.records.sessions n s hs
  have howned := h.mem_owned hs
  unfold Chronicle.phaseOf
  by_cases hhalted : log.Halted n
  · rw [if_pos hhalted]
    exact htold.halted.mpr hhalted
  rw [if_neg hhalted]
  -- the session has settled, so the phase is that of its handles
  have hsettled : s.phase = Desk.settledPhase ⟨host.registry, s⟩ :=
    (h.sound.sound n s hs).phase.resolve_left fun hno => hhalted (htold.halted.mp hno.1)
  have hempty : s.owned = [] ↔ ∀ k, ¬ log.Owned n k := by
    rw [List.eq_nil_iff_forall_not_mem]
    exact forall_congr' fun k => not_congr (howned k)
  have hlinked : s.everLinked = true ↔ ¬ ∀ k, ¬ log.Linked n k :=
    htold.everLinked.trans not_forall_not.symm
  have hconfigured : s.owned.all host.registry.isConfigured = true
      ↔ ∀ k, log.Owned n k → ∀ b, log.GrantedSince n b k := by
    rw [List.all_eq_true]
    refine forall_congr' fun k => ?_
    rw [howned]
    exact forall_congr' fun hk => h.isConfigured_iff hs ((howned k).mpr hk)
  rw [hsettled]
  unfold Desk.settledPhase
  by_cases hnone : ∀ k, ¬ log.Linked n k
  · -- what was never linked is not owned
    have hno : s.owned = [] := hempty.mpr fun k hk => hnone k hk.1
    rw [if_pos hno, if_pos hnone, if_neg fun hever => hlinked.mp hever hnone]
  rw [if_neg hnone]
  by_cases hno : s.owned = []
  · rw [if_pos hno, if_pos (hempty.mp hno), if_pos (hlinked.mpr hnone)]
  rw [if_neg hno, if_neg fun hall => hno (hempty.mpr hall)]
  by_cases hall : s.owned.all host.registry.isConfigured = true
  · rw [if_pos hall, if_pos (hconfigured.mp hall)]
  · rw [if_neg hall, if_neg fun hgranted => hall (hconfigured.mpr hgranted)]

/-- **The life of a session.** Whatever was asked of the sessions of a host, a session that is there
is in the phase that its past demands, and owns what it has linked and not unlinked. The phase is
never that of a running guest. Halting succeeds exactly when the session has unlinked everything
that it linked, and a session that is halted refuses every request, with nothing changed. -/
theorem lifecycle (h : Chronicled catalog resolver log host) (hs : host.session? n = some s) :
    s.phase = log.phaseOf n ∧ s.phase ≠ .invoking ∧ (∀ k, k ∈ s.owned ↔ log.Owned n k) ∧
    (∀ limit, (∃ reply host', host.perform limit n .halt = some (.ok reply, host'))
      ↔ s.phase = .unlinked) ∧
    (s.phase = .halted → ∀ limit r,
      host.perform limit n r = some (.error (.notAllowed r.operation .halted), host)) := by
  have hphase := h.phase_eq hs
  refine ⟨hphase, ?_, h.mem_owned hs, fun limit => ?_, fun hhalted limit r => ?_⟩
  · rw [hphase]
    exact log.phaseOf_ne_invoking n
  · have hserve := Request.serve_halt_iff limit ⟨host.registry, s⟩
    rw [← hserve, perform_of_session hs]
    simp only [Option.some.injEq, Prod.mk.injEq, exists_and_left, exists_eq', and_true]
  · rw [perform_of_session hs, Request.serve_of_halted limit r (h.sound.sound n s hs) hhalted,
      put_self hs]

/-- The host after a session has linked a program, has called it, has unlinked it and has halted,
with a second session beside it. -/
def retired : Host where
  registry := {
    catalog := uneasy.registry.catalog
    resolver := uneasy.registry.resolver
    counter := 1 }
  sessions := [some { phase := .halted, everLinked := true }, some {}]

/-- The past of the first session demands that it is halted, and it refuses to take an operand off
the stack. -/
theorem retired_lifecycle :
    let log : Chronicle := [
      .asked 0 .halt (.ok .done), .asked 0 (.unlink ⟨0⟩) (.ok .done),
      .asked 0 (.runStart ⟨0⟩) (.ok (.outcome (.success none))),
      .asked 0 (.callEntry ⟨0⟩ 2) (.error (.unknownSelector ⟨0⟩ 2)),
      .asked 1 (.unlink ⟨0⟩) (.error (.notLinked ⟨0⟩)), .opened 1,
      .asked 0 (.setDepth ⟨0⟩ 5) (.ok .done), .asked 0 (.setInk ⟨0⟩ 100) (.ok .done),
      .asked 0 (.link alarm.digest) (.ok (.linked ⟨0⟩)), .opened 0]
    Chronicled retired.registry.catalog retired.registry.resolver log retired ∧
      (retired.session? 0).map Session.phase = some (log.phaseOf 0) ∧
      (retired.session? 1).map Session.phase = some (log.phaseOf 1) ∧
      retired.perform 10 0 .popOperand
        = some (.error (.notAllowed .popOperand .halted), retired) := by
  intro log
  have hretired : Chronicled retired.registry.catalog retired.registry.resolver log retired := by
    have hopen : Chronicled retired.registry.catalog retired.registry.resolver [.opened 0] _ :=
      start.step .opened
    have hlink := hopen.ask 10 0 (.link alarm.digest) (.ok (.linked ⟨0⟩)) rfl
    have hink := hlink.ask 10 0 (.setInk ⟨0⟩ 100) (.ok .done) rfl
    have hdepth := hink.ask 10 0 (.setDepth ⟨0⟩ 5) (.ok .done) rfl
    have hforeign := (hdepth.step .opened).ask 10 1 (.unlink ⟨0⟩) (.error (.notLinked ⟨0⟩)) rfl
    have hcall := hforeign.ask 10 0 (.callEntry ⟨0⟩ 2) (.error (.unknownSelector ⟨0⟩ 2)) rfl
    have hrun := hcall.ask 10 0 (.runStart ⟨0⟩) (.ok (.outcome (.success none))) rfl
    have hunlink := hrun.ask 10 0 (.unlink ⟨0⟩) (.ok .done) rfl
    exact hunlink.ask 10 0 .halt (.ok .done) rfl
  obtain ⟨hphase, -, -, -, hrefuse⟩ := hretired.lifecycle (n := 0) rfl
  obtain ⟨hphase', -⟩ := hretired.lifecycle (n := 1) rfl
  exact ⟨hretired, congrArg some hphase, congrArg some hphase', hrefuse rfl 10 .popOperand⟩

end Chronicled

end Host

end MeteredSandbox
