import MeteredSandbox.Proofs.HandleTable

/-!
# Refusals

The requests that fail, and what they leave behind. A request fails at very different depths: in the
session, which is halted or does not own the handle; in the catalog, in the making of an instance
and at the count of handles; at the linked program, which lacks an entry point or a budget. On the
way the phase of the session may already have been overwritten, as that of a session whose guest is
running.

`Refusal` says when a request fails and with which mistake, for all of them and without a look at
the order in which things are checked. A session that fits its registry fails in these cases and in
no others, and then the desk is what it was (`Request.perform_eq_error_iff`). Sessions share a
registry, so the desk alone would not do; but what is put back is the desk itself, and the whole
host with every session and every linked program stays (`Host.Reachable.refusals`). The count of
handles does come to its end, if something is linked often enough (`Host.exists_handlesExhausted`).
-/

namespace MeteredSandbox

/-- **Why a session fails to do what it is asked to**, and the mistake that it names. -/
inductive Refusal (d : Desk) : Request → SessionError → Prop
  /-- Nothing is done any more once the session is halted. -/
  | halted (r : Request) (hphase : d.session.phase = .halted) :
      Refusal d r (.notAllowed r.operation .halted)
  /-- The handle belongs to another session, stands for nothing any more or was never handed out. -/
  | notOwned {r : Request} {k : Handle} (hphase : d.session.phase ≠ .halted)
      (hk : r.handle? = some k) (howned : k ∉ d.session.owned) : Refusal d r (.notLinked k)
  | unknownDigest {digest : Digest} (hphase : d.session.phase ≠ .halted)
      (hget : d.registry.catalog.get? digest = none) :
      Refusal d (.link digest) (.link (.unknownDigest digest))
  | instantiation {digest : Digest} {entry : CatalogEntry} {e : LinkError}
      (hphase : d.session.phase ≠ .halted) (hget : d.registry.catalog.get? digest = some entry)
      (hmake : instantiate entry.program d.registry.resolver = .error e) :
      Refusal d (.link digest) (.link (.instantiation digest e))
  /-- An instance can be made, but every number that a handle can have was handed out. -/
  | handlesExhausted {digest : Digest} {entry : CatalogEntry} {guest : Instance}
      (hphase : d.session.phase ≠ .halted) (hget : d.registry.catalog.get? digest = some entry)
      (hmake : instantiate entry.program d.registry.resolver = .ok guest)
      (hfull : d.registry.next = 0xFFFF_FFFF) :
      Refusal d (.link digest) (.link .handlesExhausted)
  | unknownSelector {k : Handle} {selector : Int} {p : LinkedProgram}
      (hphase : d.session.phase ≠ .halted) (howned : k ∈ d.session.owned)
      (hget : d.registry.get? k = some p) (hentry : p.entry.entry? selector = none) :
      Refusal d (.callEntry k selector) (.unknownSelector k selector)
  /-- An entry point is there, but a budget is not. -/
  | unconfiguredEntry {k : Handle} {selector : Int} {p : LinkedProgram}
      (hphase : d.session.phase ≠ .halted) (howned : k ∈ d.session.owned)
      (hget : d.registry.get? k = some p) (hentry : p.entry.entry? selector ≠ none)
      (hbudget : ∃ b, ¬ p.meters.IsSet b) : Refusal d (.callEntry k selector) (.unconfigured k)
  /-- A start function is there, but a budget is not. -/
  | unconfiguredStart {k : Handle} {p : LinkedProgram}
      (hphase : d.session.phase ≠ .halted) (howned : k ∈ d.session.owned)
      (hget : d.registry.get? k = some p) (hstart : p.entry.start ≠ none)
      (hbudget : ∃ b, ¬ p.meters.IsSet b) : Refusal d (.runStart k) (.unconfigured k)
  /-- It is too early to halt: something is still linked. -/
  | stillLinked (hphase : d.session.phase ≠ .halted) (howned : d.session.owned ≠ []) :
      Refusal d .halt (.stillLinked d.session.owned.length)
  /-- It is too early to halt: nothing was ever linked. -/
  | neverLinked (hphase : d.session.phase ≠ .halted) (howned : d.session.owned = [])
      (hever : d.session.everLinked = false) : Refusal d .halt (.notAllowed .halt .idle)

/-! ### Linked programs -/

namespace LinkedProgram

variable {p : LinkedProgram} {limit : Nat} {k : Handle} {pricing : Pricing}
  {operands : OperandStack} {e : SessionError}

theorem not_configured_iff : ¬ p.meters.configured = true ↔ ∃ b, ¬ p.meters.IsSet b := by
  rw [Meters.configured_iff, not_forall]

theorem serve_eq_error_iff {func : Nat} : p.serve limit k func pricing operands = .error e
    ↔ (∃ b, ¬ p.meters.IsSet b) ∧ e = .unconfigured k := by
  rw [← not_configured_iff]
  unfold serve
  by_cases hconfigured : p.meters.configured = true
  · rw [if_pos hconfigured]
    exact iff_of_false (fun hno => nomatch hno) fun hno => hno.1 hconfigured
  · rw [if_neg hconfigured, Except.error.injEq, eq_comm, and_iff_right hconfigured]

theorem serveEntry_eq_error_iff {selector : Int} :
    p.serveEntry limit k selector pricing operands = .error e
      ↔ p.entry.entry? selector = none ∧ e = .unknownSelector k selector ∨
        p.entry.entry? selector ≠ none ∧ (∃ b, ¬ p.meters.IsSet b) ∧ e = .unconfigured k := by
  unfold serveEntry
  cases p.entry.entry? selector with
  | none =>
    rw [Except.error.injEq, eq_comm]
    simp only [true_and, ne_eq, not_true_eq_false, false_and, or_false]
  | some func =>
    rw [serve_eq_error_iff]
    simp only [reduceCtorEq, false_and, ne_eq, not_false_eq_true, true_and, false_or]

theorem serveStart_eq_error_iff : p.serveStart limit k pricing operands = .error e
    ↔ p.entry.start ≠ none ∧ (∃ b, ¬ p.meters.IsSet b) ∧ e = .unconfigured k := by
  unfold serveStart
  cases p.entry.start with
  | none => exact iff_of_false (fun hno => nomatch hno) fun hno => hno.1 rfl
  | some func =>
    rw [serve_eq_error_iff]
    exact (and_iff_right (Option.some_ne_none func)).symm

end LinkedProgram

/-! ### Desks -/

namespace Desk

variable {d d' : Desk} {k : Handle} {e : SessionError}

/-- A check finds one of two mistakes, since what is owned is linked. -/
theorem Sound.check_eq_error_iff (hd : d.Sound) {operation : Operation} :
    d.check operation k = .error e
      ↔ d.session.phase = .halted ∧ e = .notAllowed operation .halted ∨
        d.session.phase ≠ .halted ∧ k ∉ d.session.owned ∧ e = .notLinked k := by
  by_cases hphase : d.session.phase = .halted
  · rw [check_of_halted operation k hphase, hphase, Except.error.injEq, eq_comm]
    simp only [true_and, ne_eq, not_true_eq_false, false_and, or_false]
  by_cases howned : k ∈ d.session.owned
  · obtain ⟨p, hget⟩ := Option.isSome_iff_exists.mp (hd.owned k howned)
    rw [check_of_get? operation hphase howned hget]
    refine iff_of_false (fun hno => nomatch hno) ?_
    rintro (⟨hhalted, -⟩ | ⟨-, hforeign, -⟩)
    · exact hphase hhalted
    · exact hforeign howned
  · rw [check_of_not_mem operation hphase howned, Except.error.injEq, eq_comm]
    simp only [hphase, howned, false_and, ne_eq, not_false_eq_true, true_and, false_or]

/-- A job fails when the check does, or when the linked program refuses. The session has settled
before, so that it comes to no other phase. -/
theorem Sound.carryOut_eq_error_iff (hd : d.Sound) {j : Job} : d.carryOut j = .error e d'
    ↔ (d.check j.operation j.handle = .error e ∨ ∃ p, d.check j.operation j.handle = .ok p ∧
        j.work d.registry.pricing d.session.operands p = .error e) ∧ d' = d := by
  unfold carryOut
  cases hcheck : d.check j.operation j.handle with
  | error e' =>
    simp only [EStateM.Result.error.injEq, Except.error.injEq, reduceCtorEq, false_and,
      exists_false, or_false, eq_comm (a := d)]
  | ok p =>
    have hsettle : d.settle = d := hd.settle_eq (check_eq_ok hcheck).1
    simp only [reduceCtorEq, false_or, Except.ok.injEq, exists_eq_left']
    rcases j.work d.registry.pricing d.session.operands p with e' | ⟨a, _ | p'⟩
    · change EStateM.Result.error e' d.settle = .error e d' ↔ _
      rw [hsettle, EStateM.Result.error.injEq, Except.error.injEq, eq_comm (a := d)]
    · exact iff_of_false (fun hno => nomatch hno) fun hno => nomatch hno.1
    · exact iff_of_false (fun hno => nomatch hno) fun hno => nomatch hno.1

end Desk

/-! ### Requests -/

namespace Request

variable {d d' : Desk} {limit : Nat} {r : Request} {k : Handle} {e : SessionError}

theorem serve_eq_error : r.serve limit d = (.error e, d') ↔ r.perform limit d = .error e d' := by
  unfold serve
  cases r.perform limit d with
  | ok reply d₁ => exact iff_of_false (fun hno => nomatch hno) fun hno => nomatch hno
  | error e₁ d₁ => rw [answered, Prod.mk.injEq, Except.error.injEq, EStateM.Result.error.injEq]

/-- Every request that names a handle but `unlink` is a job. -/
theorem unlink_or_job (hk : r.handle? = some k) (limit : Nat) :
    r = .unlink k ∨ ∃ j, r.job? limit = some j := by
  cases r with
  | link | halt | pushOperand | popOperand => cases hk
  | unlink => cases hk; exact .inl rfl
  | setInk | setDepth | inkLeft | inkStatus | depthLeft | callEntry | runStart =>
    exact .inr ⟨_, rfl⟩

theorem refusal_of_check (hd : d.Sound) (hk : r.handle? = some k)
    (hcheck : d.check r.operation k = .error e) : Refusal d r e := by
  rcases hd.check_eq_error_iff.mp hcheck with ⟨hphase, rfl⟩ | ⟨hphase, howned, rfl⟩
  · exact .halted r hphase
  · exact .notOwned hphase hk howned

/-- A call fails with what the linked program says. -/
theorem eq_error_of_map {x : Result Outcome}
    (hx : x.map (Prod.map Reply.outcome id) = .error e) : x = .error e := by
  cases x with
  | ok answer => cases hx
  | error e' => cases hx; rfl

/-- What the work of a job may refuse. -/
theorem refusal_of_work {j : Job} {p : LinkedProgram} (hj : r.job? limit = some j)
    (hcheck : d.check j.operation j.handle = .ok p)
    (hwork : j.work d.registry.pricing d.session.operands p = .error e) : Refusal d r e := by
  obtain ⟨hphase, howned, hget⟩ := Desk.check_eq_ok hcheck
  cases r with
  | callEntry h selector =>
    cases hj
    have hserve := LinkedProgram.serveEntry_eq_error_iff.mp (eq_error_of_map hwork)
    rcases hserve with ⟨hnone, rfl⟩ | ⟨hsome, hbudget, rfl⟩
    · exact .unknownSelector hphase howned hget hnone
    · exact .unconfiguredEntry hphase howned hget hsome hbudget
  | runStart h =>
    cases hj
    obtain ⟨hsome, hbudget, rfl⟩ :=
      LinkedProgram.serveStart_eq_error_iff.mp (eq_error_of_map hwork)
    exact .unconfiguredStart hphase howned hget hsome hbudget
  | setInk | setDepth | inkLeft | inkStatus | depthLeft => cases hj; cases hwork
  | link | unlink | halt | pushOperand | popOperand => cases hj

/-- Whether an open session may halt is a matter of its handles and of its past. -/
theorem perform_halt_of_open (hd : d.Sound) (hphase : d.session.phase ≠ .halted) :
    halt.perform limit d =
      if d.session.owned = [] then
        if d.session.everLinked then .ok .done d.close else .error (.notAllowed .halt .idle) d
      else .error (.stillLinked d.session.owned.length) d := by
  have hsettled : d.session.phase = d.settledPhase :=
    hd.phase.resolve_left fun hno => hphase hno.1
  rw [perform_halt, if_neg hphase, hsettled, Desk.settledPhase]
  split_ifs
  · rfl
  · rfl
  · rfl
  · rfl

/-- **What fails is refused**, and the desk is what it was. -/
theorem refusal_of_perform (hd : d.Sound) (h : r.perform limit d = .error e d') :
    Refusal d r e ∧ d' = d := by
  have hjob : ∀ j, r.job? limit = some j → Refusal d r e ∧ d' = d := by
    intro j hj
    rw [perform_job hj hd] at h
    obtain ⟨hcheck | ⟨p, hcheck, hwork⟩, rfl⟩ := hd.carryOut_eq_error_iff.mp h
    · rw [operation_of_job hj] at hcheck
      exact ⟨refusal_of_check hd (handle?_of_job hj) hcheck, rfl⟩
    · exact ⟨refusal_of_work hj hcheck hwork, rfl⟩
  cases r with
  | setInk | setDepth | inkLeft | inkStatus | depthLeft | callEntry | runStart => exact hjob _ rfl
  | link digest =>
    rw [perform_link] at h
    split at h
    next hphase =>
      rw [hphase] at h
      cases h
      exact ⟨.halted _ hphase, rfl⟩
    next hphase =>
      unfold Registry.produce at h
      cases hget : d.registry.catalog.get? digest with
      | none =>
        rw [hget] at h
        cases h
        exact ⟨.unknownDigest hphase hget, rfl⟩
      | some entry =>
        rw [hget] at h
        dsimp only at h
        cases hmake : instantiate entry.program d.registry.resolver with
        | error e' =>
          rw [hmake] at h
          cases h
          exact ⟨.instantiation hphase hget hmake, rfl⟩
        | ok guest =>
          rw [hmake] at h
          dsimp only at h
          split at h
          next => cases h
          next hroom =>
            cases h
            exact ⟨.handlesExhausted hphase hget hmake (d.registry.not_hasRoom_iff.mp hroom), rfl⟩
  | unlink k =>
    rw [perform_unlink] at h
    cases hcheck : d.check .unlink k with
    | ok p => rw [hcheck] at h; cases h
    | error e' =>
      rw [hcheck] at h
      cases h
      exact ⟨refusal_of_check hd rfl hcheck, rfl⟩
  | halt =>
    by_cases hphase : d.session.phase = .halted
    · rw [perform_halt, if_pos hphase, hphase] at h
      cases h
      exact ⟨.halted _ hphase, rfl⟩
    rw [perform_halt_of_open hd hphase] at h
    split at h
    next howned =>
      split at h
      next => cases h
      next hever =>
        cases h
        exact ⟨.neverLinked hphase howned (Bool.eq_false_iff.mpr hever), rfl⟩
    next howned =>
      cases h
      exact ⟨.stillLinked hphase howned, rfl⟩
  | pushOperand v =>
    rw [perform_pushOperand] at h
    split at h
    next hphase =>
      rw [hphase] at h
      cases h
      exact ⟨.halted _ hphase, rfl⟩
    next => cases h
  | popOperand =>
    rw [perform_popOperand] at h
    split at h
    next hphase =>
      rw [hphase] at h
      cases h
      exact ⟨.halted _ hphase, rfl⟩
    next =>
      split at h
      · cases h
      · cases h

theorem perform_of_check_error (hd : d.Sound) (hk : r.handle? = some k)
    (hcheck : d.check r.operation k = .error e) : r.perform limit d = .error e d := by
  rcases unlink_or_job hk limit with rfl | ⟨j, hj⟩
  · have hcheck' : d.check .unlink k = .error e := hcheck
    rw [perform_unlink, hcheck']
  · rw [← operation_of_job hj] at hcheck
    have hsame : k = j.handle := Option.some.inj (hk.symm.trans (handle?_of_job hj))
    rw [hsame] at hcheck
    rw [perform_job hj hd]
    exact hd.carryOut_eq_error_iff.mpr ⟨.inl hcheck, rfl⟩

theorem perform_of_work_error (hd : d.Sound) {j : Job} {p : LinkedProgram}
    (hj : r.job? limit = some j) (hphase : d.session.phase ≠ .halted)
    (howned : j.handle ∈ d.session.owned) (hget : d.registry.get? j.handle = some p)
    (hwork : j.work d.registry.pricing d.session.operands p = .error e) :
    r.perform limit d = .error e d := by
  rw [perform_job hj hd]
  have hcheck := Desk.check_of_get? j.operation hphase howned hget
  exact hd.carryOut_eq_error_iff.mpr ⟨.inr ⟨p, hcheck, hwork⟩, rfl⟩

/-- **What is refused fails.** -/
theorem perform_of_refusal (hd : d.Sound) (h : Refusal d r e) : r.perform limit d = .error e d := by
  cases h with
  | halted r hphase => exact serve_eq_error.mp (serve_of_halted limit r hd hphase)
  | notOwned hphase hk howned =>
    exact perform_of_check_error hd hk (Desk.check_of_not_mem _ hphase howned)
  | unknownDigest hphase hget =>
    exact perform_link_of_error limit hphase (Registry.link_of_unknown hget)
  | instantiation hphase hget hmake =>
    exact perform_link_of_error limit hphase (Registry.link_of_error hget hmake)
  | handlesExhausted hphase hget hmake hfull =>
    exact perform_link_of_error limit hphase (Registry.link_of_full hget hmake hfull)
  | @unknownSelector k selector p hphase howned hget hentry =>
    refine perform_of_work_error hd rfl hphase howned hget ?_
    dsimp only
    rw [LinkedProgram.serveEntry_eq_error_iff.mpr (.inl ⟨hentry, rfl⟩)]
    rfl
  | @unconfiguredEntry k selector p hphase howned hget hentry hbudget =>
    refine perform_of_work_error hd rfl hphase howned hget ?_
    dsimp only
    rw [LinkedProgram.serveEntry_eq_error_iff.mpr (.inr ⟨hentry, hbudget, rfl⟩)]
    rfl
  | @unconfiguredStart k p hphase howned hget hstart hbudget =>
    refine perform_of_work_error hd rfl hphase howned hget ?_
    dsimp only
    rw [LinkedProgram.serveStart_eq_error_iff.mpr ⟨hstart, hbudget, rfl⟩]
    rfl
  | stillLinked hphase howned => rw [perform_halt_of_open hd hphase, if_neg howned]
  | neverLinked hphase howned hever =>
    rw [perform_halt_of_open hd hphase, if_pos howned, if_neg (Bool.eq_false_iff.mp hever)]

theorem perform_eq_error_iff (hd : d.Sound) :
    r.perform limit d = .error e d' ↔ Refusal d r e ∧ d' = d := by
  refine ⟨refusal_of_perform hd, ?_⟩
  rintro ⟨hrefusal, rfl⟩
  exact perform_of_refusal hd hrefusal

end Request

/-! ### Hosts -/

namespace Host

variable {catalog : Catalog} {resolver : Resolver} {log : History} {host host' : Host}
  {limit n : Nat} {r : Request} {e : SessionError}

/-- **A request that fails changes nothing.** In every host that sessions can lead to, a request
fails in the cases of `Refusal` and in no others, with the mistake that is named there. Afterwards
the host is what it was: all sessions have the handles, the operands, the phase and the record of
past links that they had, the registry has the next handle and the linked programs that it had, and
every linked program has the same memory, table, globals and meters. -/
theorem Reachable.refusals (h : Reachable catalog resolver log host) :
    host.perform limit n r = some (.error e, host')
      ↔ (∃ s, host.session? n = some s ∧ Refusal ⟨host.registry, s⟩ r e) ∧ host' = host := by
  constructor
  · intro hperform
    obtain ⟨s, hs, hreply, rfl⟩ := perform_eq_some hperform
    have hserve : r.serve limit ⟨host.registry, s⟩
        = (.error e, (r.serve limit ⟨host.registry, s⟩).2) := Prod.ext hreply.symm rfl
    obtain ⟨hrefusal, hdesk⟩ :=
      (Request.perform_eq_error_iff (h.sound.sound n s hs)).mp (Request.serve_eq_error.mp hserve)
    refine ⟨⟨s, hs, hrefusal⟩, ?_⟩
    rw [hdesk, put_self hs]
  · rintro ⟨⟨s, hs, hrefusal⟩, rfl⟩
    have hserve : r.serve limit ⟨host'.registry, s⟩ = (.error e, ⟨host'.registry, s⟩) :=
      Request.serve_eq_error.mpr (Request.perform_of_refusal (h.sound.sound n s hs) hrefusal)
    rw [perform_of_session hs, hserve, put_self hs]

/-- The host after one session has linked a program and has given it ink but no depth, with a second
session beside it. -/
def wary : Host where
  registry := {
    catalog := uneasy.registry.catalog
    resolver := uneasy.registry.resolver
    counter := 1
    linked := [(⟨0⟩, { alarmed with
      meters := { ink := { remaining := 100, configured := true } } })] }
  sessions := [some { owned := [⟨0⟩], phase := .linked, everLinked := true }, some {}]

/-- The first session calls a program that lacks a budget and tries to halt too early, and the
second one wants to give the program of the first one ink. All of them fail, and nothing changes. -/
theorem wary_refusals :
    Reachable wary.registry.catalog wary.registry.resolver
      [(.setInk ⟨0⟩ 100, .ok .done), (.link alarm.digest, .ok (.linked ⟨0⟩))] wary ∧
    wary.perform 10 0 (.callEntry ⟨0⟩ 1) = some (.error (.unconfigured ⟨0⟩), wary) ∧
    wary.perform 10 0 .halt = some (.error (.stillLinked 1), wary) ∧
    wary.perform 10 1 (.setInk ⟨0⟩ 7) = some (.error (.notLinked ⟨0⟩), wary) := by
  have hwary : Reachable wary.registry.catalog wary.registry.resolver
      [(.setInk ⟨0⟩ 100, .ok .done), (.link alarm.digest, .ok (.linked ⟨0⟩))] wary := by
    have hstep : ∀ {log : History} {host host' : Host} (r : Request) (reply : Reply),
        Reachable wary.registry.catalog wary.registry.resolver log host →
        host.perform 0 0 r = some (.ok reply, host') →
        Reachable wary.registry.catalog wary.registry.resolver ((r, .ok reply) :: log) host' :=
      fun r reply h hperform => h.perform hperform
    have hopen : Reachable wary.registry.catalog wary.registry.resolver [] _ :=
      Reachable.start.openSession.openSession
    have hlink := hstep (.link alarm.digest) (.linked ⟨0⟩) hopen rfl
    exact hstep (.setInk ⟨0⟩ 100) .done hlink rfl
  refine ⟨hwary, ?_, ?_, ?_⟩
  · refine hwary.refusals.mpr ⟨⟨_, rfl, ?_⟩, rfl⟩
    refine .unconfiguredEntry Phase.noConfusion List.mem_cons_self rfl (Option.some_ne_none 1) ?_
    exact ⟨.depth, fun hset => nomatch hset⟩
  · exact hwary.refusals.mpr ⟨⟨_, rfl, .stillLinked Phase.noConfusion (List.cons_ne_nil _ _)⟩, rfl⟩
  · exact hwary.refusals.mpr ⟨⟨_, rfl, .notOwned Phase.noConfusion rfl List.not_mem_nil⟩, rfl⟩

variable {digest : Digest} {entry : CatalogEntry} {guest : Instance}

/-- A program of which an instance can be made is linked as often as there are numbers. -/
theorem exists_reachable_next (hget : catalog.get? digest = some entry)
    (hmake : instantiate entry.program resolver = .ok guest) {count : Nat}
    (hcount : count ≤ 0xFFFF_FFFF) :
    ∃ log host s, Reachable catalog resolver log host ∧ host.session? 0 = some s ∧
      s.phase ≠ .halted ∧ host.registry.catalog = catalog ∧ host.registry.resolver = resolver ∧
      host.registry.next = count := by
  induction count with
  | zero =>
    have hopen : Reachable catalog resolver [] _ := Reachable.start.openSession
    exact ⟨_, _, {}, hopen, rfl, Phase.noConfusion, rfl, rfl, rfl⟩
  | succ count ih =>
    obtain ⟨log, host, s, h, hs, hphase, rfl, rfl, hnext⟩ := ih (Nat.le_of_succ_le hcount)
    have hproduce : host.registry.produce digest = .ok { entry, guest } := by
      unfold Registry.produce
      rw [hget]
      dsimp only
      rw [hmake]
    have hroom : host.registry.HasRoom := by
      unfold Registry.HasRoom
      omega
    have hperform := perform_link_of_ok hs hphase hproduce hroom 0
    have hs' := session?_put hs (Desk.adopt { entry, guest } ⟨host.registry, s⟩) 0
    rw [if_pos rfl] at hs'
    refine ⟨_, _, _, h.perform hperform, hs', Desk.settledPhase_ne_halted _, rfl, rfl, ?_⟩
    rw [← hnext]
    exact Registry.next_issue hroom _

/-- **Handles can be used up.** Whatever a catalog holds that an instance can be made of, sessions
lead to a host that can hand out no further handle for it. -/
theorem exists_handlesExhausted (hget : catalog.get? digest = some entry)
    (hmake : instantiate entry.program resolver = .ok guest) :
    ∃ log host, Reachable catalog resolver log host ∧ ∀ limit,
      host.perform limit 0 (.link digest) = some (.error (.link .handlesExhausted), host) := by
  obtain ⟨log, host, s, h, hs, hphase, rfl, rfl, hnext⟩ := exists_reachable_next hget hmake le_rfl
  exact ⟨log, host, h, fun _ =>
    perform_link_of_error hs hphase (Registry.link_of_full hget hmake hnext)⟩

end Host

end MeteredSandbox
