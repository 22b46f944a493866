import MeteredSandbox.Proofs.Budgets
import MeteredSandbox.Proofs.Ownership

/-!
# The contract of a call

What a session may count on when it calls a linked program, whatever the guest does and whatever
the host functions do that the guest imports (`Host.Reachable.call_contract`).

* A call is refused for a mistake of the embedder only. A trap of the guest and a panic of a host
  function are outcomes, and the embedder is told which (`Tells`).
* Nothing is left of a call outside the linked program that was called (`Host.Framed`), and there
  the depth meter is as it was and the ink has at most been used.

The first part is read off the normal form of requests. For the second the calls are looked at as
jobs: what the guard lets through is a linked program that was used (`LinkedProgram.Used`), and
putting it in the place of the old one does not even change the phase of the session that called,
because the same budgets are set.
-/

namespace MeteredSandbox

/-- What an embedder is told of a call that came to a result. -/
structure Tells (result : Except Stop (Option Value)) (reply : Except SessionError Reply) :
    Prop where
  returned : ∀ v, result = .ok v → reply = .ok (.outcome (.success v))
  trapped : ∀ t, result = .error (.trap t) → reply = .ok (.outcome (.failure (.ofTrap t)))
  panicked : ∀ q, result = .error (.panic q) → reply = .ok (.outcome (.failure (.panicked q)))
  /-- The bound on the number of turns was reached. -/
  unfinished : result = .error .turnLimit → reply = .ok (.outcome .unfinished)

theorem tells_ofResult (result : Except Stop (Option Value)) :
    Tells result (.ok (.outcome (.ofResult result))) where
  returned := by rintro v rfl; rfl
  trapped := by rintro t rfl; rfl
  panicked := by rintro q rfl; rfl
  unfinished := by rintro rfl; rfl

/-! ### Linked programs that were used -/

namespace LinkedProgram

variable {p p' : LinkedProgram} {limit : Nat} {h : Handle} {pricing : Pricing}
  {operands : OperandStack}

/-- A linked program that was used lacks no budget that it had, and has none that it lacked. -/
theorem Used.configured (hused : p.Used p') : p'.meters.configured = p.meters.configured := by
  rw [Bool.eq_iff_iff, Meters.configured_iff, Meters.configured_iff]
  exact forall_congr' hused.worn.isSet_iff

theorem serve_refuses {func : Nat} :
    (∃ e, p.serve limit h func pricing operands = .error e) ↔ ¬ p.meters.configured = true := by
  unfold serve
  by_cases hconfigured : p.meters.configured = true
  · rw [if_pos hconfigured]
    exact iff_of_false (by rintro ⟨e, ⟨⟩⟩) (not_not.mpr hconfigured)
  · rw [if_neg hconfigured]
    exact iff_of_true ⟨_, rfl⟩ hconfigured

/-- An entry point is refused if there is none, or if a budget is missing. -/
theorem serveEntry_refuses {selector : Int} :
    (∃ e, p.serveEntry limit h selector pricing operands = .error e)
      ↔ p.entry.entry? selector = none ∨ ¬ p.meters.configured = true := by
  unfold serveEntry
  cases p.entry.entry? selector with
  | none => exact iff_of_true ⟨_, rfl⟩ (.inl rfl)
  | some func => exact serve_refuses.trans (or_iff_right (Option.some_ne_none func)).symm

/-- The start function is refused if there is one and a budget is missing. -/
theorem serveStart_refuses :
    (∃ e, p.serveStart limit h pricing operands = .error e)
      ↔ p.entry.start ≠ none ∧ ¬ p.meters.configured = true := by
  unfold serveStart
  cases p.entry.start with
  | none => exact iff_of_false (by rintro ⟨e, ⟨⟩⟩) fun hno => hno.1 rfl
  | some func => exact serve_refuses.trans (and_iff_right (Option.some_ne_none func)).symm

end LinkedProgram

/-! ### What is left of a call -/

namespace Desk

variable {d : Desk} {k : Handle} {p p' : LinkedProgram}

/-- A linked program that was used changes nothing about the phase of its session. -/
theorem Sound.settle_update (hd : d.Sound) (hphase : d.session.phase ≠ .halted)
    (hget : d.registry.get? k = some p) (hused : p.Used p') :
    (d.update k p').settle = d.update k p' := by
  have hconfigured : (d.registry.update k p').isConfigured = d.registry.isConfigured := by
    funext j
    unfold Registry.isConfigured
    rw [Registry.get?_update]
    by_cases hj : j = k
    · rw [if_pos hj, hj, hget]
      exact hused.configured
    · rw [if_neg hj]
  have hsettled : (d.update k p').settledPhase = d.settledPhase := by
    unfold settledPhase
    change (if d.session.owned = [] then if d.session.everLinked then Phase.unlinked else .idle
      else if d.session.owned.all (d.registry.update k p').isConfigured then .configured
      else .linked) = _
    rw [hconfigured]
  have hphase' : d.session.phase = d.settledPhase := hd.phase.resolve_left fun h => hphase h.1
  unfold settle setPhase
  rw [hsettled, ← hphase']
  rfl

end Desk

namespace Host

/-- **What a call of a linked program leaves as it was.** All sessions keep their handles, their
operands and their phases, and all other linked programs stay. -/
structure Framed (k : Handle) (host host' : Host) : Prop where
  sessions : host'.sessions = host.sessions
  catalog : host'.registry.catalog = host.registry.catalog
  resolver : host'.registry.resolver = host.registry.resolver
  next : host'.registry.next = host.registry.next
  others : ∀ j ≠ k, host'.registry.get? j = host.registry.get? j
  used : ∀ p, host.registry.get? k = some p → ∃ p', host'.registry.get? k = some p' ∧ p.Used p'

variable {host : Host} {n limit : Nat} {s : Session} {r : Request} {k : Handle}

theorem Framed.refl (k : Handle) (host : Host) : Framed k host host :=
  ⟨rfl, rfl, rfl, rfl, fun _ _ => rfl,
    fun p hp => ⟨p, hp, rfl, Meters.Worn.refl p.meters, rfl⟩⟩

theorem sessions_put (hs : host.session? n = some s) {d : Desk} (hd : d.session = s) :
    (host.put n d).sessions = host.sessions := by
  change host.sessions.set n (some d.session) = host.sessions
  have hget : host.sessions[n]? = some (some s) := Option.join_eq_some_iff.mp hs
  obtain ⟨hlt, hitem⟩ := List.getElem?_eq_some_iff.mp hget
  rw [hd, ← hitem, List.set_getElem_self]

/-- A request that leaves the desk alone leaves the host alone. -/
theorem put_self (hs : host.session? n = some s) : host.put n ⟨host.registry, s⟩ = host := by
  have hsessions : (host.put n ⟨host.registry, s⟩).sessions = host.sessions := sessions_put hs rfl
  exact congrArg (Host.mk host.registry) hsessions

/-- What comes of a call, if `work` is what the linked program makes of it: it is refused if the
session is halted, if the handle is not owned or if the linked program refuses. Otherwise the answer
is that of the linked program. -/
structure Answered (host : Host) (s : Session) (k : Handle)
    (work : LinkedProgram → Result Outcome) (reply : Except SessionError Reply) (host' : Host) :
    Prop where
  refused_iff : (∃ e, reply = .error e) ↔ s.phase = .halted ∨ k ∉ s.owned ∨
    ∃ p, host.registry.get? k = some p ∧ ∃ e, work p = .error e
  unchanged : (∃ e, reply = .error e) → host' = host
  answer : ∀ p, host.registry.get? k = some p → (¬ ∃ e, reply = .error e) →
    ∃ outcome q, work p = .ok (outcome, q) ∧ reply = .ok (.outcome outcome)
  framed : host.Framed k host'

variable {work : LinkedProgram → Result Outcome}

theorem answered_of_refused (e : SessionError)
    (hmistake : s.phase = .halted ∨ k ∉ s.owned ∨
      ∃ p, host.registry.get? k = some p ∧ ∃ e, work p = .error e) :
    host.Answered s k work (.error e) host where
  refused_iff := iff_of_true ⟨e, rfl⟩ hmistake
  unchanged _ := rfl
  answer _ _ hno := absurd ⟨e, rfl⟩ hno
  framed := .refl k host

theorem answered_of_ok {p : LinkedProgram} {outcome : Outcome} {q : Option LinkedProgram}
    {host' : Host} (hphase : s.phase ≠ .halted) (howned : k ∈ s.owned)
    (hget : host.registry.get? k = some p) (hok : work p = .ok (outcome, q))
    (hframed : host.Framed k host') : host.Answered s k work (.ok (.outcome outcome)) host' where
  refused_iff := by
    refine iff_of_false (by rintro ⟨e, ⟨⟩⟩) ?_
    rintro (hhalted | hforeign | ⟨p', hget', e, he⟩)
    · exact hphase hhalted
    · exact hforeign howned
    · rw [hget] at hget'
      cases hget'
      rw [hok] at he
      cases he
  unchanged := by rintro ⟨e, ⟨⟩⟩
  answer := by
    intro p' hget' _
    rw [hget] at hget'
    cases hget'
    exact ⟨outcome, q, hok, rfl⟩
  framed := hframed

/-- **Every call is answered**, as a job whose linked program is at most used. -/
theorem Sound.perform_call (hhost : host.Sound) (hs : host.session? n = some s) (r : Request)
    {operation : Operation} (work : Pricing → OperandStack → LinkedProgram → Result Outcome)
    (hj : r.job? limit = some ⟨operation, k, fun pricing operands p =>
      (work pricing operands p).map (Prod.map .outcome id)⟩)
    (hused : ∀ {pricing operands p outcome q}, work pricing operands p = .ok (outcome, q) →
      ∀ p' ∈ q, p.Used p') :
    ∃ reply host', host.perform limit n r = some (reply, host') ∧
      host.Answered s k (work host.registry.pricing s.operands) reply host' := by
  have hdesk := hhost.sound n s hs
  have hperform := perform_of_session hs limit r
  unfold Request.serve at hperform
  rw [Request.perform_job hj hdesk, Desk.carryOut] at hperform
  dsimp only at hperform
  cases hcheck : Desk.check operation k ⟨host.registry, s⟩ with
  | error e =>
    rw [hcheck] at hperform
    -- a handle that is owned is linked, so the check has found one of the two mistakes
    have hmistake : s.phase = .halted ∨ k ∉ s.owned := by
      by_contra hno
      obtain ⟨hphase, howned⟩ := not_or.mp hno
      obtain ⟨p, hget⟩ := Option.isSome_iff_exists.mp (hdesk.owned k (not_not.mp howned))
      rw [Desk.check_of_get? operation hphase (not_not.mp howned) hget] at hcheck
      cases hcheck
    refine ⟨.error e, host, ?_, answered_of_refused e (hmistake.imp_right .inl)⟩
    rw [hperform]
    change some (Except.error e, host.put n ⟨host.registry, s⟩) = _
    rw [put_self hs]
  | ok p =>
    rw [hcheck] at hperform
    obtain ⟨hphase, howned, hget⟩ := Desk.check_eq_ok hcheck
    dsimp only at hperform hphase howned hget
    rcases hwork : work host.registry.pricing s.operands p with e | ⟨outcome, _ | p'⟩
    · -- the linked program refuses
      rw [hwork] at hperform
      refine ⟨.error e, host, ?_, answered_of_refused e (.inr (.inr ⟨p, hget, e, hwork⟩))⟩
      rw [hperform]
      change some (Except.error e, host.put n (Desk.settle ⟨host.registry, s⟩)) = _
      rw [hdesk.settle_eq hphase, put_self hs]
    · -- there is nothing to run
      rw [hwork] at hperform
      refine ⟨.ok (.outcome outcome), host, ?_,
        answered_of_ok hphase howned hget hwork (.refl k host)⟩
      rw [hperform]
      change some (Except.ok (Reply.outcome outcome),
        host.put n (Desk.settle ⟨host.registry, s⟩)) = _
      rw [hdesk.settle_eq hphase, put_self hs]
    · -- the guest has run; its meters are worn, but the phase of the session stays
      rw [hwork] at hperform
      have hp' : p.Used p' := hused hwork p' rfl
      have hsettle := hdesk.settle_update hphase hget hp'
      refine ⟨.ok (.outcome outcome), host.put n (Desk.update k p' ⟨host.registry, s⟩), ?_,
        answered_of_ok hphase howned hget hwork ⟨sessions_put hs rfl, rfl, rfl, rfl,
          fun j hne => Registry.get?_update_of_ne host.registry hne p', fun q hq => ?_⟩⟩
      · rw [hperform]
        change some (Except.ok (Reply.outcome outcome),
          host.put n (Desk.update k p' ⟨host.registry, s⟩).settle) = _
        rw [hsettle]
      · rw [hget] at hq
        cases hq
        exact ⟨p', Registry.get?_update_self host.registry k hget p', hp'⟩

end Host

/-! ### The contract -/

namespace LinkedProgram

variable {p : LinkedProgram} {limit : Nat} {h : Handle} {pricing : Pricing}
  {operands : OperandStack} {outcome : Outcome} {q : Option LinkedProgram} {func : Nat}

/-- A linked program that does not refuse answers with what comes of the call. -/
theorem tells_of_serve (hserve : p.serve limit h func pricing operands = .ok (outcome, q)) :
    Tells (p.guest.invoke Meters.checkpoint pricing limit func [] operands p.meters).outcome
      (.ok (.outcome outcome)) := by
  unfold serve at hserve
  split at hserve
  next =>
    cases hserve
    exact tells_ofResult _
  next => cases hserve

end LinkedProgram

namespace Host

variable {host : Host} {n : Nat} {s : Session} {catalog : Catalog} {resolver : Resolver}
  {log : History}

/-- **The contract of calls.** In every host that sessions can lead to, `callEntry` is refused
exactly when the session is halted, the handle is not owned, the program has no such entry point or
a budget was never given, and `runStart` exactly when the session is halted, the handle is not owned
or the program has a start function and a budget was never given. A request that is refused changes
nothing. One that is not refused tells how the guest's run ended, trap and panic included, and
leaves nothing outside the linked program that it called. -/
theorem Reachable.call_contract (h : Reachable catalog resolver log host)
    (hs : host.session? n = some s) (limit : Nat) (k : Handle) :
    (∀ selector, ∃ reply host', host.perform limit n (.callEntry k selector) = some (reply, host') ∧
      ((∃ e, reply = .error e) ↔ s.phase = .halted ∨ k ∉ s.owned ∨
        (∃ p, host.registry.get? k = some p ∧ p.entry.entry? selector = none) ∨
        ∃ b, ¬ log.Grants b k) ∧
      ((∃ e, reply = .error e) → host' = host) ∧
      (∀ p func, host.registry.get? k = some p → p.entry.entry? selector = some func →
        (¬ ∃ e, reply = .error e) →
        Tells (p.guest.invoke Meters.checkpoint host.registry.pricing limit func [] s.operands
          p.meters).outcome reply) ∧
      host.Framed k host') ∧
    ∃ reply host', host.perform limit n (.runStart k) = some (reply, host') ∧
      ((∃ e, reply = .error e) ↔ s.phase = .halted ∨ k ∉ s.owned ∨
        (∃ p, host.registry.get? k = some p ∧ p.entry.start ≠ none) ∧ ∃ b, ¬ log.Grants b k) ∧
      ((∃ e, reply = .error e) → host' = host) ∧
      (∀ p, host.registry.get? k = some p → (¬ ∃ e, reply = .error e) →
        (p.entry.start = none → reply = .ok (.outcome (.success none))) ∧
        ∀ func, p.entry.start = some func →
          Tells (p.guest.invoke Meters.checkpoint host.registry.pricing limit func [] s.operands
            p.meters).outcome reply) ∧
      host.Framed k host' := by
  have hconfigured : ∀ p, host.registry.get? k = some p →
      (¬ p.meters.configured = true ↔ ∃ b, ¬ log.Grants b k) := by
    intro p hp
    rw [Meters.configured_iff, not_forall]
    exact exists_congr fun b => not_congr (h.isSet_iff hp b)
  have hlinked : ¬ k ∉ s.owned → ∃ p, host.registry.get? k = some p := fun howned =>
    Option.isSome_iff_exists.mp ((h.sound.sound n s hs).owned k (not_not.mp howned))
  refine ⟨fun selector => ?_, ?_⟩
  · obtain ⟨reply, host', hperform, hanswered⟩ := h.sound.perform_call hs (.callEntry k selector)
      (fun pricing operands p => p.serveEntry limit k selector pricing operands) rfl
      LinkedProgram.used_of_serveEntry
    refine ⟨reply, host', hperform, hanswered.refused_iff.trans ?_, hanswered.unchanged,
      fun p func hp hfunc hno => ?_, hanswered.framed⟩
    · refine or_congr_right (or_congr_right' fun howned => ?_)
      obtain ⟨p, hp⟩ := hlinked howned
      simp only [hp, Option.some.injEq, exists_eq_left']
      rw [LinkedProgram.serveEntry_refuses, hconfigured p hp]
    · obtain ⟨outcome, q, hserve, rfl⟩ := hanswered.answer p hp hno
      rw [LinkedProgram.serveEntry, hfunc] at hserve
      exact LinkedProgram.tells_of_serve hserve
  · obtain ⟨reply, host', hperform, hanswered⟩ := h.sound.perform_call hs (.runStart k)
      (fun pricing operands p => p.serveStart limit k pricing operands) rfl
      LinkedProgram.used_of_serveStart
    refine ⟨reply, host', hperform, hanswered.refused_iff.trans ?_, hanswered.unchanged,
      fun p hp hno => ?_, hanswered.framed⟩
    · refine or_congr_right (or_congr_right' fun howned => ?_)
      obtain ⟨p, hp⟩ := hlinked howned
      simp only [hp, Option.some.injEq, exists_eq_left']
      rw [LinkedProgram.serveStart_refuses, hconfigured p hp]
    · obtain ⟨outcome, q, hserve, rfl⟩ := hanswered.answer p hp hno
      refine ⟨fun hstart => ?_, fun func hstart => ?_⟩
      · rw [LinkedProgram.serveStart, hstart] at hserve
        cases hserve
        rfl
      · rw [LinkedProgram.serveStart, hstart] at hserve
        exact LinkedProgram.tells_of_serve hserve

/-- The entry of a program whose entry point puts a value on the stack and then calls the function
that it imports. -/
def alarm : CatalogEntry where
  digest := ⟨List.replicate 32 0, rfl⟩
  program :=
    { source := {
        types := [{ params := [], results := [] }]
        imports := [{ source := "host", name := "alarm", kind := .func 0 }]
        funcs := [0] }
      signatures := #[some { params := [], results := [] }, some { params := [], results := [] }]
      imported := 1
      bodies := #[{ locals := #[], code := #[.op (.const (.i32 7)), .op (.call 0), .endMark] }] }
  points := [{ selector := 1, name := "entry_1", func := 1 }]
  start := none

/-- The linked program, over a host function that panics. -/
def alarmed : LinkedProgram where
  entry := alarm
  guest := {
    program := alarm.program
    host := #[fun _ => .panic .other]
    store := { memory := none, table := none, globals := #[] } }
  meters := .ofBudgets 100 5

/-- The host after a session has linked the program, has set its budgets and has put a value on the
stack. -/
def uneasy : Host where
  registry := {
    catalog := { policy := {}, entries := [alarm] }
    resolver := fun _ _ _ => some fun _ => .panic .other
    counter := 1
    linked := [(⟨0⟩, alarmed)] }
  sessions := [some {
    owned := [⟨0⟩]
    operands := Stack.empty.push (.i32 3)
    phase := .configured
    everLinked := true }]

/-- A session calls an entry point that ends in a panic of a host function. It is told so, and keeps
its operands. -/
theorem alarmed_call_contract :
    let log : History := [
      (.pushOperand (.i32 3), .ok .done), (.setDepth ⟨0⟩ 5, .ok .done),
      (.setInk ⟨0⟩ 100, .ok .done), (.link alarm.digest, .ok (.linked ⟨0⟩))]
    Reachable uneasy.registry.catalog uneasy.registry.resolver log uneasy ∧
      (uneasy.session? 0).map Session.operands = some (Stack.empty.push (.i32 3)) ∧
      ∃ host', uneasy.perform 10 0 (.callEntry ⟨0⟩ 1)
          = some (.ok (.outcome (.failure (.panicked .other))), host') ∧
        host'.sessions = uneasy.sessions := by
  have hreachable : Reachable uneasy.registry.catalog uneasy.registry.resolver [
      (.pushOperand (.i32 3), .ok .done), (.setDepth ⟨0⟩ 5, .ok .done),
      (.setInk ⟨0⟩ 100, .ok .done), (.link alarm.digest, .ok (.linked ⟨0⟩))] uneasy := by
    have hopen : Reachable uneasy.registry.catalog uneasy.registry.resolver [] _ :=
      Reachable.start.openSession
    have hstep : ∀ {log : History} {host host' : Host} (r : Request) (reply : Reply),
        Reachable uneasy.registry.catalog uneasy.registry.resolver log host →
        host.perform 0 0 r = some (.ok reply, host') →
        Reachable uneasy.registry.catalog uneasy.registry.resolver ((r, .ok reply) :: log) host' :=
      fun r reply h hperform => h.perform hperform
    have hlink := hstep (.link alarm.digest) (.linked ⟨0⟩) hopen rfl
    have hink := hstep (.setInk ⟨0⟩ 100) .done hlink rfl
    have hdepth := hstep (.setDepth ⟨0⟩ 5) .done hink rfl
    exact hstep (.pushOperand (.i32 3)) .done hdepth rfl
  have hpanic : (alarmed.guest.invoke Meters.checkpoint uneasy.registry.pricing 10 1 []
      (Stack.empty.push (.i32 3)) alarmed.meters).outcome = .error (.panic .other) := by rfl
  have hsession : uneasy.session? 0 = some {
      owned := [⟨0⟩]
      operands := Stack.empty.push (.i32 3)
      phase := .configured
      everLinked := true } := rfl
  obtain ⟨reply, host', hperform, hrefused, -, htells, hframed⟩ :=
    (hreachable.call_contract hsession 10 ⟨0⟩).1 1
  -- Nothing is missing that the call needs.
  have hno : ¬ ∃ e, reply = .error e := by
    rw [hrefused]
    rintro (hphase | howned | ⟨p, hp, hentry⟩ | ⟨b, hb⟩)
    · cases hphase
    · exact howned List.mem_cons_self
    · cases hp
      cases hentry
    · refine hb ?_
      cases b with
      | ink => exact ⟨.setInk ⟨0⟩ 100, .done, by simp, rfl, rfl⟩
      | depth => exact ⟨.setDepth ⟨0⟩ 5, .done, by simp, rfl, rfl⟩
  have hreply := (htells alarmed 1 rfl rfl hno).panicked .other hpanic
  rw [hreply] at hperform
  exact ⟨hreachable, rfl, host', hperform, hframed.sessions⟩

end Host

end MeteredSandbox
