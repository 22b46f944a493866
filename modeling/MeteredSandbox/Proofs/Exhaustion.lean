import MeteredSandbox.Proofs.Chronicle
import MeteredSandbox.Proofs.Depletion

/-!
# Exhaustion over whole histories

Whether the ink of a linked program is exhausted can be read off the history of its host: it is if a
call of the program has run out of ink, and the budget has not been set since then
(`Host.Reachable.exhausted_iff`). This is an invariant along the history. Of one request it has to
be known how the program behind a handle came to be what it is afterwards, and `Desk.Came` says that
for requests of all kinds: most leave it as it was, and the others make it, set one of its budgets,
or call it.

Along the same histories a linked program keeps its catalog entry, its code and its imports
(`Host.Reachable.stems`). So what admission and linking guarantee of entry points holds for every
call that a session can make, and a call on an exhausted meter fails before its first instruction
(`Host.Reachable.exhaustion`).
-/

namespace MeteredSandbox

/-! ### What histories tell -/

/-- Whether a request calls the program behind a handle. -/
def Request.Calls (k : Handle) : Request → Prop
  | callEntry h _ | runStart h => h = k
  | _ => False

namespace History

/-- The ink of a handle is **renewed**: its budget is set, or a program is linked under it. -/
def Renews (k : Handle) (e : Request × Except SessionError Reply) : Prop :=
  (∃ budget reply, e = (.setInk k budget, .ok reply)) ∨
    ∃ digest, e = (.link digest, .ok (.linked k))

/-- A call of the program behind a handle **runs out** of ink. -/
def Exhausts (k : Handle) (e : Request × Except SessionError Reply) : Prop :=
  e.1.Calls k ∧ e.2 = .ok (.outcome (.failure .inkExhausted))

/-- **The ink of a handle has run out**: a call has run out of ink, and later the ink was not
renewed. -/
def RanOut (log : History) (k : Handle) : Prop :=
  ∃ recent e old, log = recent ++ e :: old ∧ Exhausts k e ∧ ∀ e' ∈ recent, ¬ Renews k e'

variable {log : History} {k : Handle} {e : Request × Except SessionError Reply} {r : Request}
  {reply : Reply}

theorem ranOut_cons : RanOut (e :: log) k ↔ Exhausts k e ∨ ¬ Renews k e ∧ RanOut log k := by
  constructor
  · rintro ⟨recent, e', old, hlog, hexhausts, hrecent⟩
    cases recent with
    | nil =>
      cases hlog
      exact .inl hexhausts
    | cons e'' recent =>
      cases hlog
      obtain ⟨he, hrecent⟩ := List.forall_mem_cons.mp hrecent
      exact .inr ⟨he, recent, e', old, rfl, hexhausts, hrecent⟩
  · rintro (hexhausts | ⟨he, recent, e', old, rfl, hexhausts, hrecent⟩)
    · exact ⟨[], e, log, rfl, hexhausts, fun _ h => absurd h List.not_mem_nil⟩
    · exact ⟨e :: recent, e', old, rfl, hexhausts, List.forall_mem_cons.mpr ⟨he, hrecent⟩⟩

/-- An event **touches** the ink of a handle if it renews it or runs out of it. -/
def Touches (k : Handle) (e : Request × Except SessionError Reply) : Prop :=
  Renews k e ∨ Exhausts k e

theorem ranOut_cons_of_not_touches (h : ¬ Touches k e) : RanOut (e :: log) k ↔ RanOut log k := by
  obtain ⟨hrenews, hexhausts⟩ := not_or.mp h
  rw [ranOut_cons, or_iff_right hexhausts, and_iff_right hrenews]

theorem not_ranOut_of_renews (h : Renews k e) : ¬ RanOut (e :: log) k := by
  rw [ranOut_cons]
  rintro (⟨hcall, -⟩ | ⟨hno, -⟩)
  · -- what renews the ink is no call
    rcases h with ⟨budget, reply, rfl⟩ | ⟨digest, rfl⟩
    · exact hcall
    · exact hcall
  · exact hno h

/-- A request that is refused touches nothing. -/
theorem not_touches_error (error : SessionError) : ¬ Touches k (r, .error error) := by
  rintro ((⟨budget, reply, ⟨⟩⟩ | ⟨digest, ⟨⟩⟩) | ⟨-, ⟨⟩⟩)

/-- A request touches the ink of a handle only if it names it or gets it for an answer. -/
theorem handle_of_touches (h : Touches k (r, .ok reply)) :
    r.handle? = some k ∨ reply = .linked k := by
  rcases h with (⟨budget, reply', ⟨⟩⟩ | ⟨digest, ⟨⟩⟩) | ⟨hcall, -⟩
  · exact .inl rfl
  · exact .inr rfl
  · cases r with
    | callEntry | runStart => exact .inl (congrArg some hcall)
    | _ => exact hcall.elim

end History

/-! ### Calls in the end -/

namespace LinkedProgram

variable {p : LinkedProgram} {limit : Nat} {h : Handle} {pricing : Pricing}
  {operands : OperandStack} {outcome : Outcome} {q : Option LinkedProgram}

/-- The outcome is that of a call, and the linked program is what the call leaves. -/
structure IsCall (p : LinkedProgram) (pricing : Pricing) (limit func : Nat)
    (operands : OperandStack) (outcome : Outcome) (q : Option LinkedProgram) : Prop where
  outcome : outcome = (p.call pricing limit func operands).1
  left : q = some (p.call pricing limit func operands).2.2

theorem isCall_of_serve {func : Nat}
    (hserve : p.serve limit h func pricing operands = .ok (outcome, q)) :
    p.IsCall pricing limit func operands outcome q := by
  unfold serve at hserve
  split at hserve
  next =>
    cases hserve
    exact ⟨rfl, rfl⟩
  next => cases hserve

theorem isCall_of_serveEntry {selector : Int}
    (hserve : p.serveEntry limit h selector pricing operands = .ok (outcome, q)) :
    ∃ func, p.entry.entry? selector = some func ∧
      p.IsCall pricing limit func operands outcome q := by
  unfold serveEntry at hserve
  split at hserve
  next => cases hserve
  next func hfunc => exact ⟨func, hfunc, isCall_of_serve hserve⟩

theorem isCall_of_serveStart
    (hserve : p.serveStart limit h pricing operands = .ok (outcome, q)) :
    outcome = .success none ∧ q = none ∨
      ∃ func, p.IsCall pricing limit func operands outcome q := by
  unfold serveStart at hserve
  split at hserve
  next =>
    cases hserve
    exact .inl ⟨rfl, rfl⟩
  next func _ => exact .inr ⟨func, isCall_of_serve hserve⟩

end LinkedProgram

/-! ### What a request does to a linked program -/

namespace Desk

/-- **How the program behind a handle came to be** what it is after a request. -/
inductive Came (d : Desk) (limit : Nat) (k : Handle) :
    Request → Except SessionError Reply → LinkedProgram → Prop
  /-- It was there before, and the request did nothing about its ink. -/
  | stayed {r : Request} {reply : Except SessionError Reply} {p : LinkedProgram}
      (hget : d.registry.get? k = some p) (htouches : ¬ History.Touches k (r, reply)) :
      Came d limit k r reply p
  | made {digest : Digest} {p : LinkedProgram} (hproduce : d.registry.produce digest = .ok p) :
      Came d limit k (.link digest) (.ok (.linked k)) p
  | inked {p : LinkedProgram} (budget : Int) (hget : d.registry.get? k = some p) :
      Came d limit k (.setInk k budget) (.ok .done)
        { p with meters := { p.meters with ink := p.meters.ink.set budget } }
  | deepened {p : LinkedProgram} (depth : Nat) (hget : d.registry.get? k = some p) :
      Came d limit k (.setDepth k depth) (.ok .done)
        { p with meters := { p.meters with depth := p.meters.depth.set depth } }
  | called {r : Request} {p : LinkedProgram} (func : Nat)
      (hr : r.Calls k)
      (hget : d.registry.get? k = some p) :
      Came d limit k r
        (.ok (.outcome (p.call d.registry.pricing limit func d.session.operands).1))
        (p.call d.registry.pricing limit func d.session.operands).2.2

variable {d d' : Desk} {r : Request}

/-- A request that is refused changes nothing. -/
theorem Step.eq_of_error {e : SessionError} (h : d.Step r (.error e) d') : d' = d := by
  cases h
  rfl

/-- A session that owns something is not halted. -/
theorem Sound.ne_halted (hd : d.Sound) {k : Handle} (hk : k ∈ d.session.owned) :
    d.session.phase ≠ .halted := by
  intro hhalted
  rcases hd.phase with ⟨-, hempty⟩ | hphase
  · rw [hempty] at hk
    exact absurd hk List.not_mem_nil
  · exact settledPhase_ne_halted d (hphase.symm.trans hhalted)

end Desk

namespace Request

variable {limit : Nat} {r : Request} {j : Job} {d : Desk}

/-- A job that is not refused has done its work, and has put in place what came of it. -/
theorem serve_of_job (hj : r.job? limit = some j) (hd : d.Sound) {reply : Reply}
    (hok : (r.serve limit d).1 = .ok reply) :
    ∃ p q, d.registry.get? j.handle = some p ∧
      j.work d.registry.pricing d.session.operands p = .ok (reply, q) ∧
      ∀ k, (r.serve limit d).2.registry.get? k
        = if k = j.handle then some (q.getD p) else d.registry.get? k := by
  unfold serve at hok ⊢
  rw [perform_job hj hd, Desk.carryOut] at hok ⊢
  cases hcheck : d.check j.operation j.handle with
  | error e =>
    rw [hcheck] at hok
    cases hok
  | ok p =>
    obtain ⟨-, -, hget⟩ := Desk.check_eq_ok hcheck
    rw [hcheck] at hok
    dsimp only at hok ⊢
    rcases hwork : j.work d.registry.pricing d.session.operands p with e | ⟨reply', _ | p'⟩
    · rw [hwork] at hok
      cases hok
    · rw [hwork] at hok
      cases hok
      refine ⟨p, none, hget, hwork, fun k => ?_⟩
      show d.registry.get? k = if k = j.handle then some p else d.registry.get? k
      by_cases hk : k = j.handle
      · rw [if_pos hk, hk, hget]
      · rw [if_neg hk]
    · rw [hwork] at hok
      cases hok
      refine ⟨p, some p', hget, hwork, fun k => ?_⟩
      show (d.registry.update j.handle p').get? k
        = if k = j.handle then some p' else d.registry.get? k
      rw [Registry.get?_update, hget]
      rfl

/-- What came of the work of a job. -/
theorem came_of_work (hj : r.job? limit = some j) {p : LinkedProgram} {reply : Reply}
    {q : Option LinkedProgram} (hget : d.registry.get? j.handle = some p)
    (hwork : j.work d.registry.pricing d.session.operands p = .ok (reply, q)) :
    d.Came limit j.handle r (.ok reply) (q.getD p) := by
  cases r with
  | setInk h budget =>
    cases hj
    cases hwork
    exact .inked budget hget
  | setDepth h depth =>
    cases hj
    cases hwork
    exact .deepened depth hget
  | inkLeft | inkStatus | depthLeft =>
    cases hj
    cases hwork
    refine .stayed hget ?_
    rintro ((⟨budget, reply, ⟨⟩⟩ | ⟨digest, ⟨⟩⟩) | ⟨-, ⟨⟩⟩)
  | callEntry h selector =>
    cases hj
    obtain ⟨outcome, hserve, rfl⟩ := exists_outcome hwork
    obtain ⟨func, -, ⟨rfl, rfl⟩⟩ := LinkedProgram.isCall_of_serveEntry hserve
    exact .called func rfl hget
  | runStart h =>
    cases hj
    obtain ⟨outcome, hserve, rfl⟩ := exists_outcome hwork
    rcases LinkedProgram.isCall_of_serveStart hserve with ⟨rfl, rfl⟩ | ⟨func, ⟨rfl, rfl⟩⟩
    · -- there is no start function, so nothing was called
      refine .stayed hget ?_
      rintro ((⟨budget, reply, ⟨⟩⟩ | ⟨digest, ⟨⟩⟩) | ⟨-, ⟨⟩⟩)
    · exact .called func rfl hget
  | link | unlink | halt | pushOperand | popOperand => cases hj

/-- A job does to the program behind a handle what is said of it. -/
theorem serve_came_of_job (hj : r.job? limit = some j) (hd : d.Sound) {k : Handle}
    {p : LinkedProgram} (hget : (r.serve limit d).2.registry.get? k = some p) :
    d.Came limit k r (r.serve limit d).1 p := by
  cases hreply : (r.serve limit d).1 with
  | error e =>
    have hstep := r.serve_step limit hd
    rw [hreply] at hstep
    rw [hstep.eq_of_error] at hget
    exact .stayed hget (History.not_touches_error e)
  | ok reply =>
    obtain ⟨q, q', hq, hwork, hall⟩ := serve_of_job hj hd hreply
    rw [hall] at hget
    by_cases hk : k = j.handle
    · rw [if_pos hk] at hget
      cases hget
      rw [hk]
      exact came_of_work hj hq hwork
    · rw [if_neg hk] at hget
      refine .stayed hget fun htouches => ?_
      -- the request names another handle, and a job hands out none
      rcases History.handle_of_touches htouches with hhandle | rfl
      · rw [handle?_of_job hj] at hhandle
        exact hk (Option.some.inj hhandle).symm
      · have hnone := issued?_of_work hj hwork
        cases hnone

/-- A request that is refused once the session is halted. -/
theorem came_of_open {operation : Operation} {x : EStateM.Result SessionError Desk Reply}
    {k : Handle} {p : LinkedProgram}
    (hx : (answered x).2.registry.get? k = some p → d.Came limit k r (answered x).1 p) :
    let y := if d.session.phase = .halted then .error (.notAllowed operation d.session.phase) d
      else x
    (answered y).2.registry.get? k = some p → d.Came limit k r (answered y).1 p := by
  by_cases hphase : d.session.phase = .halted
  · rw [if_pos hphase]
    exact fun hget => .stayed hget (History.not_touches_error _)
  · rw [if_neg hphase]
    exact hx

/-- A request that names no handle, and is not answered with one, touches no ink. -/
theorem not_touches_of_handle? {k : Handle} {reply : Reply} (hr : r.handle? ≠ some k)
    (hreply : reply ≠ .linked k) : ¬ History.Touches k (r, .ok reply) :=
  fun h => (History.handle_of_touches h).elim hr hreply

/-- **Every request** does to the program behind a handle what is said of it. -/
theorem serve_came (limit : Nat) (r : Request) (hd : d.Sound) {k : Handle} {p : LinkedProgram}
    (hget : (r.serve limit d).2.registry.get? k = some p) :
    d.Came limit k r (r.serve limit d).1 p := by
  cases r with
  | link digest =>
    unfold serve at hget ⊢
    rcases perform_link_cases limit d digest with ⟨e, h⟩ | ⟨p', -, hproduce, -, h⟩
    · rw [h] at hget ⊢
      exact .stayed hget (History.not_touches_error _)
    · rw [h] at hget ⊢
      change (d.registry.issue p').get? k = some p at hget
      rw [hd.fresh.get?_issue] at hget
      by_cases hk : k = ⟨d.registry.next⟩
      · rw [if_pos hk] at hget
        cases hget
        subst hk
        exact .made hproduce
      · rw [if_neg hk] at hget
        exact .stayed hget (not_touches_of_handle? (Option.some_ne_none k).symm
          fun heq => hk (Reply.linked.inj heq).symm)
  | unlink h =>
    unfold serve at hget ⊢
    rw [perform_unlink] at hget ⊢
    cases hcheck : d.check .unlink h with
    | error e =>
      rw [hcheck] at hget
      exact .stayed hget (History.not_touches_error _)
    | ok p' =>
      rw [hcheck] at hget
      change (d.registry.erase h).get? k = some p at hget
      rw [Registry.get?_erase] at hget
      by_cases hk : k = h
      · rw [if_pos hk] at hget
        cases hget
      · rw [if_neg hk] at hget
        exact .stayed hget (not_touches_of_handle? (fun heq => hk (Option.some.inj heq).symm)
          Reply.noConfusion)
  | halt =>
    unfold serve at hget ⊢
    rw [perform_halt] at hget ⊢
    refine came_of_open (fun hget => ?_) hget
    cases hphase : d.session.phase with
    | unlinked =>
      rw [hphase] at hget
      exact .stayed hget (not_touches_of_handle? (Option.some_ne_none k).symm Reply.noConfusion)
    | idle | linked | configured | invoking | halted =>
      rw [hphase] at hget
      exact .stayed hget (History.not_touches_error _)
  | pushOperand v =>
    unfold serve at hget ⊢
    rw [perform_pushOperand] at hget ⊢
    refine came_of_open (fun hget => ?_) hget
    exact .stayed hget (not_touches_of_handle? (Option.some_ne_none k).symm Reply.noConfusion)
  | popOperand =>
    unfold serve at hget ⊢
    rw [perform_popOperand] at hget ⊢
    refine came_of_open (fun hget => ?_) hget
    rcases hpop : d.session.operands.pop? with _ | ⟨v, operands⟩
    · rw [hpop] at hget
      exact .stayed hget (not_touches_of_handle? (Option.some_ne_none k).symm Reply.noConfusion)
    · rw [hpop] at hget
      exact .stayed hget (not_touches_of_handle? (Option.some_ne_none k).symm Reply.noConfusion)
  | setInk | setDepth | inkLeft | inkStatus | depthLeft | callEntry | runStart =>
    exact serve_came_of_job rfl hd hget

end Request

/-! ### Where linked programs stem from -/

/-- A linked program **stems** from a catalog: it has the code and the imports of an instance that
was made of a catalog entry. -/
structure LinkedProgram.Stems (catalog : Catalog) (resolver : Resolver) (p : LinkedProgram) :
    Prop where
  entry : p.entry ∈ catalog.entries
  made : ∃ i, instantiate p.entry.program resolver = .ok i ∧ p.guest.program = i.program ∧
    p.guest.host = i.host

/-- What is linked stems from the catalog. -/
theorem Registry.stems_of_produce {r : Registry} {digest : Digest} {p : LinkedProgram}
    (h : r.produce digest = .ok p) : p.Stems r.catalog r.resolver := by
  unfold produce at h
  split at h
  next => cases h
  next entry hentry =>
    split at h
    next => cases h
    next guest hguest =>
      cases h
      exact ⟨List.mem_of_find?_eq_some hentry, guest, hguest, rfl, rfl⟩

namespace Desk

variable {d : Desk} {limit : Nat} {k : Handle} {r : Request} {reply : Except SessionError Reply}
  {p : LinkedProgram}

/-- No request changes where the program behind a handle stems from. -/
theorem Came.stems (h : d.Came limit k r reply p)
    (hall : ∀ q, d.registry.get? k = some q → q.Stems d.registry.catalog d.registry.resolver) :
    p.Stems d.registry.catalog d.registry.resolver := by
  cases h with
  | stayed hget => exact hall _ hget
  | made hproduce => exact Registry.stems_of_produce hproduce
  | inked budget hget => exact ⟨(hall _ hget).entry, (hall _ hget).made⟩
  | deepened depth hget => exact ⟨(hall _ hget).entry, (hall _ hget).made⟩
  | called func hr hget => exact ⟨(hall _ hget).entry, (hall _ hget).made⟩

/-- **What a request does to the mark on the meter** is what it does to the history. -/
theorem Came.exhausted_iff (h : d.Came limit k r reply p) {log : History}
    (hhost : ∀ q, d.registry.get? k = some q →
      ∀ f ∈ q.guest.host, ∀ args, f args ≠ .trap .inkExhausted)
    (hall : ∀ q, d.registry.get? k = some q →
      (q.meters.ink.status = .exhausted ↔ log.RanOut k)) :
    p.meters.ink.status = .exhausted ↔ History.RanOut ((r, reply) :: log) k := by
  cases h with
  | stayed hget htouches =>
    rw [History.ranOut_cons_of_not_touches htouches]
    exact hall _ hget
  | @made digest p hproduce =>
    have hmeters : p.meters = {} := d.registry.meters_of_produce hproduce
    rw [hmeters]
    exact iff_of_false InkStatus.noConfusion
      (History.not_ranOut_of_renews (.inr ⟨digest, rfl⟩))
  | inked budget hget =>
    exact iff_of_false InkStatus.noConfusion
      (History.not_ranOut_of_renews (.inl ⟨budget, .done, rfl⟩))
  | @deepened q depth hget =>
    have htouches : ¬ History.Touches k (.setDepth k depth, .ok .done) := by
      rintro ((⟨budget, reply, ⟨⟩⟩ | ⟨digest, ⟨⟩⟩) | ⟨-, ⟨⟩⟩)
    rw [History.ranOut_cons_of_not_touches htouches]
    exact hall q hget
  | @called _ q func hr hget =>
    have hrenews : ¬ History.Renews k (r, .ok (.outcome
        (q.call d.registry.pricing limit func d.session.operands).1)) := by
      rintro (⟨budget, reply, ⟨⟩⟩ | ⟨digest, ⟨⟩⟩)
      exact hr
    have hexhausts : History.Exhausts k (r, .ok (.outcome
          (q.call d.registry.pricing limit func d.session.operands).1)) ↔
        (q.call d.registry.pricing limit func d.session.operands).1 = .failure .inkExhausted :=
      ⟨fun h => Reply.outcome.inj (Except.ok.inj h.2), fun h => ⟨hr, by rw [h]⟩⟩
    rw [q.call_status (hhost q hget), hall q hget, History.ranOut_cons, hexhausts,
      and_iff_right hrenews, or_comm]

end Desk

/-- Unlinking leaves the catalog and the imports as they are. -/
theorem Registry.foldl_erase_over (r : Registry) (handles : List Handle) :
    (handles.foldl erase r).catalog = r.catalog ∧ (handles.foldl erase r).resolver = r.resolver := by
  induction handles generalizing r with
  | nil => exact ⟨rfl, rfl⟩
  | cons h rest ih => exact ih (r.erase h)

namespace Host.Reachable

variable {catalog : Catalog} {resolver : Resolver} {log : History} {host : Host}
  (h : Reachable catalog resolver log host)
include h

/-- The catalog and the imports of a host are those that it began with. -/
theorem registry_over : host.registry.catalog = catalog ∧ host.registry.resolver = resolver := by
  induction h with
  | start => exact ⟨rfl, rfl⟩
  | openSession h ih => exact ih
  | @perform log host host' limit n r reply h hperform ih =>
    obtain ⟨s, hs, -, rfl⟩ := perform_eq_some hperform
    have hdesk := h.sound.sound n s hs
    have hframe := (r.serve_step limit hdesk).frame hdesk
    exact ⟨hframe.catalog.trans ih.1, hframe.resolver.trans ih.2⟩
  | @dropSession log host h n ih =>
    cases hs : host.session? n with
    | none =>
      unfold Host.dropSession
      rw [hs]
      exact ih
    | some s =>
      obtain ⟨hcatalog, hresolver⟩ := host.registry.foldl_erase_over s.owned
      rw [registry_drop hs]
      exact ⟨hcatalog.trans ih.1, hresolver.trans ih.2⟩

/-- **Whatever is linked stems from the catalog.** -/
theorem stems {k : Handle} {p : LinkedProgram} (hget : host.registry.get? k = some p) :
    p.Stems catalog resolver := by
  induction h generalizing p with
  | start => cases hget
  | openSession h ih => exact ih hget
  | @perform log host host' limit n r reply h hperform ih =>
    obtain ⟨s, hs, -, rfl⟩ := perform_eq_some hperform
    obtain ⟨rfl, rfl⟩ := h.registry_over
    exact (r.serve_came limit (h.sound.sound n s hs) hget).stems fun q hq => ih hq
  | dropSession h n ih => exact ih (get?_dropSession hget)

/-- **Ink is exhausted when it has run out** in the history, if no host function says of its own
accord that it is. -/
theorem exhausted_iff
    (hresolver : ∀ source name type f, resolver source name type = some f →
      ∀ args, f args ≠ .trap .inkExhausted)
    {k : Handle} {p : LinkedProgram} (hget : host.registry.get? k = some p) :
    p.meters.ink.status = .exhausted ↔ log.RanOut k := by
  induction h generalizing p with
  | start => cases hget
  | openSession h ih => exact ih hget
  | @perform log host host' limit n r reply h hperform ih =>
    obtain ⟨s, hs, rfl, rfl⟩ := perform_eq_some hperform
    refine (r.serve_came limit (h.sound.sound n s hs) hget).exhausted_iff (fun q hq f hf => ?_)
      fun q hq => ih hq
    -- the imports of what is linked are known to the resolver
    obtain ⟨i, hinstance, -, hhost⟩ := (h.stems hq).made
    rw [hhost] at hf
    obtain ⟨source, name, type, hresolve⟩ := exists_resolve_of_mem_host hinstance hf
    exact hresolver source name type f hresolve
  | dropSession h n ih => exact ih (get?_dropSession hget)

end Host.Reachable

/-! ### What a session is told -/

namespace Host

variable {host : Host} {n : Nat} {s : Session} {k : Handle} {p : LinkedProgram}

/-- What a session is **told** of a handle is what the linked program has. -/
structure Reports (host : Host) (n : Nat) (k : Handle) (p : LinkedProgram) : Prop where
  get? : host.registry.get? k = some p
  inkStatus : ∀ limit, host.perform limit n (.inkStatus k)
    = some (.ok (.status p.meters.ink.status), host)
  inkLeft : ∀ limit, host.perform limit n (.inkLeft k)
    = some (.ok (.ink p.meters.ink.remaining), host)
  depthLeft : ∀ limit, host.perform limit n (.depthLeft k)
    = some (.ok (.depth p.meters.depth.remaining), host)

/-- A query about a handle that the session owns is answered, and changes nothing. -/
theorem Sound.perform_query (hhost : host.Sound) (hs : host.session? n = some s)
    (hk : k ∈ s.owned) (hget : host.registry.get? k = some p) {limit : Nat} {r : Request}
    {operation : Operation} (answer : LinkedProgram → Reply)
    (hj : r.job? limit = some ⟨operation, k, fun _ _ p => .ok (answer p, none)⟩) :
    host.perform limit n r = some (.ok (answer p), host) := by
  have hdesk := hhost.sound n s hs
  have hphase := hdesk.ne_halted hk
  rw [perform_of_session hs, Request.serve, Request.perform_job hj hdesk, Desk.carryOut,
    Desk.check_of_get? operation hphase hk hget]
  change some (Except.ok (answer p), host.put n (Desk.settle ⟨host.registry, s⟩)) = _
  rw [hdesk.settle_eq hphase, put_self hs]

theorem Sound.reports (hhost : host.Sound) (hs : host.session? n = some s) (hk : k ∈ s.owned)
    (hget : host.registry.get? k = some p) : host.Reports n k p where
  get? := hget
  inkStatus _ := hhost.perform_query hs hk hget (fun p => .status p.meters.ink.status) rfl
  inkLeft _ := hhost.perform_query hs hk hget (fun p => .ink p.meters.ink.remaining) rfl
  depthLeft _ := hhost.perform_query hs hk hget (fun p => .depth p.meters.depth.remaining) rfl

/-- A call of an entry point that is not refused is a call of the linked program. -/
theorem Sound.callEntry_eq_ok (hhost : host.Sound) (hs : host.session? n = some s)
    (hget : host.registry.get? k = some p) {limit : Nat} {selector : Int} {reply : Reply}
    {host' : Host} (hperform : host.perform limit n (.callEntry k selector)
      = some (.ok reply, host')) :
    ∃ func, p.entry.entry? selector = some func ∧
      reply = .outcome (p.call host.registry.pricing limit func s.operands).1 ∧
      host'.registry.get? k = some (p.call host.registry.pricing limit func s.operands).2.2 := by
  obtain ⟨s', hs', hreply, rfl⟩ := perform_eq_some hperform
  rw [hs] at hs'
  cases hs'
  obtain ⟨q, q', hq, hwork, hall⟩ := Request.serve_of_job rfl (hhost.sound n s hs) hreply.symm
  rw [show host.registry.get? k = some q from hq] at hget
  cases hget
  obtain ⟨outcome, hserve, rfl⟩ := Request.exists_outcome hwork
  obtain ⟨func, hfunc, ⟨rfl, rfl⟩⟩ := LinkedProgram.isCall_of_serveEntry hserve
  exact ⟨func, hfunc, rfl, (hall k).trans (if_pos rfl)⟩

/-- **Exhaustion.** Take any host that sessions can lead to over a catalog of admitted programs,
with the standard imports, and any handle that a session owns. Its ink is exhausted exactly when a
call of its program has run out of ink since the budget was last set, or since the program was
linked. As long as it is, every call of an entry point that is not a mistake of the embedder

* ends for lack of ink, or for lack of stack, but that only if no frame may be opened and the entry
  point declares no locals;
* carries out no instruction;
* leaves what the handle stands for as it is, and so all that can be asked about it.

A call is given a bound on its turns, which is to allow for one. -/
theorem Reachable.exhaustion {policy : Policy} {catalog : Catalog} (hfilled : catalog.Filled policy)
    {log : History} (h : Reachable catalog Imports.standard.resolve log host)
    (hs : host.session? n = some s) (hk : k ∈ s.owned) :
    ∃ p, host.Reports n k p ∧ (p.meters.ink.status = .exhausted ↔ log.RanOut k) ∧
      (p.meters.ink.status = .exhausted → ∀ limit selector, 0 < limit →
        ∃ reply host', host.perform limit n (.callEntry k selector) = some (reply, host') ∧
          host'.Reports n k p ∧
          ∀ a, reply = .ok a → ∃ func body, p.entry.entry? selector = some func ∧
            p.guest.program.body? func = some body ∧
            (a = .outcome (.failure .inkExhausted) ∨
              a = .outcome (.failure .stackExhausted) ∧ p.meters.depth.remaining = 0 ∧
                body.locals.size = 0) ∧
            p.executed host.registry.pricing limit func s.operands = []) := by
  obtain ⟨p, hget⟩ := Option.isSome_iff_exists.mp ((h.sound.sound n s hs).owned k hk)
  have hreports : host.Reports n k p := h.sound.reports hs hk hget
  refine ⟨p, hreports, h.exhausted_iff (fun source name type f hf => ?_) hget,
    fun hstatus limit selector hlimit => ?_⟩
  · rw [(Imports.eq_of_standard_resolve hf).1]
    exact Imports.abort_ne_inkExhausted
  · obtain ⟨reply, host', hperform, hanswered⟩ := h.sound.perform_call hs (.callEntry k selector)
      (fun pricing operands p => p.serveEntry limit k selector pricing operands) rfl
      LinkedProgram.used_of_serveEntry
    refine ⟨reply, host', hperform, ?_⟩
    cases reply with
    | error e =>
      rw [hanswered.unchanged ⟨e, rfl⟩]
      exact ⟨hreports, fun a ha => by cases ha⟩
    | ok a =>
      obtain ⟨func, hfunc, ha, hget'⟩ := h.sound.callEntry_eq_ok hs hget hperform
      -- what the selector leads to is a guest entry, in the program as it was linked
      obtain ⟨i, hinstance, hprogram, -⟩ := (h.stems hget).made
      obtain ⟨hmade, -⟩ := instantiate_eq_ok hinstance
      obtain ⟨type, body, hentry⟩ := hfilled.exists_entry (h.stems hget).entry hinstance hfunc
      rw [← hmade, ← hprogram] at hentry
      obtain ⟨houtcome, hexecuted, hleft⟩ :=
        LinkedProgram.call_of_exhausted hentry hstatus host.registry.pricing hlimit s.operands
      rw [hleft] at hget'
      have hs' : host'.session? n = some s := by
        unfold session?
        rw [hanswered.framed.sessions]
        exact hs
      refine ⟨(h.sound.perform hperform).reports hs' hk hget', ?_⟩
      rintro a' ⟨⟩
      refine ⟨func, body, hfunc, hentry.compiled, ?_, hexecuted⟩
      rw [ha, houtcome]
      by_cases hno : body.locals.size = 0 ∧ p.meters.depth.remaining = 0
      · rw [if_pos hno]
        exact .inr ⟨rfl, hno.2, hno.1⟩
      · rw [if_neg hno]
        exact .inl rfl

/-- The bytes of a module with one function, which does nothing and is an entry point. -/
def idleBytes : List UInt8 :=
  [0x00, 0x61, 0x73, 0x6d, 0x01, 0x00, 0x00, 0x00, 0x01, 0x04, 0x01, 0x60, 0x00, 0x00, 0x03, 0x02,
    0x01, 0x00, 0x07, 0x0b, 0x01, 0x07, 0x65, 0x6e, 0x74, 0x72, 0x79, 0x5f, 0x30, 0x00, 0x00, 0x0a,
    0x04, 0x01, 0x02, 0x00, 0x0b]

/-- The module that they spell. -/
def idleModule : Module where
  types := [{ params := [], results := [] }]
  funcs := [0]
  exports := [{ name := "entry_0", kind := .func 0 }]
  codes := [{ locals := [], body := [0x0b] }]

/-- The program that is made of the module. -/
def idleProgram : Program where
  source := idleModule
  signatures := #[some { params := [], results := [] }]
  imported := 0
  bodies := #[{ locals := #[], code := #[.endMark] }]

/-- The catalog entry that is made of it. -/
def idleEntry : CatalogEntry where
  digest := .of idleBytes
  program := idleProgram
  points := [{ selector := 0, name := "entry_0", func := 0 }]
  start := none

/-- The linked program, after it has been called without ink. -/
def drained : LinkedProgram where
  entry := idleEntry
  guest := {
    program := idleProgram
    host := #[]
    store := { memory := none, table := none, globals := #[] } }
  meters := {
    ink := { remaining := 0, status := .exhausted, configured := true }
    depth := { remaining := 1, configured := true } }

/-- The host after that. -/
def thirsty : Host where
  registry := {
    catalog := { policy := {}, entries := [idleEntry] }
    resolver := Imports.standard.resolve
    counter := 1
    linked := [(⟨0⟩, drained)] }
  sessions := [some {
    owned := [⟨0⟩]
    operands := .empty
    phase := .configured
    everLinked := true }]

private theorem parse_idleBytes : Module.parse idleBytes = .ok idleModule := by
  have hsections : RawSection.all ⟨8, idleBytes.drop 8⟩ = (
      [{ id := .types, payloadOffset := 10, payload := [0x01, 0x60, 0x00, 0x00] },
        { id := .functions, payloadOffset := 16, payload := [0x01, 0x00] },
        { id := .exports, payloadOffset := 20, payload := [0x01, 0x07, 0x65, 0x6e, 0x74, 0x72,
            0x79, 0x5f, 0x30, 0x00, 0x00] },
        { id := .code, payloadOffset := 33, payload := [0x01, 0x02, 0x00, 0x0b] }],
      none) := by cbv
  exact Module.parse_of_sections rfl hsections rfl rfl

private theorem accept_idleBytes : Policy.accept {} idleBytes = .ok idleEntry := by
  have hadjusted : Policy.adjusted {} idleBytes = .ok idleModule := by
    unfold Policy.adjusted
    rw [parse_idleBytes]
    rfl
  have hvalid : idleModule.validate = .ok () := rfl
  have hbodies : idleModule.compileBodies 0 idleModule.codes
      = .ok [{ locals := #[], code := #[.endMark] }] := by cbv
  have hprogram : Program.ofModule idleModule = .ok idleProgram :=
    Program.ofModule_of_bodies hvalid hbodies
  have hpoints : idleProgram.entryPoints "entry_"
      = .ok [{ selector := 0, name := "entry_0", func := 0 }] := by cbv
  have hstart : idleProgram.exportedFunc? "guest_start" = none := by cbv
  unfold Policy.accept
  rw [hadjusted]
  dsimp only [Bind.bind, Except.bind]
  rw [hprogram]
  dsimp only [Except.mapError]
  rw [hpoints]
  dsimp only
  rw [hstart]
  rfl

private theorem thirsty_reachable :
    Reachable thirsty.registry.catalog Imports.standard.resolve [
      (.callEntry ⟨0⟩ 0, .ok (.outcome (.failure .inkExhausted))), (.setDepth ⟨0⟩ 1, .ok .done),
      (.setInk ⟨0⟩ 0, .ok .done), (.link idleEntry.digest, .ok (.linked ⟨0⟩))] thirsty := by
  have hopen : Reachable thirsty.registry.catalog Imports.standard.resolve []
      (openSession { registry := {
        catalog := thirsty.registry.catalog, resolver := Imports.standard.resolve } }) :=
    Reachable.start.openSession
  have hproduce : Registry.produce {
        catalog := thirsty.registry.catalog, resolver := Imports.standard.resolve }
      idleEntry.digest = .ok { drained with meters := {} } := by
    have hget : thirsty.registry.catalog.get? idleEntry.digest = some idleEntry :=
      List.find?_cons_of_pos (decide_eq_true rfl)
    unfold Registry.produce
    dsimp only
    rw [hget]
    rfl
  have hsession : (openSession { registry := {
      catalog := thirsty.registry.catalog
      resolver := Imports.standard.resolve } }).session? 0 = some {} := rfl
  have hroom : Registry.HasRoom {
      catalog := thirsty.registry.catalog, resolver := Imports.standard.resolve } := by decide
  have hlink := hopen.perform (perform_link_of_ok hsession Phase.noConfusion hproduce hroom 10)
  have hstep : ∀ {log : History} {host host' : Host} (r : Request) (reply : Reply),
      Reachable thirsty.registry.catalog Imports.standard.resolve log host →
      host.perform 10 0 r = some (.ok reply, host') →
      Reachable thirsty.registry.catalog Imports.standard.resolve ((r, .ok reply) :: log) host' :=
    fun r reply h hperform => h.perform hperform
  have hink := hstep (.setInk ⟨0⟩ 0) .done hlink rfl
  have hdepth := hstep (.setDepth ⟨0⟩ 1) .done hink rfl
  exact hstep (.callEntry ⟨0⟩ 0) (.outcome (.failure .inkExhausted)) hdepth rfl

/-- A session has called an entry point without ink. Its program reports so, and a second call ends
as the first, for lack of ink, without an instruction carried out. -/
theorem idle_exhaustion :
    ∃ c : Catalog, c.Filled {} ∧ ∃ log, Reachable c Imports.standard.resolve log thirsty ∧
      log.RanOut ⟨0⟩ ∧ thirsty.Reports 0 ⟨0⟩ drained ∧ drained.meters.ink.status = .exhausted ∧
      ∃ host', thirsty.perform 5 0 (.callEntry ⟨0⟩ 0)
          = some (.ok (.outcome (.failure .inkExhausted)), host') ∧
        host'.Reports 0 ⟨0⟩ drained ∧ drained.executed {} 5 0 .empty = [] := by
  have hfilled : Catalog.Filled {} thirsty.registry.catalog :=
    .insert .empty (Catalog.insert_of_accept rfl accept_idleBytes)
  have hsession : thirsty.session? 0 = some {
      owned := [⟨0⟩]
      operands := .empty
      phase := .configured
      everLinked := true } := rfl
  obtain ⟨p, hreports, hiff, hcalls⟩ :=
    thirsty_reachable.exhaustion hfilled hsession List.mem_cons_self
  have hp : p = drained := Option.some.inj (hreports.get?.symm.trans rfl)
  subst hp
  obtain ⟨reply, host', hperform, hkept, hoks⟩ := hcalls rfl 5 0 (by decide)
  -- nothing that the call needs is missing, so that it is answered
  have hreply : reply = .ok (.outcome (.failure .inkExhausted)) :=
    (Prod.mk.inj (Option.some.inj (hperform.symm.trans rfl))).1
  subst hreply
  obtain ⟨func, body, hfunc, -, -, hexecuted⟩ := hoks _ rfl
  cases hfunc
  exact ⟨_, hfilled, _, thirsty_reachable, hiff.mp rfl, hreports, rfl, host', hperform, hkept,
    hexecuted⟩

end Host

end MeteredSandbox
