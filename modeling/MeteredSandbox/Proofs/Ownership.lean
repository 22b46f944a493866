import MeteredSandbox.Proofs.Requests

/-!
# Handles and who owns them

Sessions share a registry, and what keeps them apart is that each works only with handles that it
owns. This module says once what a request can do to a desk (`Desk.Step`) and derives from it what
holds of every host that sessions can lead to (`Host.Reachable.sound`, `Host.Reachable.isSet_iff`):
a handle that is owned is linked, no two sessions own it, a session that is not halted is in the
phase that its handles put it in, and a budget is set exactly when a request of the history has set
it.
-/

namespace MeteredSandbox

/-! ### Budgets -/

/-- What a linked program has a budget of. -/
inductive Resource where
  | ink
  | depth

namespace Meters

/-- Whether the budget of a resource has been set. -/
def IsSet (m : Meters) : Resource → Prop
  | .ink => m.ink.configured = true
  | .depth => m.depth.configured = true

theorem configured_iff (m : Meters) : m.configured = true ↔ ∀ b, m.IsSet b := by
  unfold configured
  rw [Bool.and_eq_true]
  constructor
  · rintro ⟨hink, hdepth⟩ b
    cases b with
    | ink => exact hink
    | depth => exact hdepth
  · intro h
    exact ⟨h .ink, h .depth⟩

theorem Worn.isSet_iff {m m' : Meters} (h : Worn m m') (b : Resource) : m'.IsSet b ↔ m.IsSet b := by
  cases b with
  | ink => exact Eq.to_iff (congrArg (· = true) h.inkConfigured)
  | depth => exact Eq.to_iff (congrArg (· = true) h.depthConfigured)

end Meters

/-- Whether a request, if it succeeds, sets the budget of a resource for a handle. -/
def Request.Sets (b : Resource) (h : Handle) : Request → Prop
  | setInk k _ => k = h ∧ b = .ink
  | setDepth k _ => k = h ∧ b = .depth
  | _ => False

/-- The handle that an answer hands out. -/
def issued? : Except SessionError Reply → Option Handle
  | .ok (.linked h) => some h
  | _ => none

/-! ### What a request can do -/

namespace Desk

/-- **What a request can do.** It answers, and either leaves the desk alone or changes one thing
about it. -/
inductive Step (d : Desk) (r : Request) : Except SessionError Reply → Desk → Prop
  | refuse (e : SessionError) : Step d r (.error e) d
  | look (reply : Reply) (hreply : issued? (.ok reply) = none) (hr : ∀ b h, ¬ r.Sets b h) :
      Step d r (.ok reply) d
  /-- Puts another linked program in the place of one that the session owns. -/
  | work (reply : Reply) (hreply : issued? (.ok reply) = none) (h : Handle) (p p' : LinkedProgram)
      (howned : h ∈ d.session.owned) (hget : d.registry.get? h = some p)
      (hset : ∀ b, p'.meters.IsSet b ↔ p.meters.IsSet b ∨ r.Sets b h)
      (hr : ∀ b k, r.Sets b k → k = h) : Step d r (.ok reply) (d.update h p').settle
  | adopt (p : LinkedProgram) (hroom : d.registry.HasRoom) (hp : p.meters = {})
      (hr : ∀ b h, ¬ r.Sets b h) :
      Step d r (.ok (.linked ⟨d.registry.next⟩)) (d.adopt p)
  | abandon (h : Handle) (howned : h ∈ d.session.owned) (hr : ∀ b h, ¬ r.Sets b h) :
      Step d r (.ok .done) (d.abandon h)
  | close (hphase : d.session.phase = .unlinked) (hr : ∀ b h, ¬ r.Sets b h) :
      Step d r (.ok .done) d.close
  | operands (reply : Reply) (hreply : issued? (.ok reply) = none) (operands : OperandStack)
      (hphase : d.session.phase ≠ .halted) (hr : ∀ b h, ¬ r.Sets b h) :
      Step d r (.ok reply) (d.setOperands operands)

end Desk

namespace LinkedProgram

/-- What a call may do to a linked program: its meters are worn, the depth is as it was, and the
program that it was made from stays. -/
structure Used (p p' : LinkedProgram) : Prop where
  entry : p'.entry = p.entry
  worn : p.meters.Worn p'.meters
  depth : p'.meters.depth = p.meters.depth

variable {p : LinkedProgram} {limit : Nat} {h : Handle} {pricing : Pricing}
  {operands : OperandStack} {outcome : Outcome} {q : Option LinkedProgram}

theorem used_of_serve {func : Nat}
    (hserve : p.serve limit h func pricing operands = .ok (outcome, q)) :
    ∀ p' ∈ q, p.Used p' := by
  unfold serve at hserve
  split at hserve
  next =>
    cases hserve
    rintro p' ⟨⟩
    exact ⟨p.call_entry pricing limit func operands, p.call_worn pricing limit func operands,
      p.call_depth pricing limit func operands⟩
  next => cases hserve

theorem used_of_serveEntry {selector : Int}
    (hserve : p.serveEntry limit h selector pricing operands = .ok (outcome, q)) :
    ∀ p' ∈ q, p.Used p' := by
  unfold serveEntry at hserve
  split at hserve
  next => cases hserve
  next => exact used_of_serve hserve

theorem used_of_serveStart
    (hserve : p.serveStart limit h pricing operands = .ok (outcome, q)) :
    ∀ p' ∈ q, p.Used p' := by
  unfold serveStart at hserve
  split at hserve
  next =>
    cases hserve
    rintro p' ⟨⟩
  next => exact used_of_serve hserve

end LinkedProgram

namespace Request

/-- The answer of a result apart from the desk that it leaves. -/
def answered : EStateM.Result SessionError Desk Reply → Except SessionError Reply × Desk
  | .ok reply d => (.ok reply, d)
  | .error e d => (.error e, d)

/-- What a session answers, and the desk that it leaves. -/
def serve (limit : Nat) (r : Request) (d : Desk) : Except SessionError Reply × Desk :=
  answered (r.perform limit d)

variable {limit : Nat} {r : Request} {j : Job}

/-- A call answers with an outcome. -/
theorem exists_outcome {x : Result Outcome} {reply : Reply} {q : Option LinkedProgram}
    (hx : x.map (Prod.map Reply.outcome id) = .ok (reply, q)) :
    ∃ outcome, x = .ok (outcome, q) ∧ reply = .outcome outcome := by
  rcases x with e | ⟨outcome, q'⟩
  · cases hx
  · cases hx
    exact ⟨outcome, rfl, rfl⟩

/-- A job sets budgets of the handle that it looks at only. -/
theorem handle_of_sets (hj : r.job? limit = some j) {b : Resource} {k : Handle} (hr : r.Sets b k) :
    k = j.handle := by
  cases r with
  | setInk h budget => cases hj; exact hr.1.symm
  | setDepth h depth => cases hj; exact hr.1.symm
  | link | unlink | inkLeft | inkStatus | depthLeft | callEntry | runStart | halt | pushOperand
  | popOperand => exact hr.elim

/-- A job hands out no handle. -/
theorem issued?_of_work (hj : r.job? limit = some j) {pricing : Pricing} {operands : OperandStack}
    {p : LinkedProgram} {reply : Reply} {q : Option LinkedProgram}
    (hwork : j.work pricing operands p = .ok (reply, q)) : issued? (.ok reply) = none := by
  cases r with
  | callEntry h selector =>
    cases hj
    obtain ⟨outcome, -, rfl⟩ := exists_outcome hwork
    rfl
  | runStart h =>
    cases hj
    obtain ⟨outcome, -, rfl⟩ := exists_outcome hwork
    rfl
  | setInk | setDepth | inkLeft | inkStatus | depthLeft =>
    cases hj
    cases hwork
    rfl
  | link | unlink | halt | pushOperand | popOperand => cases hj

/-- A job that leaves the linked program alone sets no budget. -/
theorem not_sets_of_work (hj : r.job? limit = some j) {pricing : Pricing} {operands : OperandStack}
    {p : LinkedProgram} {reply : Reply} (hwork : j.work pricing operands p = .ok (reply, none))
    (b : Resource) (h : Handle) : ¬ r.Sets b h := by
  cases r with
  | setInk h budget => cases hj; cases hwork
  | setDepth h depth => cases hj; cases hwork
  | link | unlink | inkLeft | inkStatus | depthLeft | callEntry | runStart | halt | pushOperand
  | popOperand => exact id

/-- A job that replaces the linked program sets the budget that the request is about, and no
other. -/
theorem isSet_of_work (hj : r.job? limit = some j) {pricing : Pricing} {operands : OperandStack}
    {p p' : LinkedProgram} {reply : Reply}
    (hwork : j.work pricing operands p = .ok (reply, some p')) (b : Resource) :
    p'.meters.IsSet b ↔ p.meters.IsSet b ∨ r.Sets b j.handle := by
  cases r with
  | setInk h budget =>
    cases hj
    cases hwork
    cases b with
    | ink => exact iff_of_true rfl (.inr ⟨rfl, rfl⟩)
    | depth => exact (or_iff_left fun hr => Resource.noConfusion hr.2).symm
  | setDepth h depth =>
    cases hj
    cases hwork
    cases b with
    | ink => exact (or_iff_left fun hr => Resource.noConfusion hr.2).symm
    | depth => exact iff_of_true rfl (.inr ⟨rfl, rfl⟩)
  | callEntry h selector =>
    cases hj
    obtain ⟨outcome, hserve, -⟩ := exists_outcome hwork
    exact ((LinkedProgram.used_of_serveEntry hserve p' rfl).worn.isSet_iff b).trans
      (or_iff_left id).symm
  | runStart h =>
    cases hj
    obtain ⟨outcome, hserve, -⟩ := exists_outcome hwork
    exact ((LinkedProgram.used_of_serveStart hserve p' rfl).worn.isSet_iff b).trans
      (or_iff_left id).symm
  | inkLeft h => cases hj; cases hwork
  | inkStatus h => cases hj; cases hwork
  | depthLeft h => cases hj; cases hwork
  | link | unlink | halt | pushOperand | popOperand => cases hj

variable {d : Desk}

/-- A job is a step. -/
theorem serve_step_of_job (hj : r.job? limit = some j) (hd : d.Sound) :
    d.Step r (r.serve limit d).1 (r.serve limit d).2 := by
  unfold serve
  rw [perform_job hj hd, Desk.carryOut]
  cases hcheck : d.check j.operation j.handle with
  | error e => exact .refuse e
  | ok p =>
    obtain ⟨hphase, howned, hget⟩ := Desk.check_eq_ok hcheck
    dsimp only
    rcases hwork : j.work d.registry.pricing d.session.operands p with e | ⟨reply, _ | p'⟩
    · change d.Step r (.error e) d.settle
      rw [hd.settle_eq hphase]
      exact .refuse e
    · change d.Step r (.ok reply) d.settle
      rw [hd.settle_eq hphase]
      exact .look reply (issued?_of_work hj hwork) (not_sets_of_work hj hwork)
    · exact .work reply (issued?_of_work hj hwork) j.handle p p' howned hget
        (isSet_of_work hj hwork) fun _ _ => handle_of_sets hj

/-- A request that is refused once the session is halted is a step if what it does otherwise is
one. -/
theorem step_of_open {operation : Operation} {x : EStateM.Result SessionError Desk Reply}
    (hx : d.session.phase ≠ .halted → d.Step r (answered x).1 (answered x).2) :
    let y := if d.session.phase = .halted then .error (.notAllowed operation d.session.phase) d
      else x
    d.Step r (answered y).1 (answered y).2 := by
  by_cases hphase : d.session.phase = .halted
  · rw [if_pos hphase]
    exact .refuse _
  · rw [if_neg hphase]
    exact hx hphase

/-- **Every request is a step.** -/
theorem serve_step (limit : Nat) (r : Request) (hd : d.Sound) :
    d.Step r (r.serve limit d).1 (r.serve limit d).2 := by
  cases r with
  | link digest =>
    unfold serve
    rcases perform_link_cases limit d digest with ⟨e, h⟩ | ⟨p, -, hproduce, hroom, h⟩
    · rw [h]
      exact .refuse e
    · rw [h]
      exact .adopt p hroom (d.registry.meters_of_produce hproduce) fun _ _ => id
  | unlink h =>
    unfold serve
    rw [perform_unlink]
    cases hcheck : d.check .unlink h with
    | error e => exact .refuse e
    | ok p => exact .abandon h (Desk.check_eq_ok hcheck).2.1 fun _ _ => id
  | halt =>
    unfold serve
    rw [perform_halt]
    refine step_of_open fun hphase => ?_
    cases hunlinked : d.session.phase with
    | unlinked => exact .close hunlinked fun _ _ => id
    | idle | linked | configured | invoking | halted => exact .refuse _
  | pushOperand v =>
    unfold serve
    rw [perform_pushOperand]
    exact step_of_open fun hphase => .operands _ rfl _ hphase fun _ _ => id
  | popOperand =>
    unfold serve
    rw [perform_popOperand]
    refine step_of_open fun hphase => ?_
    rcases d.session.operands.pop? with _ | ⟨v, operands⟩
    · exact .look _ rfl fun _ _ => id
    · exact .operands _ rfl _ hphase fun _ _ => id
  | setInk | setDepth | inkLeft | inkStatus | depthLeft | callEntry | runStart =>
    exact serve_step_of_job rfl hd

end Request

/-! ### What every step keeps -/

namespace Desk

variable {d d' : Desk} {r : Request} {reply : Except SessionError Reply}

/-- A desk that has settled fits if its handles do. -/
theorem sound_settle (fresh : d.registry.Fresh)
    (owned : ∀ k ∈ d.session.owned, (d.registry.get? k).isSome) : d.settle.Sound :=
  ⟨fresh, owned, .inr rfl⟩

/-- A step leaves a desk that fits. -/
theorem Step.sound (h : d.Step r reply d') (hd : d.Sound) : d'.Sound := by
  cases h with
  | refuse e => exact hd
  | look reply hreply hr => exact hd
  | work reply hreply h p p' howned hget hset hr =>
    refine sound_settle (hd.fresh.update h p') fun k hk => ?_
    change ((d.registry.update h p').get? k).isSome
    rw [Registry.get?_update]
    split
    next => rw [hget]; rfl
    next => exact hd.owned k hk
  | adopt p hroom hp hr =>
    refine sound_settle (hd.fresh.issue p hroom) fun k hk => ?_
    change ((d.registry.issue p).get? k).isSome
    rw [hd.fresh.get?_issue]
    split
    next => rfl
    next hne =>
      rcases List.mem_append.mp hk with hold | hnew
      · exact hd.owned k hold
      · exact absurd (List.mem_singleton.mp hnew) hne
  | abandon h howned hr =>
    refine sound_settle (hd.fresh.erase h) fun k hk => ?_
    change ((d.registry.erase h).get? k).isSome
    obtain ⟨hold, hne⟩ := List.mem_filter.mp hk
    rw [Registry.get?_erase_of_ne d.registry (of_decide_eq_true hne)]
    exact hd.owned k hold
  | close hphase hr =>
    -- A session whose phase is `unlinked` owns nothing.
    have hempty : d.session.owned = [] := by
      rcases hd.phase with ⟨-, hempty⟩ | hsettled
      · exact hempty
      · by_contra hne
        rw [hphase, settledPhase, if_neg hne] at hsettled
        split at hsettled
        · cases hsettled
        · cases hsettled
    exact ⟨hd.fresh, hd.owned, .inl ⟨rfl, hempty⟩⟩
  | operands reply hreply operands hphase hr => exact ⟨hd.fresh, hd.owned, hd.phase⟩

/-- What a step leaves as it was. -/
structure Frame (d d' : Desk) : Prop where
  catalog : d'.registry.catalog = d.registry.catalog
  resolver : d'.registry.resolver = d.registry.resolver
  next_le : d.registry.next ≤ d'.registry.next
  /-- Handles that were issued and that the session does not own. -/
  foreign : ∀ k ∉ d.session.owned, k.number < d.registry.next →
    d'.registry.get? k = d.registry.get? k
  /-- A handle comes to be linked only by being issued. -/
  linked : ∀ k, k.number < d.registry.next → (d'.registry.get? k).isSome →
    (d.registry.get? k).isSome
  /-- A handle comes to be owned only by being issued. -/
  owned : ∀ k ∈ d'.session.owned, k ∈ d.session.owned ∨ d.registry.next ≤ k.number

theorem Frame.refl (d : Desk) : Frame d d :=
  ⟨rfl, rfl, le_rfl, fun _ _ _ => rfl, fun _ _ => id, fun _ hk => .inl hk⟩

/-- **A step leaves what belongs to others alone.** -/
theorem Step.frame (h : d.Step r reply d') (hd : d.Sound) : Frame d d' := by
  cases h with
  | refuse e => exact .refl d
  | look reply hreply hr => exact .refl d
  | work reply hreply h p p' howned hget hset hr =>
    refine ⟨rfl, rfl, le_rfl, fun k hk _ => ?_, fun k _ hk => ?_, fun k hk => .inl hk⟩
    · exact Registry.get?_update_of_ne d.registry (ne_of_mem_of_not_mem howned hk).symm p'
    · by_cases hkh : k = h
      · rw [hkh, hget]
        rfl
      · rw [← Registry.get?_update_of_ne d.registry hkh p']
        exact hk
  | adopt p hroom hp hr =>
    have hget : ∀ k : Handle, k.number < d.registry.next →
        (d.adopt p).registry.get? k = d.registry.get? k := by
      intro k hissued
      refine (hd.fresh.get?_issue p k).trans (if_neg ?_)
      rintro rfl
      exact absurd hissued (lt_irrefl _)
    have hnext : (d.adopt p).registry.next = d.registry.next + 1 := Registry.next_issue hroom p
    refine ⟨rfl, rfl, hnext ▸ Nat.le_succ _, fun k _ => hget k, fun k hissued hk => ?_,
      fun k hk => ?_⟩
    · rw [← hget k hissued]
      exact hk
    · rcases List.mem_append.mp hk with hold | hnew
      · exact .inl hold
      · rw [List.mem_singleton.mp hnew]
        exact .inr le_rfl
  | abandon h howned hr =>
    refine ⟨rfl, rfl, le_rfl, fun k hk _ => ?_, fun k _ hk => ?_,
      fun k hk => .inl (List.mem_filter.mp hk).1⟩
    · exact Registry.get?_erase_of_ne d.registry (ne_of_mem_of_not_mem howned hk).symm
    · have herase : ((d.registry.erase h).get? k).isSome := hk
      rw [Registry.get?_erase] at herase
      split at herase
      next => cases herase
      next => exact herase
  | close hphase hr => exact ⟨rfl, rfl, le_rfl, fun _ _ _ => rfl, fun _ _ => id, fun k hk => .inl hk⟩
  | operands reply hreply operands hphase hr =>
    exact ⟨rfl, rfl, le_rfl, fun _ _ _ => rfl, fun _ _ => id, fun k hk => .inl hk⟩

/-- A step that hands out no handle leaves the next one as it was. -/
theorem Step.next_eq (h : d.Step r reply d') (hreply : issued? reply = none) :
    d'.registry.next = d.registry.next := by
  cases h with
  | adopt p hroom hp hr => cases hreply
  | refuse | look | work | abandon | close | operands => rfl

/-- A step that hands out a handle hands out the next one. -/
theorem Step.issued_eq (h : d.Step r reply d') {k : Handle} (hreply : issued? reply = some k) :
    reply = .ok (.linked k) ∧ k = ⟨d.registry.next⟩
      ∧ d'.registry.next = d.registry.next + 1 := by
  cases h with
  | adopt p hroom hp hr =>
    cases hreply
    exact ⟨rfl, rfl, Registry.next_issue hroom p⟩
  | refuse e => cases hreply
  | look reply hnone hr => rw [hnone] at hreply; cases hreply
  | work reply hnone h p p' howned hget hset hr => rw [hnone] at hreply; cases hreply
  | abandon h howned hr => cases hreply
  | close hphase hr => cases hreply
  | operands reply hnone operands hphase hr => rw [hnone] at hreply; cases hreply

/-- Only a handle that the session owns gets a budget. -/
theorem Step.owned_of_sets (h : d.Step r reply d') {a : Reply} (ha : reply = .ok a) {b : Resource}
    {k : Handle} (hk : r.Sets b k) : k ∈ d.session.owned := by
  cases h with
  | refuse e => cases ha
  | work reply hreply h p p' howned hget hset hr =>
    rw [hr b k hk]
    exact howned
  | look reply hreply hr => exact absurd hk (hr b k)
  | adopt p hroom hp hr => exact absurd hk (hr b k)
  | abandon h howned hr => exact absurd hk (hr b k)
  | close hphase hr => exact absurd hk (hr b k)
  | operands reply hreply operands hphase hr => exact absurd hk (hr b k)

/-- **Which budgets are set after a step**: those from before, and the one that the request sets. -/
theorem Step.isSet_iff (h : d.Step r reply d') (hd : d.Sound) {k : Handle} {p' : LinkedProgram}
    (hp' : d'.registry.get? k = some p') (b : Resource) :
    p'.meters.IsSet b ↔ (∃ p, d.registry.get? k = some p ∧ p.meters.IsSet b)
      ∨ (∃ a, reply = .ok a) ∧ r.Sets b k := by
  have hsame : d.registry.get? k = some p' → ¬ ((∃ a, reply = .ok a) ∧ r.Sets b k) →
      (p'.meters.IsSet b ↔ (∃ p, d.registry.get? k = some p ∧ p.meters.IsSet b)
        ∨ (∃ a, reply = .ok a) ∧ r.Sets b k) := by
    intro hp hno
    rw [or_iff_left hno, hp]
    simp only [Option.some.injEq, exists_eq_left']
  cases h with
  | refuse e =>
    refine hsame hp' ?_
    rintro ⟨⟨a, ha⟩, -⟩
    cases ha
  | look reply hreply hr => exact hsame hp' fun hno => hr b k hno.2
  | work reply hreply h p q howned hget hset hr =>
    by_cases hk : k = h
    · subst hk
      have hq : (d.registry.update k q).get? k = some q :=
        Registry.get?_update_self d.registry k hget q
      obtain rfl : q = p' := Option.some.inj (hq.symm.trans hp')
      rw [hset b, hget]
      simp only [Option.some.injEq, exists_eq_left', Except.ok.injEq, exists_eq', true_and]
    · have hp : d.registry.get? k = some p' :=
        (Registry.get?_update_of_ne d.registry hk q).symm.trans hp'
      exact hsame hp fun hno => hk (hr b k hno.2)
  | adopt p hroom hp hr =>
    have hissue : (d.registry.issue p).get? k = some p' := hp'
    rw [hd.fresh.get?_issue] at hissue
    split at hissue
    next hk =>
      obtain rfl : p = p' := Option.some.inj hissue
      have hnone : ¬ ∃ q, d.registry.get? k = some q ∧ q.meters.IsSet b := by
        rintro ⟨q, hq, -⟩
        have hlt : k.number < d.registry.next := hd.fresh k (by rw [hq]; rfl)
        rw [hk] at hlt
        exact absurd hlt (lt_irrefl _)
      have hunset : ¬ p.meters.IsSet b := by
        rw [hp]
        cases b with
        | ink => exact Bool.false_ne_true
        | depth => exact Bool.false_ne_true
      exact iff_of_false hunset (not_or.mpr ⟨hnone, fun hno => hr b k hno.2⟩)
    next => exact hsame hissue fun hno => hr b k hno.2
  | abandon h howned hr =>
    have herase : (d.registry.erase h).get? k = some p' := hp'
    rw [Registry.get?_erase] at herase
    split at herase
    next => cases herase
    next => exact hsame herase fun hno => hr b k hno.2
  | close hphase hr => exact hsame hp' fun hno => hr b k hno.2
  | operands reply hreply operands hphase hr => exact hsame hp' fun hno => hr b k hno.2

/-- Whether a session fits depends on the handles that it owns. -/
theorem Sound.of_get?_eq {s : Session} {r r' : Registry} (hs : Sound ⟨r, s⟩) (hfresh : r'.Fresh)
    (hget : ∀ k ∈ s.owned, r'.get? k = r.get? k) : Sound ⟨r', s⟩ := by
  have hconfigured : s.owned.all r'.isConfigured = s.owned.all r.isConfigured := by
    rw [Bool.eq_iff_iff, List.all_eq_true, List.all_eq_true]
    refine forall₂_congr fun k hk => ?_
    unfold Registry.isConfigured
    rw [hget k hk]
  have hphase : settledPhase ⟨r', s⟩ = settledPhase ⟨r, s⟩ := by
    unfold settledPhase
    rw [hconfigured]
  refine ⟨hfresh, fun k hk => ?_, hs.phase.imp_right fun h => h.trans hphase.symm⟩
  rw [hget k hk]
  exact hs.owned k hk

end Desk

/-! ### Hosts -/

namespace Host

variable {host : Host} {n n' : Nat} {s s' : Session}

/-- Puts the registry and the session of a desk back. -/
def put (number : Nat) (d : Desk) (host : Host) : Host :=
  { registry := d.registry, sessions := host.sessions.set number (some d.session) }

theorem perform_of_session (hs : host.session? n = some s) (limit : Nat) (r : Request) :
    host.perform limit n r = some ((r.serve limit ⟨host.registry, s⟩).1,
      host.put n (r.serve limit ⟨host.registry, s⟩).2) := by
  unfold perform Request.serve
  rw [hs]
  change (match r.perform limit ⟨host.registry, s⟩ with
    | .ok reply d => some (Except.ok reply, host.put n d)
    | .error e d => some (Except.error e, host.put n d)) = _
  cases r.perform limit ⟨host.registry, s⟩ with
  | ok reply d => rfl
  | error e d => rfl

theorem perform_of_none (hs : host.session? n = none) (limit : Nat) (r : Request) :
    host.perform limit n r = none := by
  unfold perform
  rw [hs]
  rfl

theorem session?_put (hs : host.session? n = some s) (d : Desk) (n' : Nat) :
    (host.put n d).session? n' = if n' = n then some d.session else host.session? n' := by
  have hlt : n < host.sessions.length := by
    by_contra hge
    have hnone : host.sessions[n]? = none := List.getElem?_eq_none (not_lt.mp hge)
    rw [session?, hnone] at hs
    cases hs
  change ((host.sessions.set n (some d.session))[n']?).join = _
  rw [List.getElem?_set]
  by_cases hn : n' = n
  · subst hn
    rw [if_pos rfl, if_pos rfl, if_pos hlt]
    rfl
  · rw [if_neg (Ne.symm hn), if_neg hn]
    rfl

/-- A session of a host that has opened another is one from before, or new. -/
theorem session?_openSession (hs : host.openSession.session? n = some s) :
    host.session? n = some s ∨ s = {} := by
  change ((host.sessions ++ [some ({} : Session)])[n]?).join = some s at hs
  rw [List.getElem?_append] at hs
  split at hs
  next => exact .inl hs
  next =>
    cases hn : n - host.sessions.length with
    | zero =>
      rw [hn] at hs
      cases hs
      exact .inr rfl
    | succ i =>
      rw [hn] at hs
      cases hs

/-- A host whose sessions fit its registry and share no handle. -/
structure Sound (host : Host) : Prop where
  fresh : host.registry.Fresh
  sound : ∀ n s, host.session? n = some s → Desk.Sound ⟨host.registry, s⟩
  apart : ∀ n n' s s', host.session? n = some s → host.session? n' = some s' → n ≠ n' →
    ∀ k ∈ s.owned, k ∉ s'.owned

/-- Handles that are owned were issued. -/
theorem Sound.issued (hhost : host.Sound) (hs : host.session? n = some s) {k : Handle}
    (hk : k ∈ s.owned) : k.number < host.registry.next :=
  hhost.fresh k ((hhost.sound n s hs).owned k hk)

/-- A request of one session leaves the handles of the others alone. -/
theorem Sound.get?_of_frame (hhost : host.Sound) (hs : host.session? n = some s)
    (hs' : host.session? n' = some s') (hne : n' ≠ n) {d : Desk}
    (hframe : Desk.Frame ⟨host.registry, s⟩ d) {k : Handle} (hk : k ∈ s'.owned) :
    d.registry.get? k = host.registry.get? k :=
  hframe.foreign k (hhost.apart n' n s' s hs' hs hne k hk) (hhost.issued hs' hk)

theorem sound_start (catalog : Catalog) (resolver : Resolver) :
    Sound { registry := { catalog, resolver } } where
  fresh := by
    intro k hk
    cases hk
  sound := by
    intro n s hs
    cases hs
  apart := by
    intro n n' s s' hs
    cases hs

theorem Sound.openSession (hhost : host.Sound) : host.openSession.Sound where
  fresh := hhost.fresh
  sound := by
    intro n s hs
    rcases session?_openSession hs with hold | rfl
    · exact hhost.sound n s hold
    · exact ⟨hhost.fresh, fun k hk => absurd hk List.not_mem_nil, .inr rfl⟩
  apart := by
    intro n n' s s' hs hs' hne k hk
    rcases session?_openSession hs with hold | rfl
    · rcases session?_openSession hs' with hold' | rfl
      · exact hhost.apart n n' s s' hold hold' hne k hk
      · exact List.not_mem_nil
    · exact absurd hk List.not_mem_nil

/-- **A step of one session keeps a host sound.** -/
theorem Sound.put (hhost : host.Sound) (hs : host.session? n = some s) {d : Desk} (hd : d.Sound)
    (hframe : Desk.Frame ⟨host.registry, s⟩ d) : (host.put n d).Sound where
  fresh := hd.fresh
  sound := by
    intro n' s' hs'
    rw [session?_put hs] at hs'
    split at hs'
    next =>
      cases hs'
      exact hd
    next hne =>
      exact (hhost.sound n' s' hs').of_get?_eq hd.fresh fun k hk =>
        hhost.get?_of_frame hs hs' hne hframe hk
  apart := by
    -- Between the session that made the step and another one.
    have hapart : ∀ n' s', host.session? n' = some s' → n' ≠ n → ∀ k ∈ d.session.owned,
        k ∉ s'.owned := by
      intro n' s' hs' hne k hk hk'
      rcases hframe.owned k hk with hold | hnew
      · exact hhost.apart n n' s s' hs hs' (Ne.symm hne) k hold hk'
      · exact absurd (hhost.issued hs' hk') (not_lt.mpr hnew)
    intro n₁ n₂ s₁ s₂ hs₁ hs₂ hne k hk hk'
    rw [session?_put hs] at hs₁ hs₂
    split at hs₁
    next h₁ =>
      cases hs₁
      rw [if_neg fun h₂ => hne (h₁.trans h₂.symm)] at hs₂
      exact hapart n₂ s₂ hs₂ (fun h₂ => hne (h₁.trans h₂.symm)) k hk hk'
    next h₁ =>
      split at hs₂
      next =>
        cases hs₂
        exact hapart n₁ s₁ hs₁ h₁ k hk' hk
      next => exact hhost.apart n₁ n₂ s₁ s₂ hs₁ hs₂ hne k hk hk'

/-- What a host that has dropped a session still knows of the others. -/
theorem session?_dropSession (h : (host.dropSession n).session? n' = some s) :
    host.session? n' = some s ∧ n' ≠ n := by
  unfold dropSession at h
  cases hs : host.session? n with
  | none =>
    rw [hs] at h
    refine ⟨h, ?_⟩
    rintro rfl
    rw [hs] at h
    cases h
  | some s₀ =>
    rw [hs] at h
    change ((host.sessions.set n none)[n']?).join = some s at h
    rw [List.getElem?_set] at h
    by_cases hn : n' = n
    · subst hn
      rw [if_pos rfl] at h
      split at h
      · cases h
      · cases h
    · rw [if_neg (Ne.symm hn)] at h
      exact ⟨h, hn⟩

/-- What a host that has dropped a session still knows of the registry. -/
theorem get?_dropSession {k : Handle} {p : LinkedProgram}
    (h : (host.dropSession n).registry.get? k = some p) : host.registry.get? k = some p := by
  unfold dropSession at h
  cases hs : host.session? n with
  | none =>
    rw [hs] at h
    exact h
  | some s =>
    rw [hs] at h
    change (s.owned.foldl Registry.erase host.registry).get? k = some p at h
    rw [Registry.get?_foldl_erase] at h
    split at h
    next => cases h
    next => exact h

theorem Sound.dropSession (hhost : host.Sound) (n : Nat) : (host.dropSession n).Sound := by
  cases hs : host.session? n with
  | none =>
    unfold Host.dropSession
    rw [hs]
    exact hhost
  | some s =>
    have hregistry : (host.dropSession n).registry = s.owned.foldl Registry.erase host.registry := by
      unfold Host.dropSession
      rw [hs]
    have hfresh : (host.dropSession n).registry.Fresh := by
      rw [hregistry]
      exact hhost.fresh.foldl_erase s.owned
    refine ⟨hfresh, fun n' s' hs' => ?_, fun n₁ n₂ s₁ s₂ hs₁ hs₂ => ?_⟩
    · obtain ⟨hold, hne⟩ := session?_dropSession hs'
      refine (hhost.sound n' s' hold).of_get?_eq hfresh fun k hk => ?_
      rw [hregistry, Registry.get?_foldl_erase, if_neg (hhost.apart n' n s' s hold hs hne k hk)]
    · exact hhost.apart n₁ n₂ s₁ s₂ (session?_dropSession hs₁).1 (session?_dropSession hs₂).1

end Host

/-! ### Histories -/

/-- The requests that were made of the sessions of a host, the last one first, with the answers. -/
abbrev History := List (Request × Except SessionError Reply)

/-- Whether a handle has been given the budget of a resource. -/
def History.Grants (log : History) (b : Resource) (h : Handle) : Prop :=
  ∃ r reply, (r, .ok reply) ∈ log ∧ r.Sets b h

theorem History.grants_cons {r : Request} {reply : Except SessionError Reply} {log : History}
    {b : Resource} {h : Handle} :
    Grants ((r, reply) :: log) b h ↔ Grants log b h ∨ (∃ a, reply = .ok a) ∧ r.Sets b h := by
  constructor
  · rintro ⟨r', a, hmem, hr⟩
    rcases List.mem_cons.mp hmem with heq | hmem
    · cases heq
      exact .inr ⟨⟨a, rfl⟩, hr⟩
    · exact .inl ⟨r', a, hmem, hr⟩
  · rintro (⟨r', a, hmem, hr⟩ | ⟨⟨a, rfl⟩, hr⟩)
    · exact ⟨r', a, List.mem_cons_of_mem _ hmem, hr⟩
    · exact ⟨r, a, List.mem_cons_self, hr⟩

namespace Host

/-- The hosts that sessions over a catalog can lead to, with what was asked of them. Sessions are
opened and dropped, and each may be asked anything at any time. -/
inductive Reachable (catalog : Catalog) (resolver : Resolver) : History → Host → Prop
  | start : Reachable catalog resolver [] { registry := { catalog, resolver } }
  | openSession {log : History} {host : Host} (h : Reachable catalog resolver log host) :
      Reachable catalog resolver log host.openSession
  | perform {log : History} {host host' : Host} {limit n : Nat} {r : Request}
      {reply : Except SessionError Reply} (h : Reachable catalog resolver log host)
      (hperform : host.perform limit n r = some (reply, host')) :
      Reachable catalog resolver ((r, reply) :: log) host'
  | dropSession {log : History} {host : Host} (h : Reachable catalog resolver log host) (n : Nat) :
      Reachable catalog resolver log (host.dropSession n)

variable {host host' : Host} {limit n : Nat} {r : Request} {reply : Except SessionError Reply}

/-- What it takes for a request to be carried out. -/
theorem perform_eq_some (hperform : host.perform limit n r = some (reply, host')) :
    ∃ s, host.session? n = some s ∧ reply = (r.serve limit ⟨host.registry, s⟩).1
      ∧ host' = host.put n (r.serve limit ⟨host.registry, s⟩).2 := by
  cases hs : host.session? n with
  | none =>
    rw [perform_of_none hs] at hperform
    cases hperform
  | some s =>
    rw [perform_of_session hs] at hperform
    cases hperform
    exact ⟨s, rfl, rfl, rfl⟩

/-- A link of a program that can be made is answered with a new handle, if there is one. -/
theorem perform_link_of_ok {s : Session} (hs : host.session? n = some s)
    (hphase : s.phase ≠ .halted) {digest : Digest} {p : LinkedProgram}
    (hproduce : host.registry.produce digest = .ok p) (hroom : host.registry.HasRoom)
    (limit : Nat) : host.perform limit n (.link digest)
      = some (.ok (.linked ⟨host.registry.next⟩),
          host.put n (Desk.adopt p ⟨host.registry, s⟩)) := by
  have hserve : (Request.link digest).perform limit ⟨host.registry, s⟩
      = .ok (.linked ⟨host.registry.next⟩) (Desk.adopt p ⟨host.registry, s⟩) := by
    rw [Request.perform_link, if_neg hphase, hproduce]
    exact if_pos hroom
  rw [perform_of_session hs, Request.serve, hserve]
  rfl

theorem Sound.perform (hhost : host.Sound)
    (hperform : host.perform limit n r = some (reply, host')) : host'.Sound := by
  obtain ⟨s, hs, -, rfl⟩ := perform_eq_some hperform
  have hdesk := hhost.sound n s hs
  have hstep := r.serve_step limit hdesk
  exact hhost.put hs (hstep.sound hdesk) (hstep.frame hdesk)

namespace Reachable

variable {catalog : Catalog} {resolver : Resolver} {log : History}

/-- **Every host that sessions can lead to is sound.** -/
theorem sound (h : Reachable catalog resolver log host) : host.Sound := by
  induction h with
  | start => exact sound_start catalog resolver
  | openSession h ih => exact ih.openSession
  | perform h hperform ih => exact ih.perform hperform
  | dropSession h n ih => exact ih.dropSession n

/-- Only handles that were issued have been given a budget. -/
theorem issued (h : Reachable catalog resolver log host) {b : Resource} {k : Handle}
    (hgrants : log.Grants b k) : k.number < host.registry.next := by
  induction h with
  | start =>
    obtain ⟨r, a, hmem, -⟩ := hgrants
    cases hmem
  | openSession h ih => exact ih hgrants
  | @perform log host host' limit n r reply h hperform ih =>
    obtain ⟨s, hs, rfl, rfl⟩ := perform_eq_some hperform
    have hdesk := h.sound.sound n s hs
    have hstep := r.serve_step limit hdesk
    refine lt_of_lt_of_le ?_ (hstep.frame hdesk).next_le
    rcases History.grants_cons.mp hgrants with hold | ⟨⟨a, ha⟩, hsets⟩
    · exact ih hold
    · exact h.sound.issued hs (hstep.owned_of_sets ha hsets)
  | @dropSession log host h n ih =>
    have hnext : (host.dropSession n).registry.next = host.registry.next := by
      unfold Host.dropSession
      cases host.session? n with
      | none => rfl
      | some s => exact Registry.next_foldl_erase host.registry s.owned
    rw [hnext]
    exact ih hgrants

/-- **A budget is set when a request has set it**, and only then. -/
theorem isSet_iff (h : Reachable catalog resolver log host) {k : Handle} {p : LinkedProgram}
    (hp : host.registry.get? k = some p) (b : Resource) : p.meters.IsSet b ↔ log.Grants b k := by
  induction h generalizing p with
  | start => cases hp
  | openSession h ih => exact ih hp
  | @perform log host host' limit n r reply h hperform ih =>
    obtain ⟨s, hs, rfl, rfl⟩ := perform_eq_some hperform
    have hdesk := h.sound.sound n s hs
    have hstep := r.serve_step limit hdesk
    rw [hstep.isSet_iff hdesk hp b, History.grants_cons]
    refine or_congr_left ⟨?_, fun hgrants => ?_⟩
    · rintro ⟨q, hq, hset⟩
      exact (ih hq).mp hset
    · -- The handle was issued before, so the program has not come with this step.
      have hlinked : (host.registry.get? k).isSome :=
        (hstep.frame hdesk).linked k (h.issued hgrants) (Option.isSome_of_eq_some hp)
      obtain ⟨q, hq⟩ := Option.isSome_iff_exists.mp hlinked
      exact ⟨q, hq, (ih hq).mpr hgrants⟩
  | dropSession h n ih => exact ih (get?_dropSession hp)

end Reachable

end Host

end MeteredSandbox
