import MeteredSandbox.Proofs.Contract

/-!
# What a chronicle tells of a host

A chronicle lists what happened on a host, the last thing first: sessions were opened and dropped,
and were asked something and answered (`HostEvent`). It names the sessions, which a `History` does
not. So it decides what a host has on record, apart from what guests leave behind: the handles that
were handed out, which session was dropped, and of every session that is there the handles that it
owns, whether it ever linked anything and whether it is halted (`Host.Records`).

That is proved event by event. Of a request it matters only whether it links, unlinks or halts, and
`Desk.Deed` says what the desk has on record after it. The lemmas about single events are put
together in `Host.Records.occurs`, and the induction over the chronicle is
`Host.Chronicled.records`.
-/

namespace MeteredSandbox

/-! ### Chronicles -/

/-- What may happen on a host. -/
inductive HostEvent where
  | opened (number : Nat)
  | asked (number : Nat) (request : Request) (reply : Except SessionError Reply)
  | dropped (number : Nat)

/-- The handle that is handed out in an event. -/
def HostEvent.issued? : HostEvent → Option Handle
  | asked _ _ reply => MeteredSandbox.issued? reply
  | opened _ | dropped _ => none

/-- The request that is made in an event, with the answer. -/
def HostEvent.request? : HostEvent → Option (Request × Except SessionError Reply)
  | asked _ r reply => some (r, reply)
  | opened _ | dropped _ => none

/-- Events that do not hand out the same handle. -/
def HostEvent.Apart (e e' : HostEvent) : Prop :=
  ∀ k, e.issued? = some k → ∀ k', e'.issued? = some k' → k ≠ k'

instance : Std.Symm HostEvent.Apart where
  symm _ _ hapart k hk k' hk' := (hapart k' hk' k hk).symm

/-- What happened on a host, the last thing first. -/
abbrev Chronicle := List HostEvent

namespace Host

/-- What an event does to a host. -/
inductive Occurs (host : Host) : HostEvent → Host → Prop
  | opened : Occurs host (.opened host.sessions.length) host.openSession
  | asked {limit n : Nat} {r : Request} {reply : Except SessionError Reply} {host' : Host}
      (hperform : host.perform limit n r = some (reply, host')) :
      Occurs host (.asked n r reply) host'
  /-- Only a session that is there can be dropped. -/
  | dropped {n : Nat} {s : Session} (hs : host.session? n = some s) :
      Occurs host (.dropped n) (host.dropSession n)

/-- The hosts that sessions over a catalog can lead to, with what happened on them. -/
inductive Chronicled (catalog : Catalog) (resolver : Resolver) : Chronicle → Host → Prop
  | start : Chronicled catalog resolver [] { registry := { catalog, resolver } }
  | step {log : Chronicle} {host host' : Host} {e : HostEvent}
      (h : Chronicled catalog resolver log host) (hoccurs : host.Occurs e host') :
      Chronicled catalog resolver (e :: log) host'

end Host

namespace Chronicle

/-- A session has made a request with success. -/
def Did (log : Chronicle) (n : Nat) (p : Request → Reply → Prop) : Prop :=
  ∃ r reply, .asked n r (.ok reply) ∈ log ∧ p r reply

/-- A session has linked a program and got the handle for it. -/
def Linked (log : Chronicle) (n : Nat) (k : Handle) : Prop :=
  log.Did n fun r reply => (∃ digest, r = .link digest) ∧ reply = .linked k

def Unlinked (log : Chronicle) (n : Nat) (k : Handle) : Prop :=
  log.Did n fun r _ => r = .unlink k

def Halted (log : Chronicle) (n : Nat) : Prop :=
  log.Did n fun r _ => r = .halt

def Dropped (log : Chronicle) (n : Nat) : Prop := .dropped n ∈ log

/-- The handles that were handed out, the last one first. -/
def issued (log : Chronicle) : List Handle := log.filterMap HostEvent.issued?

/-- The requests with their answers. -/
def requests (log : Chronicle) : History := log.filterMap HostEvent.request?

variable {log : Chronicle} {n : Nat} {e : HostEvent} {p : Request → Reply → Prop}

theorem did_nil : ¬ Did [] n p := by
  rintro ⟨r, reply, hmem, -⟩
  cases hmem

theorem did_cons :
    Did (e :: log) n p ↔ log.Did n p ∨ ∃ r reply, e = .asked n r (.ok reply) ∧ p r reply := by
  constructor
  · rintro ⟨r, reply, hmem, hp⟩
    rcases List.mem_cons.mp hmem with rfl | hmem
    · exact .inr ⟨r, reply, rfl, hp⟩
    · exact .inl ⟨r, reply, hmem, hp⟩
  · rintro (⟨r, reply, hmem, hp⟩ | ⟨r, reply, rfl, hp⟩)
    · exact ⟨r, reply, List.mem_cons_of_mem _ hmem, hp⟩
    · exact ⟨r, reply, List.mem_cons_self, hp⟩

/-- What a session did does not depend on what others were asked, or on a request that failed. -/
theorem did_cons_of_ne (hne : ∀ r reply, e ≠ .asked n r (.ok reply)) :
    Did (e :: log) n p ↔ log.Did n p := by
  rw [did_cons]
  refine or_iff_left ?_
  rintro ⟨r, reply, he, -⟩
  exact hne r reply he

theorem did_cons_ok {r : Request} {reply : Reply} :
    Did (.asked n r (.ok reply) :: log) n p ↔ log.Did n p ∨ p r reply := by
  rw [did_cons]
  refine or_congr_right ?_
  constructor
  · rintro ⟨r', reply', ⟨⟩, hp⟩
    exact hp
  · intro hp
    exact ⟨r, reply, rfl, hp⟩

/-- A request that is answered with a handle hands it out. -/
theorem issued_asked (n : Nat) (r : Request) (reply : Except SessionError Reply)
    (log : Chronicle) : issued (.asked n r reply :: log) = (issued? reply).toList ++ log.issued := by
  cases hreply : issued? reply with
  | none => exact List.filterMap_cons_none hreply
  | some k => exact List.filterMap_cons_some hreply

/-- A handle that a session has linked was handed out. -/
theorem Linked.mem_issued {k : Handle} (h : log.Linked n k) : k ∈ log.issued := by
  obtain ⟨r, reply, hmem, -, rfl⟩ := h
  exact List.mem_filterMap.mpr ⟨_, hmem, rfl⟩

end Chronicle

/-! ### What a registry has on record -/

namespace Registry

/-- The handles that stand for something. -/
def handles (r : Registry) : List Handle := r.linked.map Prod.fst

variable (r : Registry) (h k : Handle)

theorem mem_handles : k ∈ r.handles ↔ (r.get? k).isSome := by
  unfold handles get?
  induction r.linked with
  | nil => exact iff_of_false List.not_mem_nil Bool.false_ne_true
  | cons pair rest ih =>
    rw [List.map_cons, List.mem_cons, ih, List.lookup_cons]
    by_cases hk : k = pair.1
    · rw [beq_iff_eq.mpr hk]
      exact iff_of_true (.inl hk) rfl
    · rw [beq_eq_false_iff_ne.mpr hk]
      exact or_iff_right hk

theorem handles_update (p : LinkedProgram) : (r.update h p).handles = r.handles := by
  unfold handles update
  rw [List.map_map]
  refine List.map_congr_left fun pair _ => ?_
  change (if pair.1 = h then (pair.1, p) else pair).1 = pair.1
  split
  · rfl
  · rfl

theorem handles_erase : (r.erase h).handles = r.handles.filter (· ≠ h) := by
  unfold handles erase
  rw [List.filter_map]
  rfl

theorem handles_foldl_erase (hs : List Handle) :
    (hs.foldl erase r).handles = r.handles.filter (· ∉ hs) := by
  induction hs generalizing r with
  | nil => exact (List.filter_eq_self.mpr fun k _ => by simp).symm
  | cons h rest ih =>
    rw [List.foldl_cons, ih, handles_erase, List.filter_filter]
    refine List.filter_congr fun k _ => ?_
    simp [Bool.and_comm]

theorem handles_issue (p : LinkedProgram) : (r.issue p).handles = r.handles ++ [⟨r.next⟩] := by
  unfold handles issue
  exact List.map_append

end Registry

/-! ### What a request does to the record -/

namespace Request

/-- Whether a request is about budgets, calls or operands only. -/
def Plain : Request → Prop
  | link _ | unlink _ | halt => False
  | _ => True

end Request

namespace Desk

/-- Two desks that have the same on record. -/
structure SameRecord (d d' : Desk) : Prop where
  owned : d'.session.owned = d.session.owned
  everLinked : d'.session.everLinked = d.session.everLinked
  halted : d'.session.phase = .halted ↔ d.session.phase = .halted
  next : d'.registry.next = d.registry.next
  handles : d'.registry.handles = d.registry.handles

/-- **What a request does to the record.** Only requests that succeed do anything, and of those only
the ones that link, unlink and halt. -/
inductive Deed (d : Desk) : Request → Except SessionError Reply → Desk → Prop
  | refuse (r : Request) (e : SessionError) : Deed d r (.error e) d
  | plain {r : Request} {d' : Desk} (hr : r.Plain) (reply : Reply)
      (hreply : issued? (.ok reply) = none) (hsame : d.SameRecord d') : Deed d r (.ok reply) d'
  | link (digest : Digest) (p : LinkedProgram) (hroom : d.registry.HasRoom)
      (hphase : d.session.phase ≠ .halted) :
      Deed d (.link digest) (.ok (.linked ⟨d.registry.next⟩)) (d.adopt p)
  | unlink {h : Handle} (howned : h ∈ d.session.owned) (hphase : d.session.phase ≠ .halted) :
      Deed d (.unlink h) (.ok .done) (d.abandon h)
  | halt (hphase : d.session.phase = .unlinked) : Deed d .halt (.ok .done) d.close

variable {d : Desk}

theorem SameRecord.refl (d : Desk) : d.SameRecord d := ⟨rfl, rfl, Iff.rfl, rfl, rfl⟩

/-- A session that settles is not halted. -/
theorem settledPhase_ne_halted (d : Desk) : d.settledPhase ≠ .halted := by
  unfold settledPhase
  split
  · split
    · exact Phase.noConfusion
    · exact Phase.noConfusion
  · split
    · exact Phase.noConfusion
    · exact Phase.noConfusion

/-- Another linked program in the place of one is nothing that is on record. -/
theorem sameRecord_update (h : Handle) (p : LinkedProgram) (hphase : d.session.phase ≠ .halted) :
    d.SameRecord (d.update h p).settle where
  owned := rfl
  everLinked := rfl
  halted := iff_of_false (settledPhase_ne_halted _) hphase
  next := rfl
  handles := d.registry.handles_update h p

end Desk

namespace Desk.Deed

variable {d d' : Desk} {r : Request} {reply : Except SessionError Reply}

/-- What is linked after a deed is what the session owns then, and what it did not own before. -/
theorem mem_handles (h : d.Deed r reply d') (hd : d.Sound) (k : Handle) :
    k ∈ d'.registry.handles
      ↔ k ∈ d'.session.owned ∨ k ∈ d.registry.handles ∧ k ∉ d.session.owned := by
  have howned : k ∈ d.session.owned → k ∈ d.registry.handles := fun hk =>
    (d.registry.mem_handles k).mpr (hd.owned k hk)
  have hsame : k ∈ d.registry.handles
      ↔ k ∈ d.session.owned ∨ k ∈ d.registry.handles ∧ k ∉ d.session.owned := by
    by_cases hk : k ∈ d.session.owned
    · exact iff_of_true (howned hk) (.inl hk)
    · simp only [hk, not_false_eq_true, and_true, false_or]
  cases h with
  | refuse e => exact hsame
  | plain hr reply hreply hrecord =>
    rw [hrecord.handles, hrecord.owned]
    exact hsame
  | link digest p hroom hphase =>
    show k ∈ (d.registry.issue p).handles ↔ k ∈ d.session.owned ++ [⟨d.registry.next⟩] ∨ _
    rw [Registry.handles_issue, List.mem_append, List.mem_append, hsame]
    tauto
  | @unlink h hmem hphase =>
    show k ∈ (d.registry.erase h).handles ↔ k ∈ d.session.owned.filter (· ≠ h) ∨ _
    rw [Registry.handles_erase, List.mem_filter, List.mem_filter, hsame]
    have hne : k ∉ d.session.owned → k ≠ h := fun hno => (ne_of_mem_of_not_mem hmem hno).symm
    simp only [decide_eq_true_iff]
    tauto
  | halt hphase => exact hsame

/-- No handle stands for two linked programs. -/
theorem nodup_handles (h : d.Deed r reply d') (hd : d.Sound) (hnodup : d.registry.handles.Nodup) :
    d'.registry.handles.Nodup := by
  cases h with
  | refuse e => exact hnodup
  | plain hr reply hreply hrecord => rwa [hrecord.handles]
  | link digest p hroom hphase =>
    show (d.registry.issue p).handles.Nodup
    rw [Registry.handles_issue]
    refine List.nodup_append.mpr ⟨hnodup, List.nodup_singleton _, ?_⟩
    rintro k hk k' hk' rfl
    -- what is linked was issued, so the next handle is not linked
    have hlt : k.number < d.registry.next :=
      hd.fresh k ((d.registry.mem_handles k).mp hk)
    rw [List.mem_singleton.mp hk'] at hlt
    exact lt_irrefl _ hlt
  | @unlink h howned hphase =>
    show (d.registry.erase h).handles.Nodup
    rw [Registry.handles_erase]
    exact hnodup.filter _
  | halt hphase => exact hnodup

/-- The next handle is handed out, or none. -/
theorem issued_eq (h : d.Deed r reply d') :
    (issued? reply).toList.map Handle.number ++ (List.range d.registry.next).reverse
      = (List.range d'.registry.next).reverse := by
  cases h with
  | refuse e => rfl
  | plain hr reply hreply hrecord =>
    rw [hreply, hrecord.next]
    rfl
  | link digest p hroom hphase =>
    show d.registry.next :: (List.range d.registry.next).reverse
      = (List.range (d.registry.issue p).next).reverse
    rw [Registry.next_issue hroom, List.range_succ, List.reverse_append]
    rfl
  | unlink howned hphase => rfl
  | halt hphase => rfl

/-- Only what is owned is unlinked. -/
theorem owned_of_unlink {k : Handle} {a : Reply} (h : d.Deed (.unlink k) (.ok a) d') :
    k ∈ d.session.owned := by
  cases h with
  | plain hr => exact hr.elim
  | unlink howned hphase => exact howned

/-- A link that succeeds answers with the next handle, and there is one after it. -/
theorem reply_of_link {digest : Digest} {a : Reply} (h : d.Deed (.link digest) (.ok a) d') :
    a = .linked ⟨d.registry.next⟩ ∧ d.registry.HasRoom := by
  cases h with
  | plain hr => exact hr.elim
  | link digest p hroom hphase => exact ⟨rfl, hroom⟩

end Desk.Deed

namespace Request

variable {limit : Nat} {r : Request} {j : Job} {d : Desk}

theorem plain_of_job (hj : r.job? limit = some j) : r.Plain := by
  cases r with
  | link | unlink | halt | pushOperand | popOperand => cases hj
  | setInk | setDepth | inkLeft | inkStatus | depthLeft | callEntry | runStart => trivial

/-- A job leaves the record alone. -/
theorem serve_deed_of_job (hj : r.job? limit = some j) (hd : d.Sound) :
    d.Deed r (r.serve limit d).1 (r.serve limit d).2 := by
  unfold serve
  rw [perform_job hj hd, Desk.carryOut]
  cases hcheck : d.check j.operation j.handle with
  | error e => exact .refuse r e
  | ok p =>
    have hphase : d.session.phase ≠ .halted := (Desk.check_eq_ok hcheck).1
    dsimp only
    rcases hwork : j.work d.registry.pricing d.session.operands p with e | ⟨reply, _ | p'⟩
    · show d.Deed r (.error e) d.settle
      rw [hd.settle_eq hphase]
      exact .refuse r e
    · show d.Deed r (.ok reply) d.settle
      rw [hd.settle_eq hphase]
      exact .plain (plain_of_job hj) reply (issued?_of_work hj hwork) (.refl d)
    · exact .plain (plain_of_job hj) reply (issued?_of_work hj hwork)
        (Desk.sameRecord_update j.handle p' hphase)

/-- A request that is refused once the session is halted. -/
theorem deed_of_open {operation : Operation} {x : EStateM.Result SessionError Desk Reply}
    (hx : d.session.phase ≠ .halted → d.Deed r (answered x).1 (answered x).2) :
    let y := if d.session.phase = .halted then .error (.notAllowed operation d.session.phase) d
      else x
    d.Deed r (answered y).1 (answered y).2 := by
  by_cases hphase : d.session.phase = .halted
  · rw [if_pos hphase]
    exact .refuse r _
  · rw [if_neg hphase]
    exact hx hphase

/-- **Every request is a deed.** -/
theorem serve_deed (limit : Nat) (r : Request) (hd : d.Sound) :
    d.Deed r (r.serve limit d).1 (r.serve limit d).2 := by
  cases r with
  | link digest =>
    unfold serve
    rcases perform_link_cases limit d digest with ⟨e, h⟩ | ⟨p, hphase, -, hroom, h⟩
    · rw [h]
      exact .refuse _ e
    · rw [h]
      exact .link digest p hroom hphase
  | unlink h =>
    unfold serve
    rw [perform_unlink]
    cases hcheck : d.check .unlink h with
    | error e => exact .refuse _ e
    | ok p =>
      obtain ⟨hphase, howned, -⟩ := Desk.check_eq_ok hcheck
      exact .unlink howned hphase
  | halt =>
    unfold serve
    rw [perform_halt]
    refine deed_of_open fun hphase => ?_
    cases hunlinked : d.session.phase with
    | unlinked => exact .halt hunlinked
    | idle | linked | configured | invoking | halted => exact .refuse _ _
  | pushOperand v =>
    unfold serve
    rw [perform_pushOperand]
    have hplain : (pushOperand v).Plain := trivial
    exact deed_of_open fun hphase => .plain hplain _ rfl ⟨rfl, rfl, Iff.rfl, rfl, rfl⟩
  | popOperand =>
    unfold serve
    rw [perform_popOperand]
    have hplain : popOperand.Plain := trivial
    refine deed_of_open fun hphase => ?_
    rcases d.session.operands.pop? with _ | ⟨v, operands⟩
    · exact .plain hplain _ rfl (.refl d)
    · exact .plain hplain _ rfl ⟨rfl, rfl, Iff.rfl, rfl, rfl⟩
  | setInk | setDepth | inkLeft | inkStatus | depthLeft | callEntry | runStart =>
    exact serve_deed_of_job rfl hd

end Request

/-! ### What a chronicle tells of a session -/

/-- What a chronicle tells of a session: which handles it owns, whether it ever linked anything and
whether it is halted. -/
structure Session.Told (log : Chronicle) (n : Nat) (s : Session) : Prop where
  owned : ∀ k, k ∈ s.owned ↔ log.Linked n k ∧ ¬ log.Unlinked n k
  nodup : s.owned.Nodup
  everLinked : s.everLinked = true ↔ ∃ k, log.Linked n k
  halted : s.phase = .halted ↔ log.Halted n

namespace Session.Told

variable {log : Chronicle} {n : Nat} {s s' : Session} {e : HostEvent}

/-- A session that has just been opened has done nothing. -/
theorem new (hno : ∀ p, ¬ log.Did n p) : Told log n {} where
  owned _ := iff_of_false List.not_mem_nil fun h => hno _ h.1
  nodup := .nil
  everLinked := iff_of_false Bool.false_ne_true fun ⟨_, hk⟩ => hno _ hk
  halted := iff_of_false Phase.noConfusion (hno _)

/-- What is told of a session depends on what it did only. -/
theorem of_did (h : s.Told log n) {log' : Chronicle} (hdid : ∀ p, log'.Did n p ↔ log.Did n p)
    (howned : s'.owned = s.owned) (heverLinked : s'.everLinked = s.everLinked)
    (hhalted : s'.phase = .halted ↔ s.phase = .halted) : s'.Told log' n where
  owned k := by
    rw [howned, h.owned]
    exact and_congr (hdid _).symm (not_congr (hdid _).symm)
  nodup := howned ▸ h.nodup
  everLinked := by
    rw [heverLinked, h.everLinked]
    exact exists_congr fun k => (hdid _).symm
  halted := hhalted.trans (h.halted.trans (hdid _).symm)

/-- Nothing new is told of a session by an event that is not a request of it with success. -/
theorem cons_of_ne (h : s.Told log n) (hne : ∀ r reply, e ≠ .asked n r (.ok reply)) :
    s.Told (e :: log) n :=
  h.of_did (fun _ => Chronicle.did_cons_of_ne hne) rfl rfl Iff.rfl

variable {r : Registry}

/-- After a link the session owns the new handle. -/
theorem link (h : s.Told log n) (digest : Digest) (p : LinkedProgram)
    (hphase : s.phase ≠ .halted) (hfresh : ∀ k, log.Linked n k → k.number < r.next)
    (hunlinked : ∀ k, log.Unlinked n k → log.Linked n k) :
    (Desk.adopt p ⟨r, s⟩).session.Told
      (.asked n (.link digest) (.ok (.linked ⟨r.next⟩)) :: log) n := by
  have hnew : ¬ log.Linked n ⟨r.next⟩ := fun hlinked => lt_irrefl _ (hfresh _ hlinked)
  have hlinked : ∀ k, Chronicle.Linked (.asked n (.link digest) (.ok (.linked ⟨r.next⟩)) :: log) n k
      ↔ log.Linked n k ∨ k = ⟨r.next⟩ := by
    intro k
    refine Chronicle.did_cons_ok.trans (or_congr_right ?_)
    constructor
    · rintro ⟨-, ⟨⟩⟩
      rfl
    · rintro rfl
      exact ⟨⟨digest, rfl⟩, rfl⟩
  have hunlinked' : ∀ k,
      Chronicle.Unlinked (.asked n (.link digest) (.ok (.linked ⟨r.next⟩)) :: log) n k
        ↔ log.Unlinked n k :=
    fun k => Chronicle.did_cons_ok.trans (or_iff_left (by rintro ⟨⟩))
  constructor
  · intro k
    show k ∈ s.owned ++ [⟨r.next⟩] ↔ _
    rw [List.mem_append, List.mem_singleton, h.owned, hlinked, hunlinked', or_and_right]
    refine or_congr_right (iff_self_and.mpr ?_)
    -- the new handle cannot have been unlinked yet
    rintro rfl hgone
    exact hnew (hunlinked _ hgone)
  · show (s.owned ++ [Handle.mk r.next]).Nodup
    refine List.nodup_append.mpr ⟨h.nodup, List.nodup_singleton _, ?_⟩
    rintro k hk k' hk' rfl
    rw [List.mem_singleton.mp hk'] at hk
    exact hnew ((h.owned _).mp hk).1
  · have hfirst := (hlinked ⟨r.next⟩).mpr (.inr rfl)
    exact iff_of_true rfl ⟨_, hfirst⟩
  · refine iff_of_false (Desk.settledPhase_ne_halted _) fun hhalted => ?_
    rcases Chronicle.did_cons_ok.mp hhalted with hold | hnew
    · exact hphase (h.halted.mpr hold)
    · cases hnew

/-- After an unlink the session owns the handle no more. -/
theorem unlink (h : s.Told log n) (k : Handle) (hphase : s.phase ≠ .halted) (reply : Reply) :
    (Desk.abandon k ⟨r, s⟩).session.Told (.asked n (.unlink k) (.ok reply) :: log) n := by
  have hlinked : ∀ k', Chronicle.Linked (.asked n (.unlink k) (.ok reply) :: log) n k'
      ↔ log.Linked n k' := by
    intro k'
    refine Chronicle.did_cons_ok.trans (or_iff_left ?_)
    rintro ⟨⟨digest, ⟨⟩⟩, -⟩
  have hunlinked : ∀ k', Chronicle.Unlinked (.asked n (.unlink k) (.ok reply) :: log) n k'
      ↔ log.Unlinked n k' ∨ k' = k := by
    intro k'
    refine Chronicle.did_cons_ok.trans (or_congr_right ?_)
    exact ⟨fun heq => (Request.unlink.inj heq).symm, fun heq => heq ▸ rfl⟩
  constructor
  · intro k'
    show k' ∈ s.owned.filter (· ≠ k) ↔ _
    rw [List.mem_filter, decide_eq_true_iff, h.owned, hlinked, hunlinked, not_or, and_assoc]
  · exact h.nodup.filter _
  · exact h.everLinked.trans (exists_congr fun k' => (hlinked k').symm)
  · refine iff_of_false (Desk.settledPhase_ne_halted _) fun hhalted => ?_
    rcases Chronicle.did_cons_ok.mp hhalted with hold | hnew
    · exact hphase (h.halted.mpr hold)
    · cases hnew

/-- After a halt the session is halted. -/
theorem halt (h : s.Told log n) (reply : Reply) :
    (Desk.close ⟨r, s⟩).session.Told (.asked n .halt (.ok reply) :: log) n := by
  have hlinked : ∀ k, Chronicle.Linked (.asked n .halt (.ok reply) :: log) n k
      ↔ log.Linked n k := by
    intro k
    refine Chronicle.did_cons_ok.trans (or_iff_left ?_)
    rintro ⟨⟨digest, ⟨⟩⟩, -⟩
  constructor
  · intro k
    show k ∈ s.owned ↔ _
    rw [h.owned, hlinked]
    exact and_congr_right fun _ =>
      not_congr (Chronicle.did_cons_ok.trans (or_iff_left (by rintro ⟨⟩))).symm
  · exact h.nodup
  · exact h.everLinked.trans (exists_congr fun k => (hlinked k).symm)
  · exact iff_of_true rfl (Chronicle.did_cons_ok.mpr (.inr rfl))

/-- A request that links, unlinks or halts nothing tells nothing new. -/
theorem plain (h : s.Told log n) {req : Request} (hreq : req.Plain) (reply : Reply) {d : Desk}
    (hsame : Desk.SameRecord ⟨r, s⟩ d) : d.session.Told (.asked n req (.ok reply) :: log) n := by
  have hlinked : ∀ k, ¬ ((∃ digest, req = .link digest) ∧ reply = .linked k) := by
    rintro k ⟨⟨digest, rfl⟩, -⟩
    exact hreq
  have hunlinked : ∀ k, req ≠ .unlink k := by
    rintro k rfl
    exact hreq
  have hhalt : req ≠ .halt := by
    rintro rfl
    exact hreq
  constructor
  · intro k
    rw [hsame.owned, h.owned]
    exact and_congr (Chronicle.did_cons_ok.trans (or_iff_left (hlinked k))).symm
      (not_congr (Chronicle.did_cons_ok.trans (or_iff_left (hunlinked k))).symm)
  · exact hsame.owned ▸ h.nodup
  · rw [hsame.everLinked, h.everLinked]
    exact exists_congr fun k => (Chronicle.did_cons_ok.trans (or_iff_left (hlinked k))).symm
  · exact hsame.halted.trans (h.halted.trans
      (Chronicle.did_cons_ok.trans (or_iff_left hhalt)).symm)

/-- **What is told of a session after it was asked something.** -/
theorem asked (h : s.Told log n) {req : Request} {reply : Except SessionError Reply} {d : Desk}
    (hdeed : Desk.Deed ⟨r, s⟩ req reply d) (hfresh : ∀ k, log.Linked n k → k.number < r.next)
    (hunlinked : ∀ k, log.Unlinked n k → log.Linked n k) :
    d.session.Told (.asked n req reply :: log) n := by
  cases hdeed with
  | refuse e =>
    refine h.cons_of_ne fun _ _ heq => ?_
    cases heq
  | plain hreq reply hreply hsame => exact h.plain hreq reply hsame
  | link digest p hroom hphase => exact h.link digest p hphase hfresh hunlinked
  | unlink howned hphase => exact h.unlink _ hphase .done
  | halt hphase => exact h.halt .done

end Session.Told

/-! ### What a chronicle tells of a host -/

namespace Host

variable {host host' : Host} {n n' : Nat} {s : Session} {d : Desk}

theorem lt_of_session (hs : host.session? n = some s) : n < host.sessions.length := by
  by_contra hge
  have hnone : host.sessions[n]? = none := List.getElem?_eq_none (not_lt.mp hge)
  rw [session?, hnone] at hs
  cases hs

/-- The session that is opened is new, and the others are there as before. -/
theorem session?_open (host : Host) (n : Nat) : host.openSession.session? n
    = if n = host.sessions.length then some {} else host.session? n := by
  show ((host.sessions ++ [some ({} : Session)])[n]?).join = _
  rcases lt_trichotomy n host.sessions.length with hlt | rfl | hgt
  · rw [List.getElem?_append_left hlt, if_neg hlt.ne]
    rfl
  · rw [List.getElem?_concat_length, if_pos rfl]
    rfl
  · have hnone : host.session? n = none := by
      rw [session?, List.getElem?_eq_none hgt.le]
      rfl
    have hlength : (host.sessions ++ [some ({} : Session)]).length ≤ n := by
      rw [List.length_append]
      exact hgt
    rw [if_neg hgt.ne', hnone, List.getElem?_eq_none hlength]
    rfl

/-- The session that is dropped is gone, and the others are there as before. -/
theorem session?_drop (hs : host.session? n = some s) (n' : Nat) :
    (host.dropSession n).session? n' = if n' = n then none else host.session? n' := by
  unfold dropSession
  rw [hs]
  show ((host.sessions.set n none)[n']?).join = _
  rw [List.getElem?_set]
  by_cases hn : n' = n
  · rw [if_pos hn, if_pos hn.symm, if_pos (lt_of_session hs)]
    rfl
  · rw [if_neg hn, if_neg (Ne.symm hn)]
    rfl

theorem registry_drop (hs : host.session? n = some s) :
    (host.dropSession n).registry = s.owned.foldl Registry.erase host.registry := by
  unfold dropSession
  rw [hs]

/-- A session that is there owns a handle. -/
def Owns (host : Host) (n : Nat) (k : Handle) : Prop :=
  ∃ s, host.session? n = some s ∧ k ∈ s.owned

theorem owns_iff (hs : host.session? n = some s) {k : Handle} : host.Owns n k ↔ k ∈ s.owned := by
  constructor
  · rintro ⟨s', hs', hk⟩
    rw [hs] at hs'
    cases hs'
    exact hk
  · intro hk
    exact ⟨s, hs, hk⟩

/-- **What a chronicle tells of a host.** -/
structure Records (log : Chronicle) (host : Host) : Prop where
  /-- The handles that were handed out are those up to the next one, each once. -/
  issued : log.issued.map Handle.number = (List.range host.registry.next).reverse
  /-- Only sessions that were opened do anything. -/
  opened : ∀ n p, log.Did n p → n < host.sessions.length
  dropped : ∀ n, log.Dropped n ↔ n < host.sessions.length ∧ host.session? n = none
  sessions : ∀ n s, host.session? n = some s → s.Told log n
  unlinked : ∀ n k, log.Unlinked n k → log.Linked n k
  nodup : host.registry.handles.Nodup
  /-- What is linked is owned by a session that is there. -/
  owners : ∀ k, k ∈ host.registry.handles ↔ ∃ n, host.Owns n k

namespace Records

variable {log : Chronicle}

/-- A handle that was linked has a smaller number than the next one. -/
theorem number_lt (h : Records log host) {k : Handle} (hk : k ∈ log.issued) :
    k.number < host.registry.next := by
  have hmem : k.number ∈ log.issued.map Handle.number := List.mem_map_of_mem hk
  rw [h.issued, List.mem_reverse] at hmem
  exact List.mem_range.mp hmem

theorem nodup_issued (h : Records log host) : log.issued.Nodup := by
  refine List.Nodup.of_map Handle.number ?_
  rw [h.issued]
  exact List.nodup_reverse.mpr List.nodup_range

/-- No two sessions were given the same handle. -/
theorem linked_inj (h : Records log host) {k : Handle} (hk : log.Linked n k)
    (hk' : log.Linked n' k) : n = n' := by
  have hpairwise : log.Pairwise HostEvent.Apart := List.pairwise_filterMap.mp h.nodup_issued
  obtain ⟨r, reply, hmem, -, rfl⟩ := hk
  obtain ⟨r', reply', hmem', -, rfl⟩ := hk'
  by_contra hne
  have hapart : HostEvent.Apart (.asked n r (.ok (.linked k))) (.asked n' r' (.ok (.linked k))) :=
    hpairwise.forall hmem hmem' fun heq => hne (HostEvent.asked.inj heq).1
  exact hapart k rfl k rfl rfl

/-- There is no handle at the start. -/
theorem start (catalog : Catalog) (resolver : Resolver) :
    Records [] { registry := { catalog, resolver } } where
  issued := rfl
  opened _ _ h := absurd h Chronicle.did_nil
  dropped n := iff_of_false List.not_mem_nil fun h => absurd h.1 n.not_lt_zero
  sessions n s hs := by cases hs
  unlinked _ _ h := absurd h Chronicle.did_nil
  nodup := .nil
  owners k := by
    refine iff_of_false List.not_mem_nil ?_
    rintro ⟨n, s, hs, -⟩
    cases hs

/-- Opening a session. -/
theorem openSession (h : Records log host) :
    Records (.opened host.sessions.length :: log) host.openSession := by
  have hdid : ∀ n p, Chronicle.Did (.opened host.sessions.length :: log) n p ↔ log.Did n p :=
    fun n p => Chronicle.did_cons_of_ne fun _ _ => HostEvent.noConfusion
  have hlength : host.openSession.sessions.length = host.sessions.length + 1 := List.length_append
  have hgone : host.session? host.sessions.length = none := by
    rw [session?, List.getElem?_eq_none le_rfl]
    rfl
  constructor
  · exact h.issued
  · intro n p hn
    rw [hlength]
    exact (h.opened n p ((hdid n p).mp hn)).trans (Nat.lt_succ_self _)
  · intro n
    have hmem : Chronicle.Dropped (.opened host.sessions.length :: log) n ↔ log.Dropped n :=
      List.mem_cons.trans (or_iff_right HostEvent.noConfusion)
    rw [hmem, h.dropped, hlength, session?_open]
    by_cases hn : n = host.sessions.length
    · rw [if_pos hn]
      exact iff_of_false (fun hold => hold.1.ne hn) fun hnew => by cases hnew.2
    · rw [if_neg hn]
      refine and_congr_left fun _ => ?_
      omega
  · intro n s hs
    rw [session?_open] at hs
    by_cases hn : n = host.sessions.length
    · rw [if_pos hn] at hs
      cases hs
      refine Session.Told.new fun p hp => ?_
      exact (h.opened n p ((hdid n p).mp hp)).ne hn
    · rw [if_neg hn] at hs
      exact (h.sessions n s hs).cons_of_ne fun _ _ => HostEvent.noConfusion
  · intro n k hk
    exact (hdid n _).mpr (h.unlinked n k ((hdid n _).mp hk))
  · exact h.nodup
  · intro k
    refine (h.owners k).trans (exists_congr fun n => ?_)
    unfold Owns
    rw [session?_open]
    by_cases hn : n = host.sessions.length
    · rw [if_pos hn, hn, hgone]
      refine iff_of_false (by rintro ⟨s, ⟨⟩, -⟩) ?_
      rintro ⟨s, ⟨⟩, hk⟩
      exact absurd hk List.not_mem_nil
    · rw [if_neg hn]

/-- Dropping a session. Its handles are unlinked. -/
theorem dropSession (h : Records log host) (hhost : host.Sound) (hs : host.session? n = some s) :
    Records (.dropped n :: log) (host.dropSession n) := by
  have hdid : ∀ n' p, Chronicle.Did (.dropped n :: log) n' p ↔ log.Did n' p :=
    fun n' p => Chronicle.did_cons_of_ne fun _ _ => HostEvent.noConfusion
  have hlength : (host.dropSession n).sessions.length = host.sessions.length := by
    unfold Host.dropSession
    rw [hs]
    exact List.length_set
  have hhandles : (host.dropSession n).registry.handles
      = host.registry.handles.filter (· ∉ s.owned) := by
    rw [registry_drop hs, Registry.handles_foldl_erase]
  constructor
  · rw [registry_drop hs, Registry.next_foldl_erase]
    exact h.issued
  · intro n' p hn'
    rw [hlength]
    exact h.opened n' p ((hdid n' p).mp hn')
  · intro n'
    have hmem : Chronicle.Dropped (.dropped n :: log) n' ↔ n' = n ∨ log.Dropped n' :=
      List.mem_cons.trans (or_congr_left ⟨HostEvent.dropped.inj, fun heq => heq ▸ rfl⟩)
    rw [hmem, h.dropped, hlength, session?_drop hs]
    by_cases hn : n' = n
    · rw [if_pos hn, hn]
      exact iff_of_true (.inl rfl) ⟨lt_of_session hs, rfl⟩
    · rw [if_neg hn, or_iff_right hn]
  · intro n' s' hs'
    rw [session?_drop hs] at hs'
    by_cases hn : n' = n
    · rw [if_pos hn] at hs'
      cases hs'
    · rw [if_neg hn] at hs'
      exact (h.sessions n' s' hs').cons_of_ne fun _ _ => HostEvent.noConfusion
  · intro n' k hk
    exact (hdid n' _).mpr (h.unlinked n' k ((hdid n' _).mp hk))
  · rw [hhandles]
    exact h.nodup.filter _
  · intro k
    rw [hhandles, List.mem_filter, decide_eq_true_iff, h.owners]
    constructor
    · rintro ⟨⟨n', s', hs', hk⟩, hno⟩
      have hne : n' ≠ n := by
        rintro rfl
        exact hno ((owns_iff hs).mp ⟨s', hs', hk⟩)
      refine ⟨n', s', ?_, hk⟩
      rw [session?_drop hs, if_neg hne]
      exact hs'
    · rintro ⟨n', s', hs', hk⟩
      rw [session?_drop hs] at hs'
      by_cases hne : n' = n
      · rw [if_pos hne] at hs'
        cases hs'
      · rw [if_neg hne] at hs'
        -- no two sessions own a handle, so this one was not unlinked
        exact ⟨⟨n', s', hs', hk⟩, hhost.apart n' n s' s hs' hs hne k hk⟩

/-- **Asking a session something.** -/
theorem asked (h : Records log host) (hhost : host.Sound) (hs : host.session? n = some s)
    {r : Request} {reply : Except SessionError Reply}
    (hdeed : Desk.Deed ⟨host.registry, s⟩ r reply d) :
    Records (.asked n r reply :: log) (host.put n d) := by
  have hdesk : Desk.Sound ⟨host.registry, s⟩ := hhost.sound n s hs
  have hlength : (host.put n d).sessions.length = host.sessions.length := List.length_set
  have hmono : ∀ n' p, log.Did n' p → Chronicle.Did (.asked n r reply :: log) n' p :=
    fun n' p hp => Chronicle.did_cons.mpr (.inl hp)
  constructor
  · rw [Chronicle.issued_asked, List.map_append, h.issued]
    exact hdeed.issued_eq
  · intro n' p hp
    rw [hlength]
    rcases Chronicle.did_cons.mp hp with hold | ⟨r', reply', ⟨⟩, -⟩
    · exact h.opened n' p hold
    · exact lt_of_session hs
  · intro n'
    have hmem : Chronicle.Dropped (.asked n r reply :: log) n' ↔ log.Dropped n' :=
      List.mem_cons.trans (or_iff_right HostEvent.noConfusion)
    rw [hmem, h.dropped, hlength, session?_put hs]
    by_cases hn : n' = n
    · rw [if_pos hn, hn, hs]
      exact iff_of_false (fun hno => nomatch hno.2) fun hno => nomatch hno.2
    · rw [if_neg hn]
  · intro n' s' hs'
    rw [session?_put hs] at hs'
    by_cases hn : n' = n
    · rw [if_pos hn] at hs'
      cases hs'
      rw [hn]
      exact (h.sessions n s hs).asked hdeed (fun k hk => h.number_lt hk.mem_issued) (h.unlinked n)
    · rw [if_neg hn] at hs'
      refine (h.sessions n' s' hs').cons_of_ne fun _ _ heq => ?_
      exact hn (HostEvent.asked.inj heq).1.symm
  · intro n' k hk
    rcases Chronicle.did_cons.mp hk with hold | ⟨r', reply', ⟨⟩, hr⟩
    · exact hmono n' _ (h.unlinked n' k hold)
    · subst hr
      exact hmono n _ (((h.sessions n s hs).owned k).mp hdeed.owned_of_unlink).1
  · exact hdeed.nodup_handles hdesk h.nodup
  · intro k
    have howns : ∀ n', (host.put n d).Owns n' k
        ↔ n' = n ∧ k ∈ d.session.owned ∨ n' ≠ n ∧ host.Owns n' k := by
      intro n'
      unfold Owns
      rw [session?_put hs]
      by_cases hn : n' = n
      · simp [hn]
      · simp [hn]
    show k ∈ d.registry.handles ↔ _
    rw [hdeed.mem_handles hdesk, h.owners]
    constructor
    · rintro (hk | ⟨⟨n', hk⟩, hno⟩)
      · exact ⟨n, (howns n).mpr (.inl ⟨rfl, hk⟩)⟩
      · have hne : n' ≠ n := by
          rintro rfl
          exact hno ((owns_iff hs).mp hk)
        exact ⟨n', (howns n').mpr (.inr ⟨hne, hk⟩)⟩
    · rintro ⟨n', hk⟩
      rcases (howns n').mp hk with ⟨-, hk⟩ | ⟨hne, s', hs', hk⟩
      · exact .inl hk
      · exact .inr ⟨⟨n', s', hs', hk⟩, hhost.apart n' n s' s hs' hs hne k hk⟩

/-- **Every event is recorded.** -/
theorem occurs {e : HostEvent} (h : Records log host) (hhost : host.Sound)
    (hoccurs : host.Occurs e host') : Records (e :: log) host' := by
  cases hoccurs with
  | opened => exact h.openSession
  | asked hperform =>
    obtain ⟨s, hs, rfl, rfl⟩ := perform_eq_some hperform
    exact h.asked hhost hs (Request.serve_deed _ _ (hhost.sound _ s hs))
  | dropped hs => exact h.dropSession hhost hs

end Records

/-! ### Hosts with their chronicles -/

namespace Chronicled

variable {catalog : Catalog} {resolver : Resolver} {log : Chronicle}

/-- A session is asked something, and answers within so many turns. -/
theorem ask (h : Chronicled catalog resolver log host) (limit n : Nat) (r : Request)
    (reply : Except SessionError Reply) (hperform : host.perform limit n r = some (reply, host')) :
    Chronicled catalog resolver (.asked n r reply :: log) host' :=
  h.step (.asked hperform)

/-- A host with its chronicle is one that sessions can lead to. -/
theorem reachable (h : Chronicled catalog resolver log host) :
    Reachable catalog resolver log.requests host := by
  induction h with
  | start => exact .start
  | step h hoccurs ih =>
    cases hoccurs with
    | opened => exact ih.openSession
    | asked hperform => exact ih.perform hperform
    | dropped hs => exact ih.dropSession _

theorem sound (h : Chronicled catalog resolver log host) : host.Sound := h.reachable.sound

/-- **A chronicle tells what a host has on record.** -/
theorem records (h : Chronicled catalog resolver log host) : Records log host := by
  induction h with
  | start => exact .start catalog resolver
  | step h hoccurs ih => exact ih.occurs h.sound hoccurs

/-- What a session was asked, it was asked on a host that the events before led to, and what it did
there is a step and a deed. -/
theorem asked_at {recent old : Chronicle} {r : Request} {reply : Except SessionError Reply}
    (h : Chronicled catalog resolver (recent ++ .asked n r reply :: old) host) :
    ∃ before s d, Chronicled catalog resolver old before ∧ before.session? n = some s ∧
      Desk.Step ⟨before.registry, s⟩ r reply d ∧ Desk.Deed ⟨before.registry, s⟩ r reply d := by
  induction recent generalizing host with
  | nil =>
    cases h with
    | @step _ before _ _ hbefore hoccurs =>
      cases hoccurs with
      | @asked limit _ _ _ _ hperform =>
        obtain ⟨s, hs, rfl, -⟩ := perform_eq_some hperform
        have hdesk := hbefore.sound.sound n s hs
        exact ⟨before, s, _, hbefore, hs, r.serve_step limit hdesk, r.serve_deed limit hdesk⟩
  | cons e recent ih =>
    cases h with
    | step h hoccurs => exact ih h

end Chronicled

end Host

end MeteredSandbox
