import MeteredSandbox.Proofs.Lifecycle

/-!
# The table of handles

What is linked is kept twice: the registry has a table of the linked programs, and every session has
a list of the handles that it owns. They are changed one after the other, by links, unlinks and
drops, and some of these fail.

After every event the table holds exactly what the sessions own that are there, and no two of them
own the same handle (`Host.Chronicled.handle_table`). Handles are numbered as they are handed out,
so that none is ever handed out twice, and what was unlinked is gone for good. The numbers have 32
bits, and when they are used up a link fails. When nobody owns anything, the table is empty.

All of this is read off `Host.Records`. It is said of the chronicle where the past is concerned, and
of the host where the present is, and `Host.Records.mem_handles_iff` joins the two.
-/

namespace MeteredSandbox

namespace Host

variable {catalog : Catalog} {resolver : Resolver} {log : Chronicle} {host host' : Host}
  {n limit : Nat} {s : Session} {digest : Digest}

/-- A request that fails leaves the host alone. -/
theorem perform_of_refused {r : Request} {e : SessionError} (hhost : host.Sound)
    (hperform : host.perform limit n r = some (.error e, host')) : host' = host := by
  obtain ⟨s, hs, hreply, rfl⟩ := perform_eq_some hperform
  have hdeed := r.serve_deed limit (hhost.sound n s hs)
  generalize r.serve limit ⟨host.registry, s⟩ = served at hreply hdeed
  obtain ⟨reply, d⟩ := served
  obtain rfl : Except.error e = reply := hreply
  cases hdeed with
  | refuse r e => exact put_self hs

/-- A session that is not halted fails to link what the registry fails to link. -/
theorem perform_link_of_error (hs : host.session? n = some s) (hphase : s.phase ≠ .halted)
    {failure : LinkFailure}
    (hlink : Registry.link digest host.registry = .error failure host.registry) :
    host.perform limit n (.link digest) = some (.error (.link failure), host) := by
  rw [perform_of_session hs, Request.serve, Request.perform_link_of_error limit hphase hlink]
  exact congrArg (fun host' => some (Except.error (SessionError.link failure), host')) (put_self hs)

namespace Records

/-- The handles that stand for something belong to somebody who has not unlinked them and is still
there. -/
theorem mem_handles_iff (h : Records log host) (k : Handle) :
    k ∈ host.registry.handles ↔ ∃ n, log.Owned n k ∧ ¬ log.Dropped n := by
  rw [h.owners]
  refine exists_congr fun n => ?_
  constructor
  · rintro ⟨s, hs, hk⟩
    have hthere : ¬ log.Dropped n := by
      rw [h.dropped, hs]
      exact fun hno => nomatch hno.2
    exact ⟨((h.sessions n s hs).owned k).mp hk, hthere⟩
  · rintro ⟨howned, hthere⟩
    have hopened : n < host.sessions.length := h.opened n _ howned.1
    cases hs : host.session? n with
    | none => exact absurd ((h.dropped n).mpr ⟨hopened, hs⟩) hthere
    | some s => exact ⟨s, hs, ((h.sessions n s hs).owned k).mpr howned⟩

/-- What was unlinked stands for nothing. -/
theorem not_mem_of_unlinked (h : Records log host) {k : Handle} (hk : log.Unlinked n k) :
    k ∉ host.registry.handles := by
  rw [h.mem_handles_iff]
  rintro ⟨n', ⟨hlinked, hunlinked⟩, -⟩
  -- only the session that was given the handle can have unlinked it
  have hsame : n = n' := h.linked_inj (h.unlinked n k hk) hlinked
  exact hunlinked (hsame ▸ hk)

end Records

namespace Chronicled

/-- Every successful link of a chronicle handed out a higher handle than all links before it, and
never the last number of 32 bits. -/
theorem link_above {recent old : Chronicle} {reply : Reply}
    (h : Chronicled catalog resolver (recent ++ .asked n (.link digest) (.ok reply) :: old) host) :
    ∃ k, reply = .linked k ∧ k.number < 0xFFFF_FFFF ∧
      ∀ earlier ∈ old.issued, earlier.number < k.number := by
  obtain ⟨before, s, d, hbefore, hs, -, hdeed⟩ := h.asked_at
  obtain ⟨hreply, hroom⟩ := hdeed.reply_of_link
  exact ⟨_, hreply, Nat.succ_lt_succ_iff.mp hroom,
    fun earlier hearlier => hbefore.records.number_lt hearlier⟩

/-- After a successful unlink the handle is not handed out again. -/
theorem unlink_forever {recent old : Chronicle} {k : Handle} {reply : Reply}
    (h : Chronicled catalog resolver (recent ++ .asked n (.unlink k) (.ok reply) :: old) host) :
    k ∉ recent.issued := by
  intro hagain
  -- the handle was handed out before it was unlinked
  have hbefore : k ∈ old.issued := by
    obtain ⟨before, s, d, hbefore, hs, -, hdeed⟩ := h.asked_at
    exact (((hbefore.records.sessions n s hs).owned k).mp hdeed.owned_of_unlink).1.mem_issued
  have hnodup := h.records.nodup_issued
  have happend : Chronicle.issued (recent ++ .asked n (.unlink k) (.ok reply) :: old)
      = recent.issued ++ Chronicle.issued (.asked n (.unlink k) (.ok reply) :: old) :=
    List.filterMap_append
  rw [happend, Chronicle.issued_asked] at hnodup
  exact (List.nodup_append.mp hnodup).2.2 k hagain k (List.mem_append_right _ hbefore) rfl

/-- **The table of handles.** Whatever was asked of the sessions of a host, and whichever of them
were dropped, what is linked is the disjoint union of what the sessions own that are there. Handles
are handed out in increasing order, and one that was unlinked is never linked again. Nothing is
linked when every session has unlinked everything or was dropped. A link that fails, for whatever
reason, changes nothing: the digest is unknown, or no instance can be made, or the counter of
handles is at the end of its 32 bits, so that no number would come after the new one. -/
theorem handle_table (h : Chronicled catalog resolver log host) :
    (host.registry.handles.Nodup ∧ (∀ k, k ∈ host.registry.handles ↔ ∃ n, host.Owns n k) ∧
      ∀ k n n', host.Owns n k → host.Owns n' k → n = n') ∧
    (∀ (recent old : Chronicle) n digest reply,
      log = recent ++ .asked n (.link digest) (.ok reply) :: old →
        ∃ k, reply = .linked k ∧ k.number < 0xFFFF_FFFF ∧
          ∀ earlier ∈ old.issued, earlier.number < k.number) ∧
    (∀ (recent old : Chronicle) n k reply,
      log = recent ++ .asked n (.unlink k) (.ok reply) :: old →
        k ∉ recent.issued ∧ k ∉ host.registry.handles) ∧
    ((∀ n k, log.Linked n k → log.Unlinked n k ∨ log.Dropped n) → host.registry.size = 0) ∧
    (∀ limit n digest e host', host.perform limit n (.link digest) = some (.error e, host') →
      host' = host) ∧
    (∀ limit n s digest, host.session? n = some s → s.phase ≠ .halted →
      (host.registry.catalog.get? digest = none →
        host.perform limit n (.link digest) = some (.error (.link (.unknownDigest digest)), host)) ∧
      (∀ entry e, host.registry.catalog.get? digest = some entry →
        instantiate entry.program host.registry.resolver = .error e →
        host.perform limit n (.link digest)
          = some (.error (.link (.instantiation digest e)), host)) ∧
      ∀ entry guest, host.registry.catalog.get? digest = some entry →
        instantiate entry.program host.registry.resolver = .ok guest →
        host.registry.next = 0xFFFF_FFFF →
        host.perform limit n (.link digest) = some (.error (.link .handlesExhausted), host)) := by
  have hrecords := h.records
  refine ⟨⟨hrecords.nodup, hrecords.owners, ?_⟩, ?_, ?_, ?_, ?_, ?_⟩
  · rintro k n n' ⟨s, hs, hk⟩ ⟨s', hs', hk'⟩
    by_contra hne
    exact h.sound.apart n n' s s' hs hs' hne k hk hk'
  · rintro recent old n digest reply rfl
    exact h.link_above
  · rintro recent old n k reply rfl
    refine ⟨h.unlink_forever, hrecords.not_mem_of_unlinked (n := n) ?_⟩
    exact ⟨.unlink k, reply, List.mem_append_right recent List.mem_cons_self, rfl⟩
  · intro hgone
    have hempty : host.registry.handles = [] := by
      refine List.eq_nil_iff_forall_not_mem.mpr fun k hk => ?_
      obtain ⟨n, ⟨hlinked, hunlinked⟩, hthere⟩ := (hrecords.mem_handles_iff k).mp hk
      exact (hgone n k hlinked).elim hunlinked hthere
    have hlength : host.registry.handles.length = host.registry.size := List.length_map _
    rw [← hlength, hempty]
    rfl
  · intro limit n digest e host' hperform
    exact perform_of_refused h.sound hperform
  · intro limit n s digest hs hphase
    exact ⟨fun hget => perform_link_of_error hs hphase (Registry.link_of_unknown hget),
      fun entry e hget hmake => perform_link_of_error hs hphase (Registry.link_of_error hget hmake),
      fun entry guest hget hmake hfull =>
        perform_link_of_error hs hphase (Registry.link_of_full hget hmake hfull)⟩

/-- The host after one session has linked a program twice and has unlinked it each time, while
another one has linked it and was dropped. -/
def deserted : Host where
  registry := {
    catalog := uneasy.registry.catalog
    resolver := uneasy.registry.resolver
    counter := 3 }
  sessions := [some { phase := .unlinked, everLinked := true }, none]

/-- The second link of the first session hands out a new handle, and nothing is linked in the end.
-/
theorem deserted_handle_table :
    let log : Chronicle := [
      .asked 0 (.unlink ⟨2⟩) (.ok .done), .dropped 1,
      .asked 0 (.link alarm.digest) (.ok (.linked ⟨2⟩)),
      .asked 0 (.unlink ⟨0⟩) (.ok .done), .asked 1 (.link alarm.digest) (.ok (.linked ⟨1⟩)),
      .opened 1, .asked 0 (.link alarm.digest) (.ok (.linked ⟨0⟩)), .opened 0]
    Chronicled deserted.registry.catalog deserted.registry.resolver log deserted ∧
      (∀ earlier ∈ [Handle.mk 1, Handle.mk 0], earlier.number < 2) ∧
      deserted.registry.size = 0 := by
  intro log
  have hdeserted : Chronicled deserted.registry.catalog deserted.registry.resolver log deserted := by
    have hopen : Chronicled deserted.registry.catalog deserted.registry.resolver [.opened 0] _ :=
      start.step .opened
    have hfirst := hopen.ask 0 0 (.link alarm.digest) (.ok (.linked ⟨0⟩)) rfl
    have hother := (hfirst.step .opened).ask 0 1 (.link alarm.digest) (.ok (.linked ⟨1⟩)) rfl
    have hunlink := hother.ask 0 0 (.unlink ⟨0⟩) (.ok .done) rfl
    have hsecond := hunlink.ask 0 0 (.link alarm.digest) (.ok (.linked ⟨2⟩)) rfl
    have hdrop := hsecond.step (.dropped (n := 1) rfl)
    exact hdrop.ask 0 0 (.unlink ⟨2⟩) (.ok .done) rfl
  obtain ⟨-, hlinks, -, hempty, -⟩ := hdeserted.handle_table
  refine ⟨hdeserted, ?_, hempty fun n k hlinked => ?_⟩
  · obtain ⟨k, ⟨⟩, -, habove⟩ := hlinks [_, _] _ 0 alarm.digest (.linked ⟨2⟩) rfl
    exact habove
  · -- the three links of the chronicle, one by one
    obtain ⟨r, reply, hmem, ⟨digest, rfl⟩, rfl⟩ := hlinked
    simp only [log, List.mem_cons, List.not_mem_nil, or_false, reduceCtorEq, false_or,
      HostEvent.asked.injEq, Request.link.injEq, Except.ok.injEq, Reply.linked.injEq,
      and_false] at hmem
    rcases hmem with ⟨rfl, -, rfl⟩ | ⟨rfl, -, rfl⟩ | ⟨rfl, -, rfl⟩
    · exact .inl ⟨.unlink ⟨2⟩, .done, by simp [log], rfl⟩
    · exact .inr (by simp [log, Chronicle.Dropped])
    · exact .inl ⟨.unlink ⟨0⟩, .done, by simp [log], rfl⟩

end Chronicled

end Host

end MeteredSandbox
