import MeteredSandbox.Proofs.Contract
import MeteredSandbox.Proofs.Renaming

/-!
# Sessions that share a registry do not notice each other

Any number of sessions work on one registry, and their requests come in any order. Each of them
observes what it would observe on a registry of its own (`Host.run_isolated`): the same answers and
mistakes, and after each of them the same phase, the same operands and the same meters. Only the
numbers of the handles differ, because the others link programs too. So a handle is known by its
position among those that the session was given. One thing a session cannot but notice: when the
others have used up all handles, it gets none. A run in which that happens to it is left out.

The proof runs both hosts side by side. While the session in question makes a request, its desk on
the shared registry and its desk on the registry of its own stay the same under other names
(`Desk.Sees.serve`). While another session makes one, the shared registry changes at handles that
the session in question does not own, because no two sessions own a handle (`Host.Sound`).

A session may name any handle. One that it was never given stands for nothing that it owns, and by
its position it is a handle that nobody has on the registry of its own.
-/

namespace MeteredSandbox

/-! ### What a session observes -/

/-- What a session can find out about itself without a call: its phase, its operands, and the meters
behind the handles that it owns. -/
structure View where
  phase : Phase
  operands : OperandStack
  meters : List (Handle × Option Meters)

/-- What a session observes when it makes a request: the answer, and then itself. -/
structure Observation where
  reply : Except SessionError Reply
  view : Option View

/-- The view with all handles under their new names. -/
def View.rename (ρ : Handle → Handle) (v : View) : View :=
  { v with meters := v.meters.map (Prod.map ρ id) }

/-- The observation with all handles under their new names. -/
def Observation.rename (ρ : Handle → Handle) (o : Observation) : Observation where
  reply := renameAnswer ρ o.reply
  view := o.view.map (View.rename ρ)

/-- What a session can find out about itself at its desk. -/
def Desk.view (d : Desk) : View where
  phase := d.session.phase
  operands := d.session.operands
  meters := d.session.owned.map fun h => (h, (d.registry.get? h).map LinkedProgram.meters)

theorem Desk.Sees.view_eq {ρ : Handle → Handle} {d d' : Desk} (hsees : Desk.Sees ρ d d') :
    d'.view = d.view.rename ρ := by
  have hmeters : d'.view.meters = (d.view.rename ρ).meters := by
    change d'.session.owned.map _ = (d.session.owned.map _).map _
    rw [hsees.owned_eq, List.map_map, List.map_map]
    refine List.map_congr_left fun k hk => ?_
    exact congrArg (fun p => (ρ k, p.map LinkedProgram.meters)) (hsees.programs k hk)
  unfold Desk.view View.rename
  rw [hsees.phase_eq, hsees.operands_eq]
  exact congrArg (View.mk d.session.phase d.session.operands) hmeters

/-- What belongs to one session. -/
def ofSession {α : Type} (n : Nat) (l : List (Nat × α)) : List α :=
  l.filterMap fun (m, a) => if m = n then some a else none

theorem ofSession_cons_self {α : Type} (n : Nat) (a : α) (l : List (Nat × α)) :
    ofSession n ((n, a) :: l) = a :: ofSession n l :=
  List.filterMap_cons_some (if_pos rfl)

theorem ofSession_cons_of_ne {α : Type} {m n : Nat} (h : m ≠ n) (a : α) (l : List (Nat × α)) :
    ofSession n ((m, a) :: l) = ofSession n l :=
  List.filterMap_cons_none (if_neg h)

/-- The handles that a session was given, in the order in which it linked them. -/
def handedOut (observations : List Observation) : List Handle :=
  observations.filterMap fun o => issued? o.reply

theorem handedOut_cons (o : Observation) (rest : List Observation) :
    handedOut (o :: rest) = (issued? o.reply).toList ++ handedOut rest := by
  unfold handedOut
  rw [List.filterMap_cons]
  cases issued? o.reply with
  | none => rfl
  | some k => rfl

/-- A handle by its position in a list. -/
def byPosition (order : List Handle) (h : Handle) : Handle := ⟨order.idxOf h⟩

theorem byPosition_append {done : List Handle} {k : Handle} (hk : k ∉ done) (rest : List Handle) :
    byPosition (done ++ k :: rest) k = ⟨done.length⟩ := by
  unfold byPosition
  rw [List.idxOf_append_of_notMem hk, List.idxOf_cons_self, Nat.add_zero]

/-- A position in a list tells its handle from all others. -/
theorem byPosition_inj {order : List Handle} {k : Handle} (hk : k ∈ order) {h : Handle}
    (heq : byPosition order h = byPosition order k) : h = k :=
  ((List.idxOf_inj hk).mp (Handle.mk.inj heq).symm).symm

namespace Host

/-- A host that has opened a number of sessions. -/
def opened (catalog : Catalog) (resolver : Resolver) : Nat → Host
  | 0 => { registry := { catalog, resolver } }
  | count + 1 => (opened catalog resolver count).openSession

/-- What a session can find out about itself, unless it was dropped. -/
def view? (n : Nat) (host : Host) : Option View :=
  (host.session? n).map fun s => Desk.view ⟨host.registry, s⟩

/-- Carries out requests of sessions one after another. Calls take at most `limit` turns each. -/
def run (limit : Nat) : List (Nat × Request) → Host → List (Nat × Observation) × Host
  | [], host => ([], host)
  | (n, r) :: rest, host =>
    match host.perform limit n r with
    | none => run limit rest host
    | some (reply, host') =>
      let (observations, last) := run limit rest host'
      ((n, { reply, view := host'.view? n }) :: observations, last)

section

variable (catalog : Catalog) (resolver : Resolver)

theorem registry_opened (count : Nat) :
    (opened catalog resolver count).registry = { catalog, resolver } := by
  induction count with
  | zero => rfl
  | succ count ih => exact ih

theorem sessions_opened (count : Nat) :
    (opened catalog resolver count).sessions = List.replicate count (some {}) := by
  induction count with
  | zero => rfl
  | succ count ih =>
    change (opened catalog resolver count).sessions ++ [some ({} : Session)] = _
    rw [ih, List.replicate_succ']

theorem session?_opened {n count : Nat} (h : n < count) :
    (opened catalog resolver count).session? n = some {} := by
  unfold session?
  rw [sessions_opened, List.getElem?_replicate_of_lt h]
  rfl

theorem sound_opened (count : Nat) : (opened catalog resolver count).Sound := by
  induction count with
  | zero => exact sound_start catalog resolver
  | succ count ih => exact ih.openSession

end

/-! ### Side by side -/

variable {host host' solo : Host} {limit n m : Nat} {s : Session} {r : Request}
  {reply : Except SessionError Reply}

theorem view?_of_session (hs : host.session? n = some s) :
    host.view? n = some (Desk.view ⟨host.registry, s⟩) := by
  unfold view?
  rw [hs]
  rfl

theorem run_cons_of_none (h : host.perform limit n r = none) (rest : List (Nat × Request)) :
    run limit ((n, r) :: rest) host = run limit rest host := by
  rw [run, h]

theorem run_cons_of_some (h : host.perform limit n r = some (reply, host'))
    (rest : List (Nat × Request)) : run limit ((n, r) :: rest) host
      = ((n, { reply, view := host'.view? n }) :: (run limit rest host').1,
        (run limit rest host').2) := by
  rw [run, h]

/-- A session on a shared registry and on a registry of its own, where its handles are called by
their position in `order`. It has been given those in `done`. -/
structure Beside (n : Nat) (order done : List Handle) (host solo : Host) : Prop where
  shared : host.Sound
  alone : solo.Sound
  sees : ∃ s s', host.session? n = some s ∧ solo.session? 0 = some s' ∧
    Desk.Sees (byPosition order) ⟨host.registry, s⟩ ⟨solo.registry, s'⟩
  next : solo.registry.next = done.length
  /-- The session is not the only one to use up handles. -/
  next_le : solo.registry.next ≤ host.registry.next
  issued : ∀ k ∈ done, k.number < host.registry.next

namespace Beside

variable {order done : List Handle}

/-- The session finds out the same about itself. -/
theorem view_eq (h : Beside n order done host solo) :
    solo.view? 0 = (host.view? n).map (View.rename (byPosition order)) := by
  obtain ⟨s, s', hs, hs', hsees⟩ := h.sees
  rw [view?_of_session hs, view?_of_session hs', hsees.view_eq]
  rfl

/-- **Another session makes a request.** -/
theorem other (h : Beside n order done host solo) (hne : m ≠ n)
    (hperform : host.perform limit m r = some (reply, host')) :
    Beside n order done host' solo := by
  have hshared := h.shared.perform hperform
  obtain ⟨s, s', hs, hs', hsees⟩ := h.sees
  obtain ⟨t, ht, -, rfl⟩ := perform_eq_some hperform
  have hdesk := h.shared.sound m t ht
  have hframe := (r.serve_step limit hdesk).frame hdesk
  refine ⟨hshared, h.alone, ⟨s, s', ?_, hs', ?_⟩, h.next, h.next_le.trans hframe.next_le,
    fun k hk => ?_⟩
  · rw [session?_put ht, if_neg (Ne.symm hne)]
    exact hs
  · refine ⟨hsees.catalog.trans hframe.catalog.symm, hsees.resolver.trans hframe.resolver.symm,
      hsees.session, fun k hk => (hsees.programs k hk).trans ?_, hsees.distinct⟩
    exact (h.shared.get?_of_frame ht hs (Ne.symm hne) hframe hk).symm
  · exact (h.issued k hk).trans_le hframe.next_le

/-- **The session itself makes a request**, on the shared registry and under other names on its
own. -/
theorem own (h : Beside n order done host solo)
    (hperform : host.perform limit n r = some (reply, host'))
    (hlinked : reply ≠ .error (.link .handlesExhausted)) {rest : List Handle}
    (horder : order = done ++ ((issued? reply).toList ++ rest)) :
    ∃ solo', solo.perform limit 0 (r.rename (byPosition order))
        = some (renameAnswer (byPosition order) reply, solo') ∧
      Beside n order (done ++ (issued? reply).toList) host' solo' := by
  have hshared := h.shared.perform hperform
  obtain ⟨s, s', hs, hs', hsees⟩ := h.sees
  obtain ⟨t, ht, rfl, rfl⟩ := perform_eq_some hperform
  obtain rfl : s = t := Option.some.inj (hs.symm.trans ht)
  have hdesk := h.shared.sound n s hs
  have hdesk' := h.alone.sound 0 s' hs'
  have hstep := r.serve_step limit hdesk
  -- A handle that is handed out is the next one in `order`.
  have hissued : ∀ k, issued? (r.serve limit ⟨host.registry, s⟩).1 = some k →
      byPosition order k = ⟨solo.registry.next⟩ ∧
        ∀ j, byPosition order j = byPosition order k → j = k := by
    intro k hk
    rw [hk] at horder
    have hnew : k ∉ done := by
      intro hmem
      have hlt := h.issued k hmem
      rw [(hstep.issued_eq hk).2.1] at hlt
      exact absurd hlt (lt_irrefl _)
    have hmem : k ∈ order := by
      rw [horder]
      exact List.mem_append_right done List.mem_cons_self
    refine ⟨?_, fun j => byPosition_inj hmem⟩
    rw [horder, h.next]
    exact byPosition_append hnew rest
  have hroom : host.registry.HasRoom → solo.registry.HasRoom :=
    (Nat.add_le_add_right h.next_le 1).trans_lt
  obtain ⟨hanswer, hleft⟩ := hsees.serve hdesk hdesk' hroom hlinked hissued
  have hstep' := (r.rename (byPosition order)).serve_step limit hdesk'
  have hanswer' := congrArg issued? hanswer
  rw [issued?_renameAnswer] at hanswer'
  have hperform' := perform_of_session hs' limit (r.rename (byPosition order))
  rw [hanswer] at hperform'
  refine ⟨_, hperform', hshared, h.alone.perform hperform', ⟨_, _, ?_, ?_, hleft⟩, ?_, ?_, ?_⟩
  · exact (session?_put hs _ n).trans (if_pos rfl)
  · exact (session?_put hs' _ 0).trans (if_pos rfl)
  · change ((r.rename (byPosition order)).serve limit ⟨solo.registry, s'⟩).2.registry.next = _
    cases hk : issued? (r.serve limit ⟨host.registry, s⟩).1 with
    | none =>
      rw [hk] at hanswer'
      rw [hstep'.next_eq hanswer', Option.toList_none, List.append_nil]
      exact h.next
    | some k =>
      rw [hk] at hanswer'
      rw [(hstep'.issued_eq hanswer').2.2, Option.toList_some, List.length_append]
      exact congrArg (· + 1) h.next
  · change ((r.rename (byPosition order)).serve limit ⟨solo.registry, s'⟩).2.registry.next
      ≤ (r.serve limit ⟨host.registry, s⟩).2.registry.next
    cases hk : issued? (r.serve limit ⟨host.registry, s⟩).1 with
    | none =>
      rw [hk] at hanswer'
      rw [hstep'.next_eq hanswer', hstep.next_eq hk]
      exact h.next_le
    | some k =>
      rw [hk] at hanswer'
      rw [(hstep'.issued_eq hanswer').2.2, (hstep.issued_eq hk).2.2]
      exact Nat.succ_le_succ h.next_le
  · intro k hk
    rcases List.mem_append.mp hk with hold | hnew
    · exact (h.issued k hold).trans_le (hstep.frame hdesk).next_le
    · obtain ⟨-, rfl, hnext⟩ := hstep.issued_eq (Option.mem_toList.mp hnew)
      exact (Nat.lt_succ_self _).trans_eq hnext.symm

end Beside

/-- **A run beside a run.** What the session is given in the rest of the run completes `order`. -/
theorem Beside.run_eq {order : List Handle} (schedule : List (Nat × Request)) {done : List Handle}
    (h : Beside n order done host solo)
    (hlinked : ∀ o ∈ ofSession n (run limit schedule host).1,
      o.reply ≠ .error (.link .handlesExhausted))
    (horder : order = done ++ handedOut (ofSession n (run limit schedule host).1)) :
    ofSession 0 (run limit
        ((ofSession n schedule).map fun r => (0, r.rename (byPosition order))) solo).1
      = (ofSession n (run limit schedule host).1).map (Observation.rename (byPosition order)) ∧
    (run limit ((ofSession n schedule).map fun r => (0, r.rename (byPosition order))) solo).2.view? 0
      = ((run limit schedule host).2.view? n).map (View.rename (byPosition order)) := by
  -- on the requests that are left; what the session has been given so far grows as they are made
  induction schedule generalizing host solo done with
  | nil => exact ⟨rfl, h.view_eq⟩
  | cons e rest ih =>
    obtain ⟨m, r⟩ := e
    obtain ⟨s, s', hs, -⟩ := h.sees
    by_cases hne : m = n
    · subst hne
      obtain ⟨reply, host', hperform⟩ : ∃ reply host',
          host.perform limit m r = some (reply, host') := ⟨_, _, perform_of_session hs limit r⟩
      rw [run_cons_of_some hperform, ofSession_cons_self] at hlinked horder
      obtain ⟨hfirst, hrest⟩ := List.forall_mem_cons.mp hlinked
      rw [handedOut_cons] at horder
      obtain ⟨solo', hperform', hbeside⟩ := h.own hperform hfirst horder
      rw [← List.append_assoc] at horder
      obtain ⟨hobservations, hview⟩ := ih hbeside hrest horder
      rw [run_cons_of_some hperform, ofSession_cons_self, ofSession_cons_self, List.map_cons,
        List.map_cons, run_cons_of_some hperform', ofSession_cons_self]
      refine ⟨?_, hview⟩
      rw [hobservations, hbeside.view_eq]
      rfl
    · rw [ofSession_cons_of_ne hne]
      cases hperform : host.perform limit m r with
      | none =>
        rw [run_cons_of_none hperform] at hlinked horder ⊢
        exact ih h hlinked horder
      | some answer =>
        obtain ⟨reply, host'⟩ := answer
        rw [run_cons_of_some hperform, ofSession_cons_of_ne hne] at hlinked horder
        rw [run_cons_of_some hperform, ofSession_cons_of_ne hne]
        exact ih (h.other hne hperform) hlinked horder

/-- **Sessions do not notice each other.** Let any number of sessions make any requests in any order
on one registry. What one of them observes, and what it finds out about itself in the end, is what
it observes when its own requests are made in the same order by the only session of another host
over the same catalog, where every handle is called by its position among those that the session is
given. It must not be refused a link because all handles are used up. -/
theorem run_isolated (catalog : Catalog) (resolver : Resolver) (limit count : Nat) (n : Fin count)
    (schedule : List (Nat × Request))
    (hlinked : ∀ o ∈ ofSession n (run limit schedule (opened catalog resolver count)).1,
      o.reply ≠ .error (.link .handlesExhausted)) :
    let shared := run limit schedule (opened catalog resolver count)
    let ρ := byPosition (handedOut (ofSession n shared.1))
    let alone := run limit ((ofSession n schedule).map fun r => (0, r.rename ρ))
      (opened catalog resolver 1)
    ofSession 0 alone.1 = (ofSession n shared.1).map (Observation.rename ρ) ∧
      alone.2.view? 0 = (shared.2.view? n).map (View.rename ρ) := by
  intro shared ρ
  have hsees : Desk.Sees ρ ⟨(opened catalog resolver count).registry, {}⟩
      ⟨(opened catalog resolver 1).registry, {}⟩ := by
    rw [registry_opened, registry_opened]
    exact ⟨rfl, rfl, rfl, fun k hk => absurd hk List.not_mem_nil,
      fun k hk => absurd hk List.not_mem_nil⟩
  have hnext : (opened catalog resolver 1).registry.next = 0 := rfl
  have hstart : Beside n (handedOut (ofSession n shared.1)) [] (opened catalog resolver count)
      (opened catalog resolver 1) :=
    ⟨sound_opened catalog resolver count, sound_opened catalog resolver 1,
      ⟨{}, {}, session?_opened catalog resolver n.isLt,
        session?_opened catalog resolver Nat.one_pos, hsees⟩,
      hnext, hnext.trans_le (Nat.zero_le _), fun k hk => absurd hk List.not_mem_nil⟩
  exact hstart.run_eq schedule hlinked rfl

/-- The requests of two sessions. Both link a program, the second one twice, and then the first one
is done with it. -/
def interleaved : List (Nat × Request) := [
  (0, .link alarm.digest), (1, .link alarm.digest), (1, .setInk ⟨1⟩ 100), (0, .setInk ⟨0⟩ 7),
  (1, .link alarm.digest), (0, .unlink ⟨0⟩), (1, .unlink ⟨2⟩), (1, .inkLeft ⟨2⟩),
  (1, .setDepth ⟨1⟩ 5)]

/-- The host after these requests. -/
def poised : Host where
  registry := {
    catalog := uneasy.registry.catalog
    resolver := uneasy.registry.resolver
    counter := 3
    linked := [(⟨1⟩, alarmed)] }
  sessions := [
    some { phase := .unlinked, everLinked := true },
    some { owned := [⟨1⟩], phase := .configured, everLinked := true }]

/-- The second of two sessions is given the handles 1 and 2, which on a registry of its own are 0
and 1. There it is told the same: a handle is gone once it is unlinked, and the guest behind the
other one panics. -/
theorem interleaved_isolated :
    let shared := run 10 (interleaved ++ [(1, .callEntry ⟨1⟩ 1)])
      (opened uneasy.registry.catalog uneasy.registry.resolver 2)
    let alone := run 10 [
        (0, .link alarm.digest), (0, .setInk ⟨0⟩ 100), (0, .link alarm.digest), (0, .unlink ⟨1⟩),
        (0, .inkLeft ⟨1⟩), (0, .setDepth ⟨0⟩ 5), (0, .callEntry ⟨0⟩ 1)]
      (opened uneasy.registry.catalog uneasy.registry.resolver 1)
    (∀ o ∈ ofSession 1 shared.1, o.reply ≠ .error (.link .handlesExhausted)) ∧
      handedOut (ofSession 1 shared.1) = [⟨1⟩, ⟨2⟩] ∧
      (ofSession 0 alone.1).map Observation.reply = [
        .ok (.linked ⟨0⟩), .ok .done, .ok (.linked ⟨1⟩), .ok .done, .error (.notLinked ⟨1⟩),
        .ok .done, .ok (.outcome (.failure (.panicked .other)))] := by
  intro shared alone
  have hpoised : ∀ rest, (ofSession 1 (run 10 (interleaved ++ rest)
        (opened uneasy.registry.catalog uneasy.registry.resolver 2)).1).map Observation.reply
      = [.ok (.linked ⟨1⟩), .ok .done, .ok (.linked ⟨2⟩), .ok .done, .error (.notLinked ⟨2⟩),
          .ok .done] ++ (ofSession 1 (run 10 rest poised).1).map Observation.reply :=
    fun rest => rfl
  have hcall : (ofSession 1 (run 10 [(1, .callEntry ⟨1⟩ 1)] poised).1).map Observation.reply
      = [.ok (.outcome (.failure (.panicked .other)))] := rfl
  have hreplies := hpoised [(1, .callEntry ⟨1⟩ 1)]
  rw [hcall] at hreplies
  have hlinked : ∀ o ∈ ofSession 1 shared.1, o.reply ≠ .error (.link .handlesExhausted) := by
    intro o ho hno
    have hmem := List.mem_map_of_mem (f := Observation.reply) ho
    rw [hreplies, hno] at hmem
    simp at hmem
  have hhanded : handedOut (ofSession 1 shared.1) = [⟨1⟩, ⟨2⟩] := by
    have hissued := congrArg (List.filterMap issued?) hreplies
    rw [List.filterMap_map] at hissued
    exact hissued
  have hisolated := run_isolated uneasy.registry.catalog uneasy.registry.resolver 10 2 1
    (interleaved ++ [(1, Request.callEntry ⟨1⟩ 1)]) hlinked
  refine ⟨hlinked, hhanded, ?_⟩
  have hanswers : (ofSession 0 alone.1).map Observation.reply
      = ((ofSession 1 shared.1).map (Observation.rename (byPosition [⟨1⟩, ⟨2⟩]))).map
          Observation.reply := by
    rw [← hhanded]
    exact congrArg (List.map Observation.reply) hisolated.1
  rw [List.map_map] at hanswers
  exact hanswers.trans (congrArg (List.map (renameAnswer (byPosition [⟨1⟩, ⟨2⟩]))) hreplies)

end Host

end MeteredSandbox
