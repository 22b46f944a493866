import MeteredSandbox.Proofs.Ownership

/-!
# Handles under other names

What a session observes depends on its own handles only, and not on their numbers. So a session that
works on a registry of its own, where it gets other handles, does the same under other names.
`Desk.Sees ρ d d'` says that the session of `d'` is that of `d` with every handle `h` called `ρ h`,
and that the linked programs behind the handles that it owns are the same; all else in the two
registries may differ. A request under its new name is then answered with the same answer under its
new name, and leaves desks that are related again (`Desk.Sees.serve`).

The map `ρ` need not be one to one. It is enough that it tells each handle that is owned from every
other handle, so that one who asks about a handle of somebody else is turned away on both sides.
-/

namespace MeteredSandbox

variable (ρ : Handle → Handle)

/-! ### Renaming -/

/-- The mistake with the handle under its new name. -/
def SessionError.rename : SessionError → SessionError
  | link failure => link failure
  | notLinked h => notLinked (ρ h)
  | unknownSelector h selector => unknownSelector (ρ h) selector
  | unconfigured h => unconfigured (ρ h)
  | notAllowed operation phase => notAllowed operation phase
  | stillLinked count => stillLinked count

/-- The answer with the handle under its new name. -/
def Reply.rename : Reply → Reply
  | linked h => linked (ρ h)
  | done => done
  | ink remaining => ink remaining
  | status s => status s
  | depth remaining => depth remaining
  | outcome o => outcome o
  | operand v => operand v

/-- The request with the handle under its new name. -/
def Request.rename : Request → Request
  | link digest => link digest
  | unlink h => unlink (ρ h)
  | setInk h budget => setInk (ρ h) budget
  | inkLeft h => inkLeft (ρ h)
  | inkStatus h => inkStatus (ρ h)
  | setDepth h limit => setDepth (ρ h) limit
  | depthLeft h => depthLeft (ρ h)
  | callEntry h selector => callEntry (ρ h) selector
  | runStart h => runStart (ρ h)
  | halt => halt
  | pushOperand v => pushOperand v
  | popOperand => popOperand

/-- An answer or a mistake, with the handle under its new name. -/
def renameAnswer : Except SessionError Reply → Except SessionError Reply
  | .ok reply => .ok (reply.rename ρ)
  | .error e => .error (e.rename ρ)

/-- The session with all handles under their new names. -/
def Session.rename (s : Session) : Session := { s with owned := s.owned.map ρ }

variable {ρ}

theorem Reply.rename_of_issued? {reply : Reply} (h : issued? (.ok reply) = none) :
    reply.rename ρ = reply := by
  cases reply with
  | linked k => cases h
  | done | ink | status | depth | outcome | operand => rfl

theorem issued?_renameAnswer (answer : Except SessionError Reply) :
    issued? (renameAnswer ρ answer) = (issued? answer).map ρ := by
  rcases answer with e | reply
  · rfl
  · cases reply with
    | linked | done | ink | status | depth | outcome | operand => rfl

/-! ### Desks under other names -/

namespace Desk

/-- **The same desk under other names**, as far as its session can tell. -/
structure Sees (ρ : Handle → Handle) (d d' : Desk) : Prop where
  catalog : d'.registry.catalog = d.registry.catalog
  resolver : d'.registry.resolver = d.registry.resolver
  session : d'.session = d.session.rename ρ
  programs : ∀ k ∈ d.session.owned, d'.registry.get? (ρ k) = d.registry.get? k
  /-- Handles that are owned have names of their own. -/
  distinct : ∀ k ∈ d.session.owned, ∀ h, ρ h = ρ k → h = k

namespace Sees

variable {d d' : Desk} (hsees : Sees ρ d d')

include hsees

theorem phase_eq : d'.session.phase = d.session.phase := by
  rw [hsees.session]
  rfl

theorem operands_eq : d'.session.operands = d.session.operands := by
  rw [hsees.session]
  rfl

theorem owned_eq : d'.session.owned = d.session.owned.map ρ := by
  rw [hsees.session]
  rfl

theorem pricing_eq : d'.registry.pricing = d.registry.pricing := by
  unfold Registry.pricing
  rw [hsees.catalog]

theorem produce_eq (digest : Digest) : d'.registry.produce digest = d.registry.produce digest := by
  unfold Registry.produce
  rw [hsees.catalog, hsees.resolver]

theorem mem_owned_iff (h : Handle) : ρ h ∈ d'.session.owned ↔ h ∈ d.session.owned := by
  rw [hsees.owned_eq, List.mem_map]
  constructor
  · rintro ⟨k, hk, heq⟩
    rw [hsees.distinct k hk h heq.symm]
    exact hk
  · exact fun hk => ⟨h, hk, rfl⟩

theorem settledPhase_eq : d'.settledPhase = d.settledPhase := by
  have hconfigured : d'.session.owned.all d'.registry.isConfigured
      = d.session.owned.all d.registry.isConfigured := by
    rw [hsees.owned_eq, List.all_map, Bool.eq_iff_iff, List.all_eq_true, List.all_eq_true]
    refine forall₂_congr fun k hk => ?_
    rw [Function.comp_apply]
    unfold Registry.isConfigured
    rw [hsees.programs k hk]
  have hever : d'.session.everLinked = d.session.everLinked := by
    rw [hsees.session]
    rfl
  unfold settledPhase
  rw [hconfigured, hever, hsees.owned_eq]
  exact if_congr List.map_eq_nil_iff rfl rfl

/-- The check of a handle comes to the same. -/
theorem check_eq (operation : Operation) (h : Handle) :
    d'.check operation (ρ h) = (d.check operation h).mapError (SessionError.rename ρ) := by
  unfold check
  rw [hsees.phase_eq]
  by_cases hphase : d.session.phase = .halted
  · rw [if_pos hphase, if_pos hphase]
    rfl
  rw [if_neg hphase, if_neg hphase]
  by_cases howned : h ∈ d.session.owned
  · have howned' : ρ h ∈ d'.session.owned := (hsees.mem_owned_iff h).mpr howned
    rw [if_neg (not_not.mpr howned), if_neg (not_not.mpr howned'), hsees.programs h howned]
    cases d.registry.get? h with
    | none => rfl
    | some p => rfl
  · rw [if_pos howned, if_pos (mt (hsees.mem_owned_iff h).mp howned)]
    rfl

/-! What a step changes, it changes on both sides. -/

theorem setPhase (phase : Phase) : Sees ρ (d.setPhase phase) (d'.setPhase phase) where
  catalog := hsees.catalog
  resolver := hsees.resolver
  session := by
    unfold Desk.setPhase
    dsimp only
    rw [hsees.session]
    rfl
  programs := hsees.programs
  distinct := hsees.distinct

theorem settle : Sees ρ d.settle d'.settle := by
  unfold Desk.settle
  rw [hsees.settledPhase_eq]
  exact hsees.setPhase d.settledPhase

theorem setOperands (operands : OperandStack) :
    Sees ρ (d.setOperands operands) (d'.setOperands operands) where
  catalog := hsees.catalog
  resolver := hsees.resolver
  session := by
    unfold Desk.setOperands
    dsimp only
    rw [hsees.session]
    rfl
  programs := hsees.programs
  distinct := hsees.distinct

/-- A linked program is replaced on both sides. -/
theorem update {h : Handle} (howned : h ∈ d.session.owned) (p : LinkedProgram) :
    Sees ρ (d.update h p) (d'.update (ρ h) p) where
  catalog := hsees.catalog
  resolver := hsees.resolver
  session := hsees.session
  programs := by
    intro k hk
    change (d'.registry.update (ρ h) p).get? (ρ k) = (d.registry.update h p).get? k
    rw [Registry.get?_update, Registry.get?_update, hsees.programs h howned, hsees.programs k hk]
    refine if_congr ⟨fun heq => hsees.distinct h howned k heq, congrArg ρ⟩ rfl rfl
  distinct := hsees.distinct

theorem abandon {h : Handle} (howned : h ∈ d.session.owned) :
    Sees ρ (d.abandon h) (d'.abandon (ρ h)) := by
  refine settle ⟨hsees.catalog, hsees.resolver, ?_, fun k hk => ?_, fun k hk => ?_⟩
  · have hfilter : (d.session.owned.map ρ).filter (· ≠ ρ h)
        = (d.session.owned.filter (· ≠ h)).map ρ := by
      rw [List.filter_map]
      refine congrArg (List.map ρ) (List.filter_congr fun k hk => ?_)
      refine decide_eq_decide.mpr (not_congr ⟨fun heq => ?_, congrArg ρ⟩)
      exact hsees.distinct h howned k heq
    dsimp only
    rw [hsees.session]
    exact congrArg (fun owned => { d.session with owned }) hfilter
  · obtain ⟨hold, hne⟩ := List.mem_filter.mp hk
    have hne' : k ≠ h := of_decide_eq_true hne
    have hρ : ρ k ≠ ρ h := fun heq => hne' (hsees.distinct h howned k heq)
    change (d'.registry.erase (ρ h)).get? (ρ k) = (d.registry.erase h).get? k
    rw [Registry.get?_erase_of_ne _ hρ, Registry.get?_erase_of_ne _ hne']
    exact hsees.programs k hold
  · exact hsees.distinct k (List.mem_filter.mp hk).1

/-- The next handle of the one side gets the name of the next handle of the other side. -/
theorem adopt (hd : d.Sound) (hd' : d'.Sound) (p : LinkedProgram)
    (hnext : ρ ⟨d.registry.next⟩ = ⟨d'.registry.next⟩)
    (hdistinct : ∀ h, ρ h = ρ ⟨d.registry.next⟩ → h = ⟨d.registry.next⟩) :
    Sees ρ (d.adopt p) (d'.adopt p) := by
  refine settle ⟨hsees.catalog, hsees.resolver, ?_, fun k hk => ?_, fun k hk => ?_⟩
  · dsimp only
    rw [hsees.session, ← hnext]
    change ({ d.session.rename ρ with
      owned := d.session.owned.map ρ ++ [ρ ⟨d.registry.next⟩], everLinked := true } : Session) = _
    rw [← List.map_singleton, ← List.map_append]
    rfl
  · change (d'.registry.issue p).get? (ρ k) = (d.registry.issue p).get? k
    rw [hd.fresh.get?_issue, hd'.fresh.get?_issue, ← hnext]
    by_cases hk' : k = ⟨d.registry.next⟩
    · rw [hk', if_pos rfl, if_pos rfl]
    · rw [if_neg hk', if_neg fun heq => hk' (hdistinct k heq)]
      rcases List.mem_append.mp hk with hold | hnew
      · exact hsees.programs k hold
      · exact absurd (List.mem_singleton.mp hnew) hk'
  · rcases List.mem_append.mp hk with hold | hnew
    · exact hsees.distinct k hold
    · rw [List.mem_singleton.mp hnew]
      exact hdistinct

end Sees

/-- **The same result under other names.** -/
inductive Mirrors (ρ : Handle → Handle) :
    EStateM.Result SessionError Desk Reply → EStateM.Result SessionError Desk Reply → Prop
  | ok {d d' : Desk} (reply : Reply) (hsees : Sees ρ d d') :
      Mirrors ρ (.ok reply d) (.ok (reply.rename ρ) d')
  | error {d d' : Desk} (e : SessionError) (hsees : Sees ρ d d') :
      Mirrors ρ (.error e d) (.error (e.rename ρ) d')

end Desk

/-! ### Requests under other names -/

/-- The job on the handle under its new name. -/
def Job.rename (ρ : Handle → Handle) (j : Job) : Job where
  operation := j.operation
  handle := ρ j.handle
  work pricing operands p := (j.work pricing operands p).mapError (SessionError.rename ρ)

namespace LinkedProgram

variable (p : LinkedProgram) (limit : Nat) (h : Handle) (pricing : Pricing)
  (operands : OperandStack)

theorem serve_rename (func : Nat) : p.serve limit (ρ h) func pricing operands
    = (p.serve limit h func pricing operands).mapError (SessionError.rename ρ) := by
  unfold serve
  split
  · rfl
  · rfl

theorem serveEntry_rename (selector : Int) : p.serveEntry limit (ρ h) selector pricing operands
    = (p.serveEntry limit h selector pricing operands).mapError (SessionError.rename ρ) := by
  unfold serveEntry
  split
  · rfl
  · exact p.serve_rename limit h pricing operands _

theorem serveStart_rename : p.serveStart limit (ρ h) pricing operands
    = (p.serveStart limit h pricing operands).mapError (SessionError.rename ρ) := by
  unfold serveStart
  split
  · rfl
  · exact p.serve_rename limit h pricing operands _

end LinkedProgram

namespace Request

/-- Answers and mistakes are mapped apart. -/
theorem mapError_map {ε ε' α β : Type} (x : Except ε α) (f : α → β) (g : ε → ε') :
    (x.mapError g).map f = (x.map f).mapError g := by
  rcases x with e | a
  · rfl
  · rfl

/-- **The job of a request under other names** is the same job under other names. -/
theorem job?_rename (limit : Nat) (r : Request) :
    (r.rename ρ).job? limit = (r.job? limit).map (Job.rename ρ) := by
  cases r with
  | callEntry h selector =>
    refine congrArg (fun work => some (Job.mk .callEntry (ρ h) work)) ?_
    funext pricing operands p
    rw [LinkedProgram.serveEntry_rename]
    exact mapError_map _ _ _
  | runStart h =>
    refine congrArg (fun work => some (Job.mk .runStart (ρ h) work)) ?_
    funext pricing operands p
    rw [LinkedProgram.serveStart_rename]
    exact mapError_map _ _ _
  | link | unlink | setInk | inkLeft | inkStatus | setDepth | depthLeft | halt | pushOperand
  | popOperand => rfl

end Request

namespace Desk.Sees

variable {d d' : Desk} {limit : Nat} {r : Request}

/-- A job is carried out on both sides. -/
theorem perform_job (hsees : Sees ρ d d') (hd : d.Sound) (hd' : d'.Sound) {j : Job}
    (hj : r.job? limit = some j) :
    Mirrors ρ (r.perform limit d) ((r.rename ρ).perform limit d') := by
  have hj' : (r.rename ρ).job? limit = some (j.rename ρ) := by
    rw [Request.job?_rename, hj]
    rfl
  rw [Request.perform_job hj hd, Request.perform_job hj' hd']
  unfold carryOut Job.rename
  dsimp only
  rw [hsees.check_eq, hsees.pricing_eq, hsees.operands_eq]
  cases hcheck : d.check j.operation j.handle with
  | error e => exact .error e hsees
  | ok p =>
    dsimp only [Except.mapError]
    rcases hwork : j.work d.registry.pricing d.session.operands p with e | ⟨reply, _ | p'⟩
    · exact .error e hsees.settle
    · have hmirrors : Mirrors ρ (.ok reply d.settle) (.ok (reply.rename ρ) d'.settle) :=
        .ok reply hsees.settle
      rw [Reply.rename_of_issued? (Request.issued?_of_work hj hwork)] at hmirrors
      exact hmirrors
    · have howned := (check_eq_ok hcheck).2.1
      have hmirrors : Mirrors ρ (.ok reply (d.update j.handle p').settle)
          (.ok (reply.rename ρ) (d'.update (ρ j.handle) p').settle) :=
        .ok reply (hsees.update howned p').settle
      rw [Reply.rename_of_issued? (Request.issued?_of_work hj hwork)] at hmirrors
      exact hmirrors

/-- What is refused once the session is halted, is refused on both sides. -/
theorem whenOpen (hsees : Sees ρ d d') (operation : Operation)
    {x x' : EStateM.Result SessionError Desk Reply} (hx : Mirrors ρ x x') :
    Mirrors ρ
      (if d.session.phase = .halted then .error (.notAllowed operation d.session.phase) d else x)
      (if d'.session.phase = .halted then .error (.notAllowed operation d'.session.phase) d'
        else x') := by
  rw [hsees.phase_eq]
  by_cases hphase : d.session.phase = .halted
  · rw [if_pos hphase, if_pos hphase]
    exact .error (.notAllowed operation _) hsees
  · rw [if_neg hphase, if_neg hphase]
    exact hx

/-- **A request under other names** has the same result under other names, if the handle that it may
hand out has the right name. A link that fails because the handles are used up is none of them: the
other registry may have some left. -/
theorem perform (hsees : Sees ρ d d') (hd : d.Sound) (hd' : d'.Sound)
    (hroom : d.registry.HasRoom → d'.registry.HasRoom)
    (hlinked : (r.serve limit d).1 ≠ .error (.link .handlesExhausted))
    (hissued : ∀ k, issued? (r.serve limit d).1 = some k →
      ρ k = ⟨d'.registry.next⟩ ∧ ∀ h, ρ h = ρ k → h = k) :
    Mirrors ρ (r.perform limit d) ((r.rename ρ).perform limit d') := by
  cases r with
  | link digest =>
    unfold Request.serve at hissued hlinked
    rw [Request.perform_link] at hissued hlinked
    rw [Request.rename, Request.perform_link, Request.perform_link, hsees.produce_eq]
    by_cases hphase : d.session.phase = .halted
    · rw [hsees.phase_eq, if_pos hphase, if_pos hphase]
      exact .error (.notAllowed .link _) hsees
    rw [if_neg hphase] at hissued hlinked
    refine hsees.whenOpen .link ?_
    cases hproduce : d.registry.produce digest with
    | error e => exact .error (.link e) hsees
    | ok p =>
      rw [hproduce] at hissued hlinked
      dsimp only at hissued hlinked ⊢
      by_cases hleft : d.registry.HasRoom
      · rw [if_pos hleft] at hissued
        obtain ⟨hnext, hdistinct⟩ := hissued ⟨d.registry.next⟩ rfl
        rw [if_pos hleft, if_pos (hroom hleft), ← hnext]
        exact .ok (.linked ⟨d.registry.next⟩) (hsees.adopt hd hd' p hnext hdistinct)
      · rw [if_neg hleft] at hlinked
        exact absurd rfl hlinked
  | unlink h =>
    rw [Request.rename, Request.perform_unlink, Request.perform_unlink, hsees.check_eq]
    cases hcheck : d.check .unlink h with
    | error e => exact .error e hsees
    | ok p => exact .ok .done (hsees.abandon (check_eq_ok hcheck).2.1)
  | halt =>
    rw [Request.rename, Request.perform_halt, Request.perform_halt]
    refine hsees.whenOpen .halt ?_
    rw [hsees.phase_eq, hsees.owned_eq, List.length_map]
    cases d.session.phase with
    | unlinked => exact .ok .done ((hsees.setPhase .halted).setOperands .empty)
    | linked | configured => exact .error (.stillLinked _) hsees
    | idle | invoking | halted => exact .error (.notAllowed .halt _) hsees
  | pushOperand v =>
    rw [Request.rename, Request.perform_pushOperand, Request.perform_pushOperand,
      hsees.operands_eq]
    exact hsees.whenOpen .pushOperand (.ok .done (hsees.setOperands _))
  | popOperand =>
    rw [Request.rename, Request.perform_popOperand, Request.perform_popOperand, hsees.operands_eq]
    refine hsees.whenOpen .popOperand ?_
    rcases d.session.operands.pop? with _ | ⟨v, operands⟩
    · exact .ok (.operand none) hsees
    · exact .ok (.operand (some v)) (hsees.setOperands operands)
  | setInk | setDepth | inkLeft | inkStatus | depthLeft | callEntry | runStart =>
    exact hsees.perform_job hd hd' rfl

/-- **A request under other names** is answered with the same answer under other names, and the
desks stay the same under other names. -/
theorem serve (hsees : Sees ρ d d') (hd : d.Sound) (hd' : d'.Sound)
    (hroom : d.registry.HasRoom → d'.registry.HasRoom)
    (hlinked : (r.serve limit d).1 ≠ .error (.link .handlesExhausted))
    (hissued : ∀ k, issued? (r.serve limit d).1 = some k →
      ρ k = ⟨d'.registry.next⟩ ∧ ∀ h, ρ h = ρ k → h = k) :
    ((r.rename ρ).serve limit d').1 = renameAnswer ρ (r.serve limit d).1 ∧
      Sees ρ (r.serve limit d).2 ((r.rename ρ).serve limit d').2 := by
  have hmirrors := hsees.perform hd hd' hroom hlinked hissued
  unfold Request.serve
  revert hmirrors
  generalize r.perform limit d = x
  generalize (r.rename ρ).perform limit d' = x'
  rintro (⟨reply, hleft⟩ | ⟨e, hleft⟩)
  · exact ⟨rfl, hleft⟩
  · exact ⟨rfl, hleft⟩

end Desk.Sees

end MeteredSandbox
