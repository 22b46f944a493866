import MeteredSandbox.Proofs.Compiled
import MeteredSandbox.Proofs.Placing

/-!
# Flat and structured control agree

The flat code of a sequence and the sequence mean the same. A sequence is flattened correctly
(`Machine.Flattens`) if running its flat code, wherever it stands in a body, is evaluating it and
then resuming; and every sequence is (`Machine.flattens`).

One turn of the machine at a placed state is one turn of the evaluation (`Machine.takeTurns_spend`).
Each construct adds a label, and ends by taking it away: `Machine.close_alike` is where a branch to
the label and the mark at the end of the construct lead to the same place. A function has no label
of its own, and ends by returning (`Machine.activation_alike`).
-/

namespace MeteredSandbox

variable {σ α β : Type}

/-! ### Code at a position -/

/-- The instructions stand in the code from the position on. -/
def Spells (code : Array Instr) (position : Nat) (instrs : List Instr) : Prop :=
  instrs <+: code.toList.drop position

namespace Spells

variable {code : Array Instr} {p : Nat} {i : Instr} {is js : List Instr}

theorem head (h : Spells code p (i :: is)) : code[p]? = some i := by
  obtain ⟨after, hafter⟩ := h
  rw [← Array.getElem?_toList, ← List.head?_drop, ← hafter]
  rfl

theorem tail (h : Spells code p (i :: is)) : Spells code (p + 1) is := by
  obtain ⟨after, hafter⟩ := h
  refine ⟨after, ?_⟩
  rw [← List.drop_drop, ← hafter]
  rfl

theorem left (h : Spells code p (is ++ js)) : Spells code p is :=
  (List.prefix_append is js).trans h

theorem right (h : Spells code p (is ++ js)) : Spells code (p + is.length) js := by
  obtain ⟨after, hafter⟩ := h
  refine ⟨after, ?_⟩
  rw [← List.drop_drop, ← hafter, List.append_assoc, List.drop_left]

end Spells

namespace Machine

open Exec

variable (s : Setting σ)

/-! ### Turns of placed machines -/

section Placed

variable {p q : Nat} {L : List Label} {below fs : List Frame} {m : Machine σ} {f : Frame}
  {body : FuncBody}

/-- Taking a turn changes no frame. -/
theorem spend_frames {cost turns : Nat} {left : { left : Nat // left < turns }} {m' : Machine σ}
    (h : spend s cost turns m = .ok left m') : m'.frames = m.frames :=
  (spend_keeps (I := fun m' : Machine σ => m'.frames = m.frames) (E := fun _ => True)
    (fun _ _ h => h) trivial (fun _ _ _ _ => trivial) turns).of_ok rfl h

/-- **One turn** of a placed machine takes a turn of the evaluation and carries out the instruction
at the position, with the position moved on. -/
theorem takeTurns_spend (h : m.frames.items = f :: fs)
    (hbelow : below.map Frame.bare = fs.map Frame.bare) (hbody : s.program.body? f.func = some body)
    {i : Instr} (hcode : body.code[p]? = some i) (turns : Nat) :
    Alike (takeTurns s turns (m.place p L below))
      (resume (spend s (s.pricing.cost i) turns m) fun left m' =>
        (step s i >>= fun _ => takeTurns s left) (m'.place (p + 1) L below)) := by
  have hitems : (m.place p L below).frames.items = f.placed p L :: below := place_items h
  cases turns with
  | zero =>
    rw [takeTurns_zero s hitems]
    exact .error (bare_place h hbelow)
  | succ turns =>
    have hnext : nextInstr? s (m.place p L below) = some i := by
      unfold nextInstr?
      rw [place_top? h]
      change (s.program.body? f.func).bind _ = _
      rw [hbody]
      exact hcode
    have hadvance : (m.place p L below).advance = m.place (p + 1) L below := by
      rw [place_eq h, place_eq h]
      rfl
    have hcharge : onAccount (s.checkpoint.charge (s.pricing.cost i)) (m.place (p + 1) L below)
        = mapState (place (p + 1) L below) (onAccount (s.checkpoint.charge (s.pricing.cost i)) m) :=
      onAccount_follows (Reading.placed (p + 1) L below) (.refl _) m
    have hkeeps : Keeps (fun m' : Machine σ => m'.frames = m.frames) (fun _ => True)
        (onAccount (s.checkpoint.charge (s.pricing.cost i))) :=
      onAccount_keeps (fun _ _ h => h) fun _ _ _ _ => trivial
    have hframes := hkeeps m rfl
    -- the position is moved on before the price is paid, so a refusal finds it moved
    rw [takeTurns_succ s hitems, bind_apply, turn_of_next s hnext, hadvance]
    unfold perform spend
    rw [← bind_apply, bind_assoc, resume_bind]
    cases hr : onAccount (s.checkpoint.charge (s.pricing.cost i)) m with
    | ok x m' =>
      rw [hr] at hcharge
      rw [bind_of_ok hcharge]
      exact .refl _
    | error e m' =>
      rw [hr] at hcharge hframes
      rw [bind_of_error hcharge]
      have hitems' : m'.frames.items = f :: fs := by rw [hframes.1, h]
      exact .error (bare_place hitems' hbelow)

/-- An action that the placed machine follows, and what comes after it. -/
theorem Alike.of_follows {I : Machine σ → Prop}
    (hI : ∀ m', I m' → (m'.place p L below).bare = m'.bare) {a b : Exec σ α}
    (hfollows : b (m.place p L below) = mapState (place p L below) (a m))
    (hkeeps : Keeps I (fun _ => True) a) (h : I m) {k : α → Exec σ β}
    {K : α → Machine σ → EStateM.Result Stop (Machine σ) β}
    (hk : ∀ x m', I m' → Alike (k x (m'.place p L below)) (K x m')) :
    Alike ((b >>= k) (m.place p L below)) (MeteredSandbox.resume (a m) K) := by
  have hm := hkeeps m h
  rw [bind_apply, hfollows]
  cases hr : a m with
  | ok x m' =>
    rw [hr] at hm
    exact hk x m' hm
  | error e m' =>
    rw [hr] at hm
    exact .error (hI m' hm.1)

end Placed

/-! ### The ends of constructs -/

/-- With one result at most, keeping the results is carrying it. -/
theorem keepResults_eq {arity : Nat} (h : arity ≤ 1) (height : Nat) :
    (keepResults arity height : Exec σ Unit) = carry arity height := by
  cases arity with
  | zero => rfl
  | succ n =>
    cases n with
    | zero =>
      -- one result, which is taken and put back
      unfold keepResults carry popMany popMany
      rw [if_neg Nat.one_ne_zero, bind_assoc]
      exact bind_congr fun v => rfl
    | succ n => omega

section Placed

variable {p q : Nat} {L : List Label} {below fs : List Frame} {m : Machine σ} {f : Frame}
  {body : FuncBody}

/-- The mark at the end of a construct takes its label away. -/
theorem step_endMark_cons (h : m.frames.items = f :: fs) (label : Label) :
    step s .endMark (m.place p (label :: L) below) = .ok () (m.place p L below) := by
  change (frame >>= _) (m.place p (label :: L) below) = _
  rw [bind_of_ok (frame_place h)]
  exact modifyFrame_place h rfl

/-- The mark at the end of a body returns. -/
theorem step_endMark_nil (h : m.frames.items = f :: fs) :
    step s .endMark (m.place p [] below) = returnFromFrame s (m.place p [] below) := by
  change (frame >>= _) (m.place p [] below) = _
  rw [bind_of_ok (frame_place h)]
  rfl

/-- **The end of a block or conditional.** Reaching the mark at `q` and branching to the label both
lead behind the mark, and all other branches lead further out. -/
theorem close_alike (h : m.frames.items = f :: fs)
    (hbelow : below.map Frame.bare = fs.map Frame.bare) (hbody : s.program.body? f.func = some body)
    (hcode : body.code[q]? = some .endMark) {arity : Nat} (harity : arity ≤ 1) (height : Nat)
    (exit : Exit) (turns : Nat) :
    Alike (resumption s q ({ arity, height, target := q + 1 } :: L) below exit turns m)
      (resume (close s arity height turns exit m) (continuing (resumption s (q + 1) L below))) := by
  cases exit with
  | done =>
    -- the mark is the next instruction
    refine (takeTurns_spend s h hbelow hbody hcode turns).trans ?_
    unfold close passMark
    dsimp only
    rw [resume_bind]
    refine .resume fun left m' hspend => ?_
    have hitems : m'.frames.items = f :: fs := by rw [spend_frames s hspend, h]
    rw [bind_of_ok (step_endMark_cons s hitems _)]
    exact .refl _
  | ret => exact .of_eq (resumption_ret s h _ _ _ _ turns)
  | leave depth =>
    cases depth with
    | zero =>
      -- the label is the first one, and its target is behind the mark
      refine (branch_place s h hbelow rfl _).trans ?_
      unfold close
      dsimp only
      rw [resume_bind, keepResults_eq harity]
      exact .refl _
    | succ depth =>
      have hout : Alike (resumption s q ({ arity, height, target := q + 1 } :: L) below
          (.leave (depth + 1)) turns m) (resumption s (q + 1) L below (.leave depth) turns m) :=
        resumption_leave_succ s h hbelow q (q + 1) _ L depth turns
      exact hout

/-- A block or conditional around an evaluation, given that what is inside ends where the mark is.
-/
theorem scope_alike (hbelow : below.map Frame.bare = fs.map Frame.bare)
    (hbody : s.program.body? f.func = some body) (hcode : body.code[q]? = some .endMark)
    {arity : Nat} (harity : arity ≤ 1) {turns : Nat} {inside : Exec σ (Exit × Left turns)}
    (hinside : ∀ r m', inside m = .ok r m' → m'.Inside f fs fun _ => True)
    {flat : EStateM.Result Stop (Machine σ) Unit}
    (hflat : Alike flat (resume (inside m) (continuing
      (resumption s q ({ arity, height := m.operands.height, target := q + 1 } :: L) below)))) :
    Alike flat (resume (scope s arity inside m) (continuing (resumption s (q + 1) L below))) := by
  refine hflat.trans ?_
  change Alike _ (resume ((inside >>= fun r => within r.2.2
    (close s arity m.operands.height r.2 r.1)) m) _)
  rw [resume_bind]
  refine .resume fun r m' hr => ?_
  obtain ⟨locals, hitems⟩ := (hinside r m' hr).frames
  rw [resume_within]
  exact close_alike s hitems hbelow hbody hcode harity m.operands.height r.1 r.2

/-- One evaluation and then another, given that the first ends where the second begins. -/
theorem sequel_alike (hbelow : below.map Frame.bare = fs.map Frame.bare) {turns : Nat}
    {first : Exec σ (Exit × Left turns)}
    {next : (left : Left turns) → Exec σ (Exit × Left left)}
    (hfirst : ∀ r m', first m = .ok r m' → m'.Inside f fs fun _ => True)
    {flat : EStateM.Result Stop (Machine σ) Unit}
    (hflat : Alike flat (resume (first m) (continuing (resumption s p L below))))
    (hnext : ∀ (u : Left turns) m', m'.Inside f fs (fun _ => True) →
      Alike (takeTurns s u (m'.place p L below))
        (resume (next u m') (continuing (resumption s q L below)))) :
    Alike flat (resume (sequel first next m) (continuing (resumption s q L below))) := by
  refine hflat.trans ?_
  unfold sequel
  rw [resume_bind]
  -- the second evaluation begins only if the first came to its end
  refine .resume fun r m' hr => ?_
  have hm := hfirst r m' hr
  obtain ⟨locals, hitems⟩ := hm.frames
  obtain ⟨exit, u⟩ := r
  cases exit with
  | done =>
    dsimp only
    rw [resume_within]
    exact hnext u m' hm
  | leave depth => exact resumption_of_ne_done s hitems hbelow p q L Exit.noConfusion u
  | ret => exact resumption_of_ne_done s hitems hbelow p q L Exit.noConfusion u

end Placed

/-! ### Instructions without structure -/

section Placed

variable {p q : Nat} {L : List Label} {below fs : List Frame} {m : Machine σ} {f : Frame}

theorem Inside.bare_place (hm : m.Inside f fs fun _ => True)
    (hbelow : below.map Frame.bare = fs.map Frame.bare) : (m.place p L below).bare = m.bare := by
  obtain ⟨locals, hitems⟩ := hm.frames
  exact Machine.bare_place hitems hbelow

/-- What is taken first from the operands is the same for the placed machine. -/
theorem popI32_alike (hm : m.Inside f fs fun _ => True)
    (hbelow : below.map Frame.bare = fs.map Frame.bare) {k : BitVec 32 → Exec σ β}
    {K : BitVec 32 → Machine σ → EStateM.Result Stop (Machine σ) β}
    (hk : ∀ v m', m'.Inside f fs (fun _ => True) → Alike (k v (m'.place p L below)) (K v m')) :
    Alike ((popI32 (floor s (m.place p L below)) >>= k) (m.place p L below))
      (MeteredSandbox.resume (popI32 (floor s m) m) K) := by
  have hpop : popI32 (floor s (m.place p L below)) (m.place p L below)
      = mapState (place p L below) (popI32 (floor s m) m) := by
    rw [floor_place]
    exact popI32_follows (Reading.placed p L below) (floor s m) m
  exact Alike.of_follows (fun _ h => h.bare_place hbelow) hpop
    (popI32_keeps (inside_steady s.safe_true f fs).toIndifferent _) hm hk

/-- How the machine goes on after an instruction without structure, at the position behind it. -/
def onward (position : Nat) (labels : List Label) (below : List Frame) (turns : Nat) :
    Effect → Machine σ → EStateM.Result Stop (Machine σ) Unit
  | .next, m => takeTurns s turns (m.place position labels below)
  | .leave depth, m => resumption s position labels below (.leave depth) turns m
  | .ret, m => resumption s position labels below .ret turns m
  | .call func, m =>
    (call s func >>= fun _ => takeTurns s turns) (m.place position labels below)

/-- A plain instruction does the same, and the next one comes after it. -/
theorem stepOp_alike (hm : m.Inside f fs fun _ => True)
    (hbelow : below.map Frame.bare = fs.map Frame.bare) {o : Op} (h : o.IsPlain) (turns : Nat) :
    Alike ((stepOp s (floor s (m.place p L below)) o >>= fun _ => takeTurns s turns)
        (m.place p L below))
      (resume ((stepOp s (floor s m) o >>= fun _ => Pure.pure Effect.next) m)
        (onward s p L below turns)) := by
  have hstep : stepOp s (floor s (m.place p L below)) o (m.place p L below)
      = mapState (place p L below) (stepOp s (floor s m) o m) := by
    rw [floor_place]
    exact stepOp_follows (Reading.placed p L below) s s (floor s m) h m
  have hkeeps := stepOp_keeps (inside_steady s.safe_true f fs) s (floor s m) h
    (.of_trap (fun _ => trivial) o)
  rw [resume_bind]
  exact Alike.of_follows (fun _ h => h.bare_place hbelow) hstep hkeeps hm fun _ _ _ => .refl _

/-- An instruction without structure comes to the same for the placed machine, which goes on with
the branch, return or call that it may be. -/
theorem effect_alike (hm : m.Inside f fs fun _ => True)
    (hbelow : below.map Frame.bare = fs.map Frame.bare) (o : Op) (turns : Nat) :
    Alike ((step s (.op o) >>= fun _ => takeTurns s turns) (m.place p L below))
      (resume (effect s o m) (onward s p L below turns)) := by
  change Alike ((stepOp s (floor s (m.place p L below)) o >>= fun _ => takeTurns s turns)
    (m.place p L below)) _
  cases o with
  | br depth => exact .refl _
  | ret => exact .refl _
  | call func => exact .refl _
  | brIf depth =>
    change Alike (((popI32 _ >>= fun condition =>
      if condition ≠ 0 then branch s depth else Pure.pure ()) >>= fun _ => takeTurns s turns)
        (m.place p L below)) (resume ((popI32 (floor s m) >>= _) m) _)
    rw [bind_assoc, resume_bind]
    refine popI32_alike s hm hbelow fun condition m' hm' => ?_
    by_cases hcondition : condition ≠ 0
    · rw [if_pos hcondition, if_pos hcondition]
      exact .refl _
    · rw [if_neg hcondition, if_neg hcondition]
      exact .refl _
  | brTable depths default =>
    change Alike (((popI32 _ >>= fun i => branch s (depths[i.toNat]?.getD default)) >>= fun _ =>
      takeTurns s turns) (m.place p L below)) (resume ((popI32 (floor s m) >>= _) m) _)
    rw [bind_assoc, resume_bind]
    exact popI32_alike s hm hbelow fun i m' hm' => .refl _
  | callIndirect type =>
    change Alike (((popI32 _ >>= fun slot => callIndirect s type slot.toNat) >>= fun _ =>
      takeTurns s turns) (m.place p L below)) (resume ((popI32 (floor s m) >>= _) m) _)
    rw [bind_assoc, resume_bind]
    refine popI32_alike s hm hbelow fun slot m' hm' => ?_
    -- the function is found in the table of the store, which is the same
    rw [callIndirect_eq, bind_assoc, resume_bind]
    exact Alike.of_follows (fun _ h => h.bare_place hbelow)
      (resolve_follows s (Reading.placed p L below) s rfl type slot.toNat m')
      (resolve_keeps s (fun _ _ => trivial) type slot.toNat) hm' fun func m'' _ => .refl _
  | _ =>
    refine stepOp_alike s hm hbelow ?_ turns
    exact trivial

/-! ### Calls -/

theorem ask_place (body : FuncBody) :
    Follows (place (σ := σ) p L below) (ask s body) (ask s body) := by
  have hquestion : ∀ question : EStateM Trap σ Unit,
      Follows (place (σ := σ) p L below) (onAccount question) (onAccount question) :=
    fun _ => onAccount_follows (Reading.placed p L below) (.refl _)
  exact .ite ((hquestion _).bind fun _ => hquestion _) (hquestion _)

/-- The frame of a call from the placed machine lies on top of the placed one. -/
theorem openFrame_place (h : m.frames.items = f :: fs) (func : Nat) (type : FuncType)
    (body : FuncBody) (args : List Value) :
    openFrame func type body args (m.place p L below)
      = (openFrame func type body args m).place 0 [] (f.placed p L :: below) := by
  have hopen : (openFrame func type body args m).frames.items
      = newFrame func type body args m.operands.height :: f :: fs := by
    rw [← h]
    rfl
  have hpush : (m.place p L below).frames.push (newFrame func type body args m.operands.height)
      = .ofItems (newFrame func type body args m.operands.height :: f.placed p L :: below) := by
    apply Stack.ext
    rw [Stack.items_push, place_items h, Stack.items_ofItems]
  rw [place_eq hopen]
  exact Machine.ext rfl (Stack.empty_beneath m.operands) hpush rfl rfl

/-- A call from the placed machine opens the same frame, if it opens one. -/
theorem enter_alike (h : m.frames.items = f :: fs)
    (hbelow : below.map Frame.bare = fs.map Frame.bare)
    (hbodies : ∀ func body, s.program.body? func = some body →
      ∃ tree, s.program.tree? func = some tree) (func turns : Nat) :
    Alike ((call s func >>= fun _ => takeTurns s turns) (m.place p L below))
      (resume (enter s func m) fun
        | none, m' => takeTurns s turns (m'.place p L below)
        | some _, m' => takeTurns s turns (m'.place 0 [] (f.placed p L :: below))) := by
  have hbare : ∀ m' : Machine σ, m'.frames.items = f :: fs →
      (m'.place p L below).bare = m'.bare := fun m' h' => bare_place h' hbelow
  have hi : Indifferent (fun m' : Machine σ => m'.frames.items = f :: fs) fun _ => True :=
    { ordinary := fun _ _ => trivial, operands := fun _ _ h => h }
  unfold enter
  cases htype : s.program.funcType? func with
  | none =>
    rw [call_of_none s htype]
    exact .error (hbare m h)
  | some type =>
    dsimp only
    by_cases hfunc : func < s.program.imported
    · rw [call_of_host s htype hfunc, if_pos hfunc, resume_bind]
      refine Alike.of_follows hbare ?_ (callHost_keeps s hi (fun _ => trivial)
        (fun _ _ _ _ _ => trivial) (fun _ _ _ _ _ => trivial) type) h fun _ _ _ => .refl _
      exact callHost_follows s (Reading.placed p L below) s (floor_place s) rfl func type
    · rw [if_neg hfunc]
      cases hbody : s.program.body? func with
      | none =>
        rw [call_of_no_body s htype hfunc hbody]
        exact .error (hbare m h)
      | some body =>
        obtain ⟨tree, htree⟩ := hbodies func body hbody
        -- the caps count frames, and as many lie below the placed one
        have hheight : (m.place p L below).frames.height = m.frames.height := by
          have hlength := congrArg List.length hbelow
          rw [List.length_map, List.length_map] at hlength
          rw [Stack.height_eq, Stack.height_eq, place_items h, h, List.length_cons,
            List.length_cons, hlength]
        rw [call_of_body s htype hfunc hbody, htree]
        dsimp only
        rw [callGuest_eq, bind_assoc, bind_assoc, resume_bind]
        refine Alike.of_follows hbare ?_ (grant_keeps s hi (fun _ _ h => h)
          (fun _ _ _ _ _ => trivial) (fun _ _ _ _ => trivial) type body) h fun args m' h' => ?_
        · exact grant_follows s (Reading.placed p L below) s (floor_place s) (ask_place s) hheight
            type body
        · -- the new frame is at its beginning, which is where it is placed
          have hopen : openFrame func type body args (m'.place p L below)
              = (openFrame func type body args m').place 0 [] (f.placed p L :: below) :=
            openFrame_place h' func type body args
          change Alike (takeTurns s turns (openFrame func type body args (m'.place p L below))) _
          rw [hopen]
          exact .refl _

/-! ### Sequences -/

/-- A sequence is **flattened correctly** if running its flat form, wherever it stands in the body
of the current function, is evaluating it and then resuming. -/
def Flattens (turns : Nat) (seq : Seq) : Prop :=
  ∀ ⦃p : Nat⦄ ⦃L : List Label⦄ ⦃below fs : List Frame⦄ ⦃m : Machine σ⦄ ⦃f : Frame⦄
    ⦃body : FuncBody⦄, m.frames.items = f :: fs → below.map Frame.bare = fs.map Frame.bare →
    s.program.body? f.func = some body → Spells body.code p (seq.layout p) →
    Alike (takeTurns s turns (m.place p L below))
      (resume (evaluate s turns seq m) (continuing (resumption s (p + seq.size) L below)))

variable {s} {body : FuncBody}

/-- The same with the frame known up to its locals. -/
theorem Flattens.inside {turns : Nat} {seq : Seq} (hseq : Flattens s turns seq)
    (hbelow : below.map Frame.bare = fs.map Frame.bare)
    (hbody : s.program.body? f.func = some body) (hcode : Spells body.code p (seq.layout p))
    {m : Machine σ} (hm : m.Inside f fs fun _ => True) :
    Alike (takeTurns s turns (m.place p L below))
      (resume (evaluate s turns seq m) (continuing (resumption s (p + seq.size) L below))) := by
  obtain ⟨locals, hitems⟩ := hm.frames
  exact hseq hitems hbelow hbody hcode

/-- An evaluation ends in the frame that it started in. -/
theorem evaluate_inside (turns : Nat) (seq : Seq) :
    Leads (Inside f fs fun _ => True) (fun _ => True) (evaluate s turns seq) fun _ =>
      Inside f fs fun _ => True :=
  evaluate_leads s.safe_true turns seq (seq.all_of_forall fun o => o.safe_true s) f fs

/-- **A function** around the evaluation of its body: its end and a branch out of all of its
constructs return, to the frames below. -/
theorem activation_alike (h : m.frames.items = f :: fs)
    (hbelow : below.map Frame.bare = fs.map Frame.bare)
    (hbody : s.program.body? f.func = some body) {tree : Seq}
    (hcode : body.code = tree.code.toArray) {turns : Nat} (htree : Flattens s turns tree) :
    Alike (takeTurns s turns (m.place 0 [] below))
      (resume (activation s (evaluate s turns tree) m) fun u m' =>
        takeTurns s u (m'.withFrames below)) := by
  -- the body is the sequence and then the mark that returns
  have hspells : Spells body.code 0 (tree.layout 0 ++ [.endMark]) := by
    rw [hcode, Seq.code_eq]
    exact List.prefix_rfl
  have hmark : body.code[0 + tree.size]? = some .endMark := by
    have hright := hspells.right.head
    rw [Seq.length_layout] at hright
    exact hright
  refine (htree h hbelow hbody hspells.left).trans ?_
  unfold activation
  rw [resume_bind]
  refine .resume fun r m' hr => ?_
  obtain ⟨locals, hitems⟩ := ((evaluate_inside turns tree).of_ok ⟨⟨f.locals, h⟩, trivial⟩ hr).frames
  obtain ⟨exit, u⟩ := r
  dsimp only
  rw [resume_bind]
  have hret : Alike (resumption s (0 + tree.size) [] below .ret u m')
      (resume (returnFromFrame s m') fun _ m'' => takeTurns s u (m''.withFrames below)) :=
    returnFromFrame_alike s hitems hbelow _
  -- the end of the body, a return, and a branch out of all constructs return alike
  cases exit with
  | done =>
    refine (takeTurns_spend s hitems hbelow hbody hmark u).trans ?_
    unfold conclude
    dsimp only
    rw [resume_bind]
    refine .resume fun v m₁ hspend => ?_
    have hitems₁ : m₁.frames.items = { f with locals } :: fs := by
      rw [spend_frames s hspend, hitems]
    rw [bind_apply, step_endMark_nil s hitems₁, ← bind_apply, resume_bind]
    exact returnFromFrame_alike s hitems₁ hbelow _
  | ret =>
    unfold conclude
    dsimp only
    rw [resume_bind]
    exact hret
  | leave depth =>
    cases depth with
    | zero =>
      unfold conclude
      dsimp only
      rw [resume_bind]
      refine Alike.trans (.of_eq ?_) hret
      exact resumption_leave_length s hitems rfl u
    | succ depth => exact resumption_leave_gt s hitems hbelow (Nat.succ_pos depth) u

end Placed

/-! ### Flattened sequences -/

/-- A setting is **flat** if the bodies of its program are the flat forms of their trees. -/
structure Flat (s : Setting σ) : Prop where
  tree : ∀ func body, s.program.body? func = some body →
    ∃ tree, s.program.tree? func = some tree ∧ body.code = tree.code.toArray ∧ tree.Narrow
  body : ∀ func tree, s.program.tree? func = some tree →
    ∃ body, s.program.body? func = some body

theorem Flat.body_of_tree {s : Setting σ} (hs : Flat s) {func : Nat} {tree : Seq}
    (htree : s.program.tree? func = some tree) :
    ∃ body, s.program.body? func = some body ∧ body.code = tree.code.toArray ∧ tree.Narrow := by
  obtain ⟨body, hbody⟩ := hs.body func tree htree
  obtain ⟨tree', htree', hcode⟩ := hs.tree func body hbody
  rw [htree] at htree'
  cases htree'
  exact ⟨body, hbody, hcode⟩

section Constructs

variable {s} {p q : Nat} {L : List Label} {below fs : List Frame} {m : Machine σ} {f : Frame}
  {body : FuncBody} {turns : Nat}

/-- The turn at the head of a sequence, and the evaluation that comes after it. -/
theorem takeTurns_within (h : m.frames.items = f :: fs)
    (hbelow : below.map Frame.bare = fs.map Frame.bare)
    (hbody : s.program.body? f.func = some body) {i : Instr} (hcode : body.code[p]? = some i)
    {next : (t : { t : Nat // t < turns }) → Exec σ (Exit × Left t)}
    {R : Exit → Nat → Machine σ → EStateM.Result Stop (Machine σ) Unit}
    (hnext : ∀ (t : { t : Nat // t < turns }) m', m'.frames.items = f :: fs →
      Alike ((step s i >>= fun _ => takeTurns s t) (m'.place (p + 1) L below))
        (resume (next t m') (continuing R))) :
    Alike (takeTurns s turns (m.place p L below))
      (resume ((spend s (s.pricing.cost i) turns >>= fun t => within (Nat.le_of_lt t.2) (next t)) m)
        (continuing R)) := by
  refine (takeTurns_spend s h hbelow hbody hcode turns).trans ?_
  rw [resume_bind]
  refine .resume fun t m' hspend => ?_
  rw [resume_within]
  exact hnext t m' (by rw [spend_frames s hspend, h])

/-- With fewer turns, sequences are flattened correctly. -/
abbrev FlattensBelow (s : Setting σ) (turns : Nat) : Prop :=
  ∀ t < turns, ∀ seq : Seq, seq.Narrow → Flattens s t seq

/-- A block or conditional whose label has been entered, and what comes after it. -/
theorem construct_alike {arity : Nat} (harity : arity ≤ 1) {t : Nat} {rest : Seq}
    (hrest : ∀ u, u ≤ t → Flattens s u rest)
    (hbelow : below.map Frame.bare = fs.map Frame.bare)
    (hbody : s.program.body? f.func = some body)
    (hcode : Spells body.code q (.endMark :: rest.layout (q + 1)))
    {inside : Exec σ (Exit × Left t)} (hm : m.Inside f fs fun _ => True)
    (hinside : Leads (Inside f fs fun _ => True) (fun _ => True) inside fun _ =>
      Inside f fs fun _ => True)
    {flat : EStateM.Result Stop (Machine σ) Unit}
    (hflat : Alike flat (resume (inside m) (continuing
      (resumption s q ({ arity, height := m.operands.height, target := q + 1 } :: L) below)))) :
    Alike flat (resume (sequel (scope s arity inside) (fun u => evaluate s u rest) m)
      (continuing (resumption s (q + 1 + rest.size) L below))) := by
  refine sequel_alike s hbelow (fun r m' hr => (scope_leads s.safe_true arity hinside).of_ok hm hr)
    (scope_alike s hbelow hbody hcode.head harity (fun r m' hr => hinside.of_ok hm hr) hflat)
    fun u m' hm' => ?_
  exact Flattens.inside (hrest u.1 u.2) hbelow hbody hcode.tail hm'

/-! Each construct is flattened correctly if, with fewer turns, all sequences are. -/

/-- Instructions without structure, calls of functions of the program's own included. -/
theorem flattens_op (hs : Flat s) (ih : FlattensBelow s turns) (o : Op) {rest : Seq}
    (hrest : rest.Narrow) : Flattens s turns (.op o rest) := by
  intro p L below fs m f body h hbelow hbody hcode
  rw [Seq.layout] at hcode
  have hend : p + (Seq.op o rest).size = p + 1 + rest.size := by
    rw [Seq.size]
    omega
  rw [evaluate, hend]
  refine takeTurns_within h hbelow hbody hcode.head fun t m₁ h₁ => ?_
  have hm₁ : m₁.Inside f fs fun _ => True := ⟨⟨f.locals, h₁⟩, trivial⟩
  -- whatever the instruction is, if it goes on then with the rest of the sequence
  have hnext : ∀ u ≤ t.1, ∀ {m' : Machine σ}, m'.Inside f fs (fun _ => True) →
      Alike (takeTurns s u (m'.place (p + 1) L below))
        (resume (evaluate s u rest m') (continuing (resumption s (p + 1 + rest.size) L below))) :=
    fun u hu _ hm' => Flattens.inside (ih u (Nat.lt_of_le_of_lt hu t.2) rest hrest) hbelow hbody
      hcode.tail hm'
  refine (effect_alike s hm₁ hbelow o t).trans ?_
  rw [resume_bind]
  refine .resume fun e m₂ he => ?_
  have hm₂ : m₂.Inside f fs fun _ => True :=
    ((effect_leads s.safe_true (o.safe_true s)).of_ok hm₁ he).1
  obtain ⟨locals, h₂⟩ := hm₂.frames
  unfold onward
  cases e with
  | next => exact hnext t.1 (Nat.le_refl t.1) hm₂
  | leave depth => exact resumption_of_ne_done s h₂ hbelow _ _ L Exit.noConfusion t
  | ret => exact resumption_of_ne_done s h₂ hbelow _ _ L Exit.noConfusion t
  | call func =>
    dsimp only
    rw [resume_bind]
    have hbodies : ∀ func body, s.program.body? func = some body →
        ∃ tree, s.program.tree? func = some tree := fun func body hbody => by
      obtain ⟨tree, htree, -⟩ := hs.tree func body hbody
      exact ⟨tree, htree⟩
    refine (enter_alike s h₂ hbelow hbodies func t).trans (.resume fun r m₃ hr => ?_)
    have henter := (enter_leads s.safe_true ({ f with locals } :: fs) fun _ => trivial).of_ok
      ⟨h₂, trivial⟩ hr
    cases r with
    | none => exact hnext t.1 (Nat.le_refl t.1) ⟨⟨locals, henter.1⟩, trivial⟩
    | some tree =>
      obtain ⟨htree, g, hfunc, -, -, hm₃⟩ := henter
      obtain ⟨body', hbody', hcode', hnarrow⟩ := hs.body_of_tree htree
      obtain ⟨locals', h₃⟩ := hm₃.frames
      rw [← hfunc] at hbody'
      dsimp only
      rw [resume_bind]
      -- the placed caller below the callee is the caller up to its position
      have hcaller : (({ f with locals }).placed (p + 1) L :: below).map Frame.bare
          = ({ f with locals } :: fs).map Frame.bare := by
        rw [List.map_cons, List.map_cons, hbelow]
        rfl
      refine (activation_alike h₃ hcaller hbody' hcode' (ih t.1 t.2 tree hnarrow)).trans
        (.resume fun u m₄ hu => ?_)
      have h₄ := ((activation_leads s.safe_true (evaluate_inside t.1 tree)).of_ok hm₃ hu).1
      rw [resume_within, ← place_eq h₄]
      exact hnext u.1 u.2 ⟨⟨locals, h₄⟩, trivial⟩

/-- Blocks. -/
theorem flattens_block (ih : FlattensBelow s turns) {arity : Nat} {inner rest : Seq}
    (hnarrow : (Seq.block arity inner rest).Narrow) :
    Flattens s turns (.block arity inner rest) := by
  obtain ⟨harity, hinner, hrest⟩ := hnarrow
  intro p L below fs m f body h hbelow hbody hcode
  rw [Seq.layout] at hcode
  have hmark := hcode.tail.right
  have hend : p + (Seq.block arity inner rest).size = p + inner.size + 1 + 1 + rest.size := by
    rw [Seq.size]
    omega
  rw [Seq.length_layout, Nat.add_right_comm p 1] at hmark
  rw [evaluate, hend]
  refine takeTurns_within h hbelow hbody hcode.head fun t m₁ h₁ => ?_
  -- the label goes behind the mark
  have hstep : step s (.block arity (p + inner.size + 1)) (m₁.place (p + 1) L below) = .ok () _ :=
    pushLabel_place h₁ arity (p + inner.size + 1 + 1)
  rw [bind_of_ok hstep]
  refine construct_alike harity (fun u hu => ih u (Nat.lt_of_le_of_lt hu t.2) rest hrest) hbelow
    hbody hmark ⟨⟨f.locals, h₁⟩, trivial⟩ (evaluate_inside t.1 inner) ?_
  have hbegin := ih t.1 t.2 inner hinner h₁ hbelow hbody hcode.tail.left
    (L := ⟨arity, m₁.operands.height, p + inner.size + 1 + 1⟩ :: L)
  rw [Nat.add_right_comm p 1] at hbegin
  exact hbegin

/-- Loops. A branch to the loop starts it again, with fewer turns. -/
theorem flattens_loop (ih : FlattensBelow s turns) {inner rest : Seq}
    (hnarrow : (Seq.loop inner rest).Narrow) : Flattens s turns (.loop inner rest) := by
  intro p L below fs m f body h hbelow hbody hcode
  have hagain := hcode
  rw [Seq.layout] at hcode
  have hmark := hcode.tail.right
  rw [Seq.length_layout, Nat.add_right_comm p 1] at hmark
  have hend : p + (Seq.loop inner rest).size = p + inner.size + 1 + 1 + rest.size := by
    rw [Seq.size]
    omega
  rw [evaluate]
  refine takeTurns_within h hbelow hbody hcode.head fun t m₁ h₁ => ?_
  have hm₁ : m₁.Inside f fs fun _ => True := ⟨⟨f.locals, h₁⟩, trivial⟩
  -- the label goes back to the loop itself, and keeps nothing
  have hstep : step s .loop (m₁.place (p + 1) L below)
      = .ok () (m₁.place (p + 1) (⟨0, m₁.operands.height, p⟩ :: L) below) := by
    change (frame >>= _) (m₁.place (p + 1) L below) = _
    rw [bind_of_ok (frame_place h₁)]
    exact pushLabel_place h₁ 0 p
  rw [bind_of_ok hstep]
  change Alike _ (resume ((evaluate s t.1 inner >>= _) m₁) _)
  rw [resume_bind]
  have hbegin := ih t.1 t.2 inner hnarrow.1 h₁ hbelow hbody hcode.tail.left
    (L := ⟨0, m₁.operands.height, p⟩ :: L)
  rw [Nat.add_right_comm p 1] at hbegin
  refine hbegin.trans (.resume fun r m₂ hr => ?_)
  have hm₂ := (evaluate_inside t.1 inner).of_ok hm₁ hr
  obtain ⟨locals, h₂⟩ := hm₂.frames
  obtain ⟨exit, u⟩ := r
  have hu : u.1 < turns := Nat.lt_of_le_of_lt u.2 t.2
  rw [resume_within]
  cases exit with
  | done =>
    -- the mark takes the label away
    dsimp only
    rw [resume_bind]
    refine (takeTurns_spend s h₂ hbelow hbody hmark.head u.1).trans (.resume fun v m₃ hv => ?_)
    have h₃ : m₃.frames.items = { f with locals } :: fs := by rw [spend_frames s hv, h₂]
    rw [bind_of_ok (step_endMark_cons s h₃ _), resume_within, hend]
    exact Flattens.inside (ih v.1 (Nat.lt_trans v.2 hu) rest hnarrow.2) hbelow hbody hmark.tail
      ⟨⟨locals, h₃⟩, trivial⟩
  | ret => exact .of_eq (resumption_ret s h₂ _ _ _ _ u.1)
  | leave depth =>
    cases depth with
    | zero =>
      -- the machine is where the loop began, and the loop is evaluated again
      dsimp only
      rw [resume_bind]
      refine (branch_place s h₂ hbelow rfl _).trans (.resume fun x m₃ hx => ?_)
      have hm₃ := (truncate_keeps (inside_steady s.safe_true f fs).toIndifferent _).of_ok hm₂ hx
      exact Flattens.inside (ih u.1 hu (.loop inner rest) hnarrow) hbelow hbody hagain hm₃
    | succ depth => exact resumption_leave_succ s h₂ hbelow _ _ _ L depth u.1

/-- Conditionals without a second arm. -/
theorem flattens_ifThen (ih : FlattensBelow s turns) {arity : Nat} {thenArm rest : Seq}
    (hnarrow : (Seq.ifThen arity thenArm rest).Narrow) :
    Flattens s turns (.ifThen arity thenArm rest) := by
  obtain ⟨harity, hthen, hrest⟩ := hnarrow
  intro p L below fs m f body h hbelow hbody hcode
  rw [Seq.layout] at hcode
  have hmark := hcode.tail.right
  have hend : p + (Seq.ifThen arity thenArm rest).size = p + thenArm.size + 1 + 1 + rest.size := by
    rw [Seq.size]
    omega
  rw [Seq.length_layout, Nat.add_right_comm p 1] at hmark
  rw [evaluate, hend]
  refine takeTurns_within h hbelow hbody hcode.head fun t m₁ h₁ => ?_
  change Alike (((popI32 (floor s (m₁.place (p + 1) L below)) >>= fun condition =>
    if condition ≠ 0 then pushLabel arity (p + thenArm.size + 1 + 1)
    else jump (p + thenArm.size + 1 + 1)) >>= fun _ => takeTurns s t.1) (m₁.place (p + 1) L below))
      (resume ((popI32 (floor s m₁) >>= _) m₁) _)
  rw [bind_assoc, resume_bind]
  refine popI32_alike s ⟨⟨f.locals, h₁⟩, trivial⟩ hbelow fun condition m₂ hm₂ => ?_
  obtain ⟨locals, h₂⟩ := hm₂.frames
  by_cases hcondition : condition ≠ 0
  · rw [if_pos hcondition, if_pos hcondition, bind_of_ok (pushLabel_place h₂ arity _)]
    refine construct_alike harity (fun u hu => ih u (Nat.lt_of_le_of_lt hu t.2) rest hrest) hbelow
      hbody hmark hm₂ (evaluate_inside t.1 thenArm) ?_
    have hbegin := Flattens.inside (ih t.1 t.2 thenArm hthen) hbelow hbody hcode.tail.left hm₂
      (L := ⟨arity, m₂.operands.height, p + thenArm.size + 1 + 1⟩ :: L)
    rw [Nat.add_right_comm p 1] at hbegin
    exact hbegin
  · -- the arm is jumped over, with its mark
    rw [if_neg hcondition, if_neg hcondition, bind_of_ok (jump_place h₂ _)]
    exact Flattens.inside (ih t.1 t.2 rest hrest) hbelow hbody hmark.tail hm₂

/-- The end of a first arm jumps to the mark at the end of the second. -/
theorem passMark_alike (h : m.frames.items = f :: fs)
    (hbelow : below.map Frame.bare = fs.map Frame.bare) (hbody : s.program.body? f.func = some body)
    (hcode : body.code[p]? = some (.elseJump q)) (exit : Exit) (turns : Nat) :
    Alike (resumption s p L below exit turns m)
      (resume (passMark s turns exit m) (continuing (resumption s q L below))) := by
  cases exit with
  | done =>
    refine (takeTurns_spend s h hbelow hbody hcode turns).trans ?_
    unfold passMark
    rw [resume_bind]
    refine .resume fun left m' hspend => ?_
    have hitems : m'.frames.items = f :: fs := by rw [spend_frames s hspend, h]
    have hstep : step s (.elseJump q) (m'.place (p + 1) L below) = .ok () _ := jump_place hitems q
    rw [bind_of_ok hstep]
    exact .refl _
  | leave depth => exact resumption_of_ne_done s h hbelow p q L Exit.noConfusion turns
  | ret => exact resumption_of_ne_done s h hbelow p q L Exit.noConfusion turns

/-- Conditionals with two arms. -/
theorem flattens_ifElse (ih : FlattensBelow s turns) {arity : Nat} {thenArm elseArm rest : Seq}
    (hnarrow : (Seq.ifElse arity thenArm elseArm rest).Narrow) :
    Flattens s turns (.ifElse arity thenArm elseArm rest) := by
  obtain ⟨harity, hthen, helse, hrest⟩ := hnarrow
  intro p L below fs m f body h hbelow hbody hcode
  rw [Seq.layout] at hcode
  have hjump := hcode.tail.right
  rw [Seq.length_layout, Nat.add_right_comm p 1] at hjump
  have hmark := hjump.tail.right
  rw [Seq.length_layout, Nat.add_right_comm (p + thenArm.size + 1) 1] at hmark
  have hend : p + (Seq.ifElse arity thenArm elseArm rest).size
      = p + thenArm.size + 1 + elseArm.size + 1 + 1 + rest.size := by
    rw [Seq.size]
    omega
  rw [evaluate, hend]
  refine takeTurns_within h hbelow hbody hcode.head fun t m₁ h₁ => ?_
  change Alike (((popI32 (floor s (m₁.place (p + 1) L below)) >>= fun condition =>
    if condition ≠ 0 then pushLabel arity (p + thenArm.size + 1 + elseArm.size + 1 + 1)
    else do
      pushLabel arity (p + thenArm.size + 1 + elseArm.size + 1 + 1)
      jump (p + thenArm.size + 1 + 1)) >>= fun _ => takeTurns s t.1) (m₁.place (p + 1) L below))
      (resume ((popI32 (floor s m₁) >>= _) m₁) _)
  rw [bind_assoc, resume_bind]
  refine popI32_alike s ⟨⟨f.locals, h₁⟩, trivial⟩ hbelow fun condition m₂ hm₂ => ?_
  obtain ⟨locals, h₂⟩ := hm₂.frames
  have hafter : ∀ u ≤ t.1, Flattens s u rest :=
    fun u hu => ih u (Nat.lt_of_le_of_lt hu t.2) rest hrest
  by_cases hcondition : condition ≠ 0
  · -- the first arm ends with a jump over the second
    rw [if_pos hcondition, if_pos hcondition, bind_of_ok (pushLabel_place h₂ arity _)]
    refine construct_alike harity hafter hbelow hbody hmark hm₂ ((evaluate_inside t.1 thenArm).bind
      fun r => within_leads r.2.2 (passMark_leads s.safe_true r.2 r.1)) ?_
    rw [resume_bind]
    have hbegin := Flattens.inside (ih t.1 t.2 thenArm hthen) hbelow hbody hcode.tail.left hm₂
      (L := ⟨arity, m₂.operands.height, p + thenArm.size + 1 + elseArm.size + 1 + 1⟩ :: L)
    rw [Nat.add_right_comm p 1] at hbegin
    refine hbegin.trans (.resume fun r m₃ hr => ?_)
    obtain ⟨locals', h₃⟩ := ((evaluate_inside t.1 thenArm).of_ok hm₂ hr).frames
    rw [resume_within]
    exact passMark_alike h₃ hbelow hbody hjump.head r.1 r.2.1
  · -- the label is the same, and the first arm is jumped over
    rw [if_neg hcondition, if_neg hcondition, bind_assoc, bind_of_ok (pushLabel_place h₂ arity _),
      bind_of_ok (jump_place h₂ _)]
    refine construct_alike harity hafter hbelow hbody hmark hm₂ (evaluate_inside t.1 elseArm) ?_
    have hbegin := Flattens.inside (ih t.1 t.2 elseArm helse) hbelow hbody hjump.tail.left hm₂
      (L := ⟨arity, m₂.operands.height, p + thenArm.size + 1 + elseArm.size + 1 + 1⟩ :: L)
    rw [Nat.add_right_comm (p + thenArm.size + 1) 1] at hbegin
    exact hbegin

/-- **Every sequence is flattened correctly**, whatever its nesting. The induction is on the turns:
a restarted loop and the body of a called function are no smaller than what contains them, but they
have fewer turns. -/
theorem flattens (hs : Flat s) (turns : Nat) {seq : Seq} (hseq : seq.Narrow) :
    Flattens s turns seq := by
  induction turns using Nat.strongRecOn generalizing seq with
  | ind turns ih =>
    have ih : FlattensBelow s turns := fun t ht seq hseq => ih t ht hseq
    cases seq with
    | nil =>
      intro p L below fs m f body h hbelow hbody hcode
      rw [evaluate]
      exact .refl _
    | op o rest => exact flattens_op hs ih o hseq
    | block arity inner rest => exact flattens_block ih hseq
    | loop inner rest => exact flattens_loop ih hseq
    | ifThen arity thenArm rest => exact flattens_ifThen ih hseq
    | ifElse arity thenArm elseArm rest => exact flattens_ifElse ih hseq

end Constructs

end Machine

end MeteredSandbox
