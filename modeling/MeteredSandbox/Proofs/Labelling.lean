import Mathlib
import MeteredSandbox.Proofs.Changing
import MeteredSandbox.Proofs.Compiled
import MeteredSandbox.Proofs.Enclosing
import MeteredSandbox.Proofs.Protocol
import MeteredSandbox.Proofs.Structured

/-!
# Labels and nesting

The machine keeps a label for each construct that the current frame is in, and finds out about
constructs only as it comes across their words. That the labels of a frame are always those of the
constructs around its position in the body, one for each and in order, is the invariant on which
branches and ends rest (`Machine.Nested`).

What the labels of a position are is a matter of the words alone (`Nesting.Labelled`), and so is
each way to get from one position to another: past an opening with one label more, past an end with
one label less, over a construct with the same labels, from an `else` to the end of its conditional,
and along a branch. No two of them are the same argument, but all of them follow from what is known
of the constructs around a position (`Nesting.Around`).

The heights are kept apart from this. What a frame does keeps out of the operands below its base
(`Machine.Above`), so its labels are no lower, and neither is the base of a frame that it calls.
-/

namespace MeteredSandbox

variable {σ α : Type}

/-! ### Labels of positions -/

namespace Nesting

/-- **The label of a construct** that word `j` opens. A branch to a block or conditional carries as
many values as the construct has, and goes on behind its end. A branch to a loop carries nothing and
goes back to the loop. -/
inductive LabelOf (ws : List Token) (j : Nat) : Label → Prop
  | block {arity height e : Nat} (hword : ws[j]? = some (.block arity)) (hend : EndOf ws j e) :
      LabelOf ws j { arity, height, target := e + 1 }
  | ifThen {arity height e : Nat} (hword : ws[j]? = some (.ifThen arity)) (hend : EndOf ws j e) :
      LabelOf ws j { arity, height, target := e + 1 }
  | loop {height : Nat} (hword : ws[j]? = some .loop) :
      LabelOf ws j { arity := 0, height, target := j }

/-- **The labels of a position**: there is a word at the position, and the labels, innermost first,
are those of the constructs around it, one for each. -/
structure Labelled (ws : List Token) (i : Nat) (labels : List Label) : Prop where
  lt : i < ws.length
  each : ∃ js, Around ws i js ∧ List.Forall₂ (LabelOf ws) js labels

variable {ws : List Token} {i j e : Nat} {label : Label} {labels : List Label}

theorem LabelOf.exists_opens (h : LabelOf ws j label) : ∃ t, ws[j]? = some t ∧ t.Opens := by
  cases h with
  | block hword | ifThen hword | loop hword => exact ⟨_, hword, trivial⟩

namespace Labelled

section Complete

variable (hws : Complete ws)
include hws

/-- At the first word there are no labels. -/
theorem zero : Labelled ws 0 [] := ⟨hws.pos, [], .zero ws, .nil⟩

/-- Going past a word without structure changes nothing. -/
theorem op (hL : Labelled ws i labels) {o : Op} (h : ws[i]? = some (.op o)) :
    Labelled ws (i + 1) labels := by
  obtain ⟨-, js, hjs, hlabels⟩ := hL
  have hsame : ∀ k, Encloses ws k i ↔ Encloses ws k (i + 1) := fun _ =>
    (encloses_succ_iff h id Token.noConfusion).symm
  exact ⟨hws.succ_lt h Token.noConfusion, js, hjs.congr hsame, hlabels⟩

/-- Going into a construct, past its opening or to its `else`, adds its label. -/
theorem enter (hL : Labelled ws j labels) (h : LabelOf ws j label) (hin : Inside ws j i)
    (hi : i < ws.length) : Labelled ws i (label :: labels) := by
  obtain ⟨-, js, hjs, hlabels⟩ := hL
  obtain ⟨t, hword, hopens⟩ := h.exists_opens
  obtain ⟨e, hend⟩ := hws.exists_end j t hword hopens
  exact ⟨hi, j :: js, hjs.inside hin hend, .cons h hlabels⟩

/-- Behind a construct that is skipped the labels are those in front of it. -/
theorem skip (hL : Labelled ws j labels) (h : EndOf ws j e) : Labelled ws (e + 1) labels := by
  obtain ⟨-, js, hjs, hlabels⟩ := hL
  exact ⟨hws.end_lt j e h, js, hjs.past h, hlabels⟩

/-- Going past an end takes a label away. -/
theorem leave (hL : Labelled ws i (label :: labels)) (h : ws[i]? = some .endMark) :
    Labelled ws (i + 1) labels := by
  obtain ⟨-, js, hjs, hlabels⟩ := hL
  cases hlabels with
  | cons hlabel hlabels =>
    have hend := hjs.endOf hws h
    exact ⟨hws.end_lt _ i hend, _, (hjs.outward []).past hend, hlabels⟩

/-- An `else` that is come across from the front stands where the construct ends, as far as labels
are concerned. -/
theorem toEnd (hL : Labelled ws i labels) (helse : ElseOf ws j i) (hend : EndOf ws j e) :
    Labelled ws e labels := by
  obtain ⟨-, js, hjs, hlabels⟩ := hL
  have hsame : ∀ k, Encloses ws k i ↔ Encloses ws k e := fun _ =>
    (helse.inside.encloses_iff hend).trans (hend.inside.encloses_iff hend).symm
  have := hws.end_lt j e hend
  exact ⟨by omega, js, hjs.congr hsame, hlabels⟩

/-- An end without labels is the last word. -/
theorem last (hL : Labelled ws i []) (h : ws[i]? = some .endMark) : i + 1 = ws.length := by
  obtain ⟨-, js, hjs, hlabels⟩ := hL
  cases hlabels
  exact hjs.last hws h

/-- **Branches**: at the target of a label the labels are those further out. -/
theorem branch (hL : Labelled ws i labels) {depth : Nat} {outer : List Label}
    (hdrop : labels.drop depth = label :: outer) : Labelled ws label.target outer := by
  obtain ⟨-, js, hjs, hlabels⟩ := hL
  have hrest := List.forall₂_drop depth hlabels
  rw [hdrop] at hrest
  obtain ⟨j, js', hlabel, houter, hjs'⟩ := List.forall₂_cons_right_iff.mp hrest
  rw [← List.take_append_drop depth js, hjs'] at hjs
  have haround : Around ws j js' := hjs.outward _
  cases hlabel with
  | block _ hend | ifThen _ hend => exact ⟨hws.end_lt j _ hend, js', haround.past hend, houter⟩
  | loop hword =>
    obtain ⟨hlt, -⟩ := List.getElem?_eq_some_iff.mp hword
    exact ⟨hlt, js', haround, houter⟩

end Complete

end Labelled

end Nesting

/-! ### Labels of frames -/

/-- The words of a body. -/
def FuncBody.words (body : FuncBody) : List Token := body.code.toList.map Instr.token

@[simp] theorem FuncBody.length_words (body : FuncBody) : body.words.length = body.code.size := by
  rw [words, List.length_map, Array.length_toList]

theorem FuncBody.getElem?_words {body : FuncBody} {i : Nat} {x : Instr}
    (h : body.code[i]? = some x) : body.words[i]? = some x.token := by
  rw [words, List.getElem?_map, Array.getElem?_toList, h, Option.map_some]

/-- The words of a body that compiles are complete, and its instructions know their positions. -/
theorem Program.complete_of_body {m : Module} {p : Program} (h : ofModule m = .ok p) {func : Nat}
    {body : FuncBody} (hbody : p.body? func = some body) :
    Nesting.Complete body.words ∧
      ∀ i x, body.code[i]? = some x → Nesting.Knows body.words i x := by
  obtain ⟨tree, -, hcode, -⟩ := tree_of_body h hbody
  have hlist : body.code.toList = tree.code := by rw [hcode, List.toList_toArray]
  have hwords : body.words = tree.tokens ++ [.endMark] := by
    rw [FuncBody.words, hlist, Seq.map_token_code]
  refine ⟨hwords ▸ tree.complete_words, fun i x hx => ?_⟩
  rw [FuncBody.words, hlist]
  exact tree.resolved_code i x (by rw [← hlist, Array.getElem?_toList, hx])

/-- **A frame whose labels are right**: there is an instruction at its position, its labels are
those of the constructs around the position, and none of them is lower than its base. -/
structure Frame.Labelled (p : Program) (f : Frame) : Prop where
  placed : ∃ body, p.body? f.func = some body ∧
    Nesting.Labelled body.words f.position f.labels
  heights : ∀ l ∈ f.labels, f.base ≤ l.height

namespace Frame.Labelled

variable {p : Program} {f : Frame} (hf : f.Labelled p)
include hf

theorem exists_instr :
    ∃ body instr, p.body? f.func = some body ∧ body.code[f.position]? = some instr := by
  obtain ⟨body, hbody, hlabels⟩ := hf.placed
  have hlt := hlabels.lt
  rw [FuncBody.length_words] at hlt
  exact ⟨body, _, hbody, Array.getElem?_eq_getElem hlt⟩

theorem of_body {body : FuncBody} (hbody : p.body? f.func = some body) :
    Nesting.Labelled body.words f.position f.labels := by
  obtain ⟨body', hbody', hlabels⟩ := hf.placed
  obtain rfl : body = body' := Option.some.inj (hbody.symm.trans hbody')
  exact hlabels

/-- Without labels only the last end of a body comes next. -/
theorem last {m : Module} (h : Program.ofModule m = .ok p) {body : FuncBody}
    (hbody : p.body? f.func = some body) (hend : body.code[f.position]? = some .endMark)
    (hnil : f.labels = []) : f.position + 1 = body.code.size := by
  have hlabels := hf.of_body hbody
  rw [hnil] at hlabels
  rw [← FuncBody.length_words]
  exact hlabels.last (Program.complete_of_body h hbody).1 (FuncBody.getElem?_words hend)

end Frame.Labelled

/-- **Bases in order**: none is lower than that of the frame below, and the outermost one is the
floor. -/
structure Based (floor : Nat) (bases : List Nat) : Prop where
  descending : bases.Pairwise (· ≥ ·)
  outermost : ∀ b, bases.getLast? = some b → b = floor

namespace Based

variable {floor b c : Nat} {bs : List Nat}

theorem nil (floor : Nat) : Based floor [] := ⟨.nil, fun _ h => by cases h⟩

theorem singleton (floor : Nat) : Based floor [floor] :=
  ⟨List.pairwise_singleton _ _, fun _ h => (Option.some.inj h).symm⟩

theorem cons (h : Based floor (b :: bs)) (hle : b ≤ c) : Based floor (c :: b :: bs) where
  descending := by
    refine List.pairwise_cons.mpr ⟨List.forall_mem_cons.mpr ⟨hle, fun x hx => ?_⟩, h.descending⟩
    exact ((List.pairwise_cons.mp h.descending).1 x hx).trans hle
  outermost := by
    rw [List.getLast?_cons_cons]
    exact h.outermost

theorem tail (h : Based floor (b :: bs)) : Based floor bs where
  descending := (List.pairwise_cons.mp h.descending).2
  outermost x hx := by
    cases bs with
    | nil => cases hx
    | cons c cs => exact h.outermost x (by rwa [List.getLast?_cons_cons])

/-- What is below a base is not higher. -/
theorem head_le (h : Based floor (b :: bs)) : bs.head?.getD floor ≤ b := by
  cases bs with
  | nil => exact (h.outermost b rfl).ge
  | cons c cs => exact (List.pairwise_cons.mp h.descending).1 c List.mem_cons_self

end Based

namespace Machine

open Exec

/-- **Labels mirror nesting**: the labels of every frame are right, its base is no lower than that
of the frame below it, and the operands reach up to the base of the current frame at least. -/
structure Nested (s : Setting σ) (m : Machine σ) : Prop where
  labelled : ∀ f ∈ m.frames.items, f.Labelled s.program
  based : Based s.floor (m.frames.items.map Frame.base)
  floor_le : floor s m ≤ m.operands.height

/-! ### Keeping out of what lies below -/

/-- An action that does the same when operands are put beneath keeps out of those below its
floor. -/
theorem keeps_height {a : Nat → Exec σ α}
    (h : ∀ (r : Reading σ σ) floor, Follows r.machine (a floor) (a (floor + r.under.height)))
    (floor : Nat) : Respects (fun m : Machine σ => floor ≤ m.operands.height) (a floor) := by
  intro m hm
  -- the operands below the floor are what the others have beneath them
  let under : OperandStack := m.operands.truncate floor
  let r : Reading σ σ :=
    { under, top := id, below := id, account := id, top_locals := fun _ => rfl
      top_withLocals := fun _ _ => rfl }
  let m₀ : Machine σ :=
    { m with operands := .ofItems (m.operands.items.take (m.operands.height - floor)) }
  have hunder : under.height = floor := by
    rw [Stack.height_truncate]
    exact Nat.min_eq_right hm
  have hread : r.machine m₀ = m := by
    refine Machine.ext rfl (Stack.ext ?_) (Stack.ext ?_) rfl rfl
    · change m.operands.items.take _ ++ (m.operands.truncate floor).items = _
      rw [Stack.items_truncate, List.take_append_drop]
    · change r.frames m.frames.items = _
      cases m.frames.items with
      | nil => rfl
      | cons f fs => rfl
  have hsame := h r 0 m₀
  rw [hread, Nat.zero_add] at hsame
  change a under.height m = _ at hsame
  rw [← hunder, hsame]
  cases a 0 m₀ with
  | ok x m' => exact Nat.le_add_left _ _
  | error e m' => exact ⟨Nat.le_add_left _ _, trivial⟩

/-- Within a turn: the current frame is `g`, up to the values of its locals, and lies on top of
`fs`; and there are as many operands as lie below it. -/
def Above (g : Frame) (fs : List Frame) (m : Machine σ) : Prop :=
  m.Inside g fs (fun _ => True) ∧ g.base ≤ m.operands.height

section Above

variable {s : Setting σ} {g : Frame} {fs : List Frame}

/-- Actions on operands that keep out of what is below. -/
theorem above_keeps {a : Nat → Exec σ α}
    (hin : Respects (Inside g fs fun _ => True) (a g.base))
    (h : ∀ (r : Reading σ σ) floor, Follows r.machine (a floor) (a (floor + r.under.height))) :
    Respects (Above g fs) (a g.base) := hin.and (keeps_height h g.base)

theorem popI32_above (s : Setting σ) : Respects (Above g fs) (popI32 g.base : Exec σ _) :=
  above_keeps (a := popI32) (popI32_keeps (inside_steady s.safe_true g fs).toIndifferent _)
    popI32_follows

theorem stepOp_above (s : Setting σ) {o : Op} (ho : o.IsPlain) :
    Respects (Above g fs) (stepOp s g.base o) :=
  above_keeps (a := fun floor => stepOp s floor o)
    (stepOp_keeps (inside_steady s.safe_true g fs) s _ ho (.of_trap (fun _ => trivial) o))
    fun r floor => stepOp_follows r s s floor ho

/-- What is carried to a label that is no lower than the base. -/
theorem carry_above (s : Setting σ) (arity : Nat) {height : Nat} (hle : g.base ≤ height) :
    Respects (Above g fs) (carry arity height : Exec σ Unit) := by
  obtain ⟨d, rfl⟩ := Nat.exists_eq_add_of_le' hle
  refine above_keeps (a := fun floor => carry arity (d + floor))
    (carry_keeps (inside_steady s.safe_true g fs).toIndifferent _ _) fun r floor => ?_
  rw [← Nat.add_assoc]
  exact carry_follows r arity (d + floor)

/-- The current frame goes on in another way. -/
theorem modifyFrame_above {move : Frame → Frame}
    (hmove : ∀ locals, move { g with locals } = { move g with locals })
    (hbase : (move g).base = g.base) :
    Leads (Above g fs) (fun _ => True) (modifyFrame move : Exec σ Unit) fun _ =>
      Above (move g) fs := by
  intro m hm
  obtain ⟨locals, hitems⟩ := hm.1.frames
  rw [modifyFrame_apply, if_neg (Stack.not_isEmpty_of_cons hitems)]
  refine ⟨⟨⟨locals, ?_⟩, trivial⟩, hbase ▸ hm.2⟩
  rw [Stack.items_modifyTop, hitems, List.modifyHead_cons, hmove]

theorem jump_above (position : Nat) :
    Leads (Above g fs) (fun _ => True) (jump position : Exec σ Unit) fun _ =>
      Above { g with position } fs :=
  modifyFrame_above (fun _ => rfl) rfl

theorem pushLabel_above (arity target : Nat) :
    Leads (Above g fs) (fun _ => True) (pushLabel arity target : Exec σ Unit) fun _ m =>
      ∃ height, g.base ≤ height ∧
        Above { g with labels := { arity, height, target } :: g.labels } fs m := by
  refine .get_bind fun m hm => ?_
  refine (modifyFrame_above (fun _ => rfl) rfl).mono fun _ m' hm' => ?_
  exact ⟨m.operands.height, hm.2, hm'⟩

theorem frame_above : Leads (Above g fs) (fun _ => True) (frame : Exec σ Frame) fun f m =>
    Above g fs m ∧ ∃ locals, f = { g with locals } := by
  intro m hm
  obtain ⟨locals, htop⟩ := hm.1.top?
  unfold frame
  rw [htop]
  exact ⟨hm, locals, rfl⟩

end Above

/-! ### Frames below -/

theorem floor_congr (s : Setting σ) {m m' : Machine σ} (h : m'.frames = m.frames) :
    floor s m' = floor s m := by
  unfold floor
  rw [h]

theorem floor_eq (s : Setting σ) (m : Machine σ) :
    floor s m = (m.frames.items.map Frame.base).head?.getD s.floor := by
  unfold floor Stack.top?
  cases m.frames.items with
  | nil => rfl
  | cons f fs => rfl

/-- The frames on which one with the given base lies. -/
structure Rests (s : Setting σ) (base : Nat) (fs : List Frame) : Prop where
  labelled : ∀ f ∈ fs, f.Labelled s.program
  based : Based s.floor (base :: fs.map Frame.base)

section Rests

variable {s : Setting σ} {g : Frame} {fs : List Frame} {m : Machine σ}

/-- What has to be known of the frames, given which they are. -/
theorem Nested.of_items (hitems : m.frames.items = fs) (hlabelled : ∀ f ∈ fs, f.Labelled s.program)
    (hbased : Based s.floor (fs.map Frame.base))
    (hle : (fs.map Frame.base).head?.getD s.floor ≤ m.operands.height) : Nested s m := by
  subst hitems
  exact ⟨hlabelled, hbased, (floor_eq s m).trans_le hle⟩

theorem Above.nested (hm : Above g fs m) (hg : g.Labelled s.program) (hfs : Rests s g.base fs) :
    Nested s m := by
  obtain ⟨locals, hitems⟩ := hm.1.frames
  have hlabelled := List.forall_mem_cons.mpr
    ⟨(⟨hg.placed, hg.heights⟩ : Frame.Labelled s.program { g with locals }), hfs.labelled⟩
  exact .of_items hitems hlabelled hfs.based hm.2

theorem Nested.rests {f : Frame} (hm : Nested s m) (hitems : m.frames.items = f :: fs) :
    f.Labelled s.program ∧ Rests s f.base fs := by
  obtain ⟨hlabelled, hbased, -⟩ := hm
  rw [hitems] at hlabelled hbased
  obtain ⟨hf, hfs⟩ := List.forall_mem_cons.mp hlabelled
  exact ⟨hf, hfs, hbased⟩

/-- **Returns** lead to the frame below. -/
theorem returnFromFrame_above (hfs : Rests s g.base fs) :
    Leads (Above g fs) (fun _ => True) (returnFromFrame s) fun _ => Nested s := by
  intro m hm
  obtain ⟨locals, hitems⟩ := hm.1.frames
  have hi : Indifferent (fun m' : Machine σ => m'.frames.items = fs) fun _ => True :=
    ⟨fun _ _ => trivial, fun _ _ h => h⟩
  have hkeeps : Respects (fun m' : Machine σ => m'.frames.items = fs ∧ g.base ≤ m'.operands.height)
      (handOver { g with locals }) :=
    (handOver_keeps hi _).and (keeps_height (a := fun base => handOver { g with locals, base })
      (fun r floor => handOver_follows r rfl rfl) g.base)
  rw [returnFromFrame_of_cons s hitems]
  refine hkeeps.leads.mono (fun _ m' hm' => ?_) _ ⟨rfl, hm.2⟩
  exact .of_items hm'.1 hfs.labelled hfs.based.tail (hfs.based.head_le.trans hm'.2)

end Rests

section Compiled

variable {s : Setting σ} {module : Module} (hp : Program.ofModule module = .ok s.program)
include hp

/-- **Branches** lead to where the labels further out are those of the position. -/
theorem branch_above {g : Frame} {fs : List Frame} (hg : g.Labelled s.program)
    (hfs : Rests s g.base fs) (depth : Nat) :
    Leads (Above g fs) (fun _ => True) (branch s depth) fun _ => Nested s := by
  intro m hm
  obtain ⟨locals, htop⟩ := hm.1.top?
  -- to a label, out of the body, or further than there are labels
  rcases branch_cases g.labels depth with ⟨label, outer, hdrop⟩ | heq | hgt
  · obtain ⟨body, hbody, hlabels⟩ := hg.placed
    have htarget := hlabels.branch (Program.complete_of_body hp hbody).1 hdrop
    have hmem : ∀ l ∈ label :: outer, l ∈ g.labels := fun l hl =>
      List.mem_of_mem_drop (hdrop ▸ hl)
    have houter : ∀ l ∈ outer, g.base ≤ l.height := fun l hl =>
      hg.heights l (hmem l (List.mem_cons_of_mem _ hl))
    rw [branch_of_drop s htop hdrop]
    refine ((carry_above s _ (hg.heights label (hmem label List.mem_cons_self))).leads.bind
      fun _ => (modifyFrame_above (fun _ => rfl) rfl).mono fun _ m' hm' => ?_) m hm
    exact hm'.nested ⟨⟨body, hbody, htarget⟩, houter⟩ hfs
  · rw [branch_of_length s htop heq]
    exact returnFromFrame_above hfs m hm
  · rw [branch_of_gt s htop hgt]
    trivial

end Compiled

/-! ### Calls -/

section Calls

variable {s : Setting σ} {m m' : Machine σ}

/-- A call that is granted has taken its arguments, and nothing else has changed. -/
theorem grant_eq_ok {type : FuncType} {body : FuncBody} {args : List Value}
    (h : grant s type body m = .ok args m') :
    m'.frames = m.frames ∧ floor s m ≤ m'.operands.height ∧
      m'.operands.height + type.params.length = m.operands.height := by
  unfold grant at h
  rw [get_bind_apply] at h
  obtain ⟨args', m₁, hpop, h⟩ := exists_of_bind_ok h
  obtain ⟨operands, hargs, rfl⟩ := onOperands_eq_ok hpop
  split at h
  · cases h
  · obtain ⟨u, m₂, hask, h⟩ := exists_of_bind_ok h
    cases h
    -- the checkpoint sees neither frames nor operands
    have haccount : ∀ question : EStateM Trap σ Unit,
        Respects (fun m' : Machine σ => m'.frames = m.frames ∧ m'.operands = operands)
          (onAccount question) := fun question =>
      onAccount_keeps (fun _ _ h => h) fun _ _ _ _ => trivial
    have hkeeps : Respects (fun m' : Machine σ => m'.frames = m.frames ∧ m'.operands = operands)
        (ask s body) :=
      .ite (fun _ => (haccount _).bind fun _ => haccount _) fun _ => haccount _
    obtain ⟨hframes, hoperands⟩ := hkeeps.of_ok (s := { m with operands }) ⟨rfl, rfl⟩ hask
    rw [hoperands]
    exact ⟨hframes, Operands.popArgs_height hargs⟩

/-- A host function leaves the frames alone, and takes and leaves operands above the floor. -/
theorem callHost_eq_ok {func : Nat} {type : FuncType} (hle : floor s m ≤ m.operands.height)
    (h : callHost s func type m = .ok () m') :
    m'.frames = m.frames ∧ floor s m ≤ m'.operands.height := by
  let I : Machine σ → Prop := fun m' => m'.frames = m.frames ∧ floor s m ≤ m'.operands.height
  have hi : Indifferent (fun m' : Machine σ => m'.frames = m.frames) fun _ => True :=
    ⟨fun _ _ => trivial, fun _ _ h => h⟩
  have hargs : Respects I (onOperands (Operands.popArgs type.params (floor s m))) :=
    (onOperands_keeps hi (Operands.popArgs_ordinary _ _)).and
      (keeps_height (a := fun floor => onOperands (Operands.popArgs type.params floor))
        (fun r floor => onOperands_follows r (Operands.popArgs_follows r.under _ floor)) _)
  have hresult : ∀ result, Respects I (pushOption result) := fun result =>
    (pushOption_keeps hi result).and
      (keeps_height (a := fun _ => pushOption result) (fun r _ => pushOption_follows r result) _)
  have hkeeps : Respects I (callHost s func type) := by
    unfold callHost
    cases s.host[func]? with
    | none => exact trap_keeps trivial
    | some host =>
      refine .get_bind fun m' hm' => ?_
      rw [floor_congr s hm'.1]
      refine hargs.bind fun args => ?_
      cases host args with
      | trap t => exact trap_keeps trivial
      | panic p => exact .throw trivial
      | value result => exact .ite (fun _ => hresult result) fun _ => trap_keeps trivial
  exact hkeeps.of_ok ⟨rfl, hle⟩ h

/-- **What a call does.** It leaves the frames alone if it is to a host function. Otherwise it opens
a frame on what the arguments were on. -/
theorem call_eq_ok {func : Nat} (hle : floor s m ≤ m.operands.height)
    (h : call s func m = .ok () m') :
    floor s m ≤ m'.operands.height ∧
      (m'.frames = m.frames ∨
        ∃ type body args, s.program.funcType? func = some type ∧
          s.program.body? func = some body ∧
          m'.operands.height + type.params.length = m.operands.height ∧
          m'.frames.items = newFrame func type body args m'.operands.height :: m.frames.items) := by
  unfold call at h
  cases htype : s.program.funcType? func with
  | none =>
    rw [htype] at h
    cases h
  | some type =>
    rw [htype] at h
    dsimp only at h
    split at h
    · obtain ⟨hframes, hle'⟩ := callHost_eq_ok hle h
      exact ⟨hle', .inl hframes⟩
    · cases hbody : s.program.body? func with
      | none =>
        rw [hbody] at h
        cases h
      | some body =>
        rw [hbody] at h
        dsimp only at h
        rw [callGuest_eq] at h
        obtain ⟨args, m₁, hgrant, h⟩ := exists_of_bind_ok h
        obtain ⟨hframes, hle', hheight⟩ := grant_eq_ok hgrant
        cases h
        refine ⟨hle', .inr ⟨type, body, args, rfl, rfl, hheight, ?_⟩⟩
        change _ :: m₁.frames.items = _
        rw [hframes]
        rfl

end Calls

section Compiled

variable {s : Setting σ} {module : Module} (hp : Program.ofModule module = .ok s.program)
include hp

theorem newFrame_labelled {func : Nat} {body : FuncBody} (hbody : s.program.body? func = some body)
    (type : FuncType) (args : List Value) (height : Nat) :
    (newFrame func type body args height).Labelled s.program where
  placed := ⟨body, hbody, .zero (Program.complete_of_body hp hbody).1⟩
  heights _ hl := absurd hl List.not_mem_nil

/-- **Calls** lead to the beginning of a body, or back. -/
theorem call_nested (func : Nat) :
    Leads (fun m => Nested s m ∧ m.frames.items ≠ []) (fun _ => True) (call s func) fun _ =>
      Nested s := by
  rintro m ⟨hm, hne⟩
  cases hr : call s func m with
  | error e m' => trivial
  | ok u m' =>
    obtain ⟨hle, hframes | ⟨type, body, args, -, hbody, -, hitems⟩⟩ := call_eq_ok hm.floor_le hr
    · exact ⟨hframes ▸ hm.labelled, hframes ▸ hm.based, (floor_congr s hframes).trans_le hle⟩
    · obtain ⟨f, fs, hfs⟩ := List.exists_cons_of_ne_nil hne
      obtain ⟨hf, hrests⟩ := hm.rests hfs
      rw [floor_eq, hfs] at hle
      rw [hfs] at hitems
      have hnew := newFrame_labelled hp hbody type args m'.operands.height
      refine .of_items hitems ?_ (hrests.based.cons hle) le_rfl
      exact List.forall_mem_cons.mpr ⟨hnew, List.forall_mem_cons.mpr ⟨hf, hrests.labelled⟩⟩

/-! ### Instructions -/

/-- Every instruction without structure, of a frame whose labels are right behind it. -/
theorem stepOp_nested {g : Frame} {fs : List Frame} (hg : g.Labelled s.program)
    (hfs : Rests s g.base fs) (o : Op) :
    Leads (Above g fs) (fun _ => True) (stepOp s g.base o) fun _ => Nested s := by
  have hnested : ∀ m : Machine σ, Above g fs m → Nested s m := fun m hm => hm.nested hg hfs
  have hplain : o.IsPlain → Leads (Above g fs) (fun _ => True) (stepOp s g.base o) fun _ =>
      Nested s := fun ho => (stepOp_above s ho).leads.mono fun _ => hnested
  have hcall : ∀ func, Leads (Above g fs) (fun _ => True) (call s func) fun _ => Nested s := by
    intro func m hm
    obtain ⟨locals, hitems⟩ := hm.1.frames
    exact call_nested hp func m ⟨hnested m hm, hitems ▸ List.cons_ne_nil _ _⟩
  cases o with
  | br depth => exact branch_above hp hg hfs depth
  | brIf depth =>
    exact (popI32_above s).leads.bind fun _ =>
      .ite (fun _ => branch_above hp hg hfs depth) fun _ => .pure hnested
  | brTable depths default =>
    exact (popI32_above s).leads.bind fun _ => branch_above hp hg hfs _
  | ret => exact returnFromFrame_above hfs
  | call func => exact hcall func
  | callIndirect type =>
    refine (popI32_above s).leads.bind fun slot => ?_
    rw [callIndirect_eq]
    exact (resolve_keeps s (fun _ _ => trivial) type slot.toNat).leads.bind fun func => hcall func
  | _ => exact hplain trivial

/-- **Every instruction** of a frame whose labels are right, with the position already past it. -/
theorem step_nested {f : Frame} {fs : List Frame} {body : FuncBody} {instr : Instr}
    (hf : f.Labelled s.program) (hfs : Rests s f.base fs)
    (hbody : s.program.body? f.func = some body) (hinstr : body.code[f.position]? = some instr) :
    Leads (Above { f with position := f.position + 1 } fs) (fun _ => True) (step s instr) fun _ =>
      Nested s := by
  obtain ⟨hws, hknows⟩ := Program.complete_of_body hp hbody
  have hknows := hknows _ _ hinstr
  have hword := FuncBody.getElem?_words hinstr
  have hlabels := hf.of_body hbody
  -- where the frame goes on, its labels have to be those of the position
  have hmove : ∀ {position labels}, Nesting.Labelled body.words position labels →
      (∀ l ∈ labels, f.base ≤ l.height) → ∀ m : Machine σ,
      Above { f with position, labels } fs m → Nested s m := fun h hheights m hm =>
    hm.nested ⟨⟨body, hbody, h⟩, hheights⟩ hfs
  have henter : ∀ {label : Label} {i : Nat}, Nesting.LabelOf body.words f.position label →
      f.base ≤ label.height → Nesting.Inside body.words f.position i → i < body.words.length →
      ∀ m : Machine σ, Above { f with position := i, labels := label :: f.labels } fs m →
      Nested s m := fun h hle hin hi =>
    hmove (hlabels.enter hws h hin hi) (List.forall_mem_cons.mpr ⟨hle, hf.heights⟩)
  refine .get_bind fun m hm => ?_
  obtain ⟨locals, hitems⟩ := hm.1.frames
  have hfloor : floor s m = f.base := by
    rw [floor_eq, hitems]
    rfl
  rw [hfloor]
  cases instr with
  | op o =>
    exact stepOp_nested hp (g := { f with position := f.position + 1 })
      ⟨⟨body, hbody, hlabels.op hws hword⟩, hf.heights⟩ hfs o
  | block arity endAt =>
    refine (pushLabel_above arity (endAt + 1)).mono fun _ m' hm' => ?_
    obtain ⟨height, hle, hm'⟩ := hm'
    exact henter (.block hword hknows) hle (Nesting.inside_succ hword trivial)
      (hws.succ_lt hword Token.noConfusion) m' hm'
  | loop =>
    refine frame_above.bind fun g => ?_
    rintro m' ⟨hm', locals, rfl⟩
    refine (pushLabel_above 0 f.position).mono (fun _ m'' hm'' => ?_) m' hm'
    obtain ⟨height, hle, hm''⟩ := hm''
    exact henter (.loop hword) hle (Nesting.inside_succ hword trivial)
      (hws.succ_lt hword Token.noConfusion) m'' hm''
  | ifThen arity elseAt endAt =>
    obtain ⟨hend, helse⟩ := hknows
    refine (popI32_above s).leads.bind fun condition => .ite (fun _ => ?_) fun _ => ?_
    · refine (pushLabel_above arity (endAt + 1)).mono fun _ m' hm' => ?_
      obtain ⟨height, hle, hm'⟩ := hm'
      exact henter (.ifThen hword hend) hle (Nesting.inside_succ hword trivial)
        (hws.succ_lt hword Token.noConfusion) m' hm'
    · cases elseAt with
      | some elseAt =>
        have helse := (helse elseAt).mp rfl
        refine (pushLabel_above arity (endAt + 1)).bind fun _ => ?_
        rintro m' ⟨height, hle, hm'⟩
        exact (jump_above (elseAt + 1)).mono (fun _ => henter (.ifThen hword hend) hle
          helse.inside_succ (hws.succ_lt helse.mark Token.noConfusion)) m' hm'
      | none =>
        -- the conditional is skipped, and has never had a label
        exact (jump_above (endAt + 1)).mono fun _ => hmove (hlabels.skip hws hend) hf.heights
  | elseJump endAt =>
    -- it goes to the end and not behind it, so the label stays for the end to take away
    obtain ⟨j, helse, hend⟩ := hknows
    exact (jump_above endAt).mono fun _ => hmove (hlabels.toEnd hws helse hend) hf.heights
  | endMark =>
    refine frame_above.bind fun g => ?_
    rintro m' ⟨hm', locals, rfl⟩
    cases hlist : f.labels with
    | nil =>
      exact returnFromFrame_above (g := { f with position := f.position + 1 }) hfs m' hm'
    | cons label outer =>
      rw [hlist] at hlabels
      have houter : ∀ l ∈ outer, f.base ≤ l.height := fun l hl =>
        hf.heights l (hlist ▸ List.mem_cons_of_mem _ hl)
      exact (modifyFrame_above (fun _ => rfl) rfl).mono
        (fun _ => hmove (hlabels.leave hws hword) houter) m' hm'

/-! ### Turns and runs -/

/-- **A turn** leads from where labels mirror nesting to where they do again. -/
theorem turn_nested : Leads (Nested s) (fun _ => True) (turn s) fun _ => Nested s := by
  intro m hm
  cases hitems : m.frames.items with
  | nil =>
    have hnone : nextInstr? s m = none := by
      unfold nextInstr? Stack.top?
      rw [hitems]
      rfl
    obtain ⟨e, he⟩ := fetch_of_next_none s hnone
    unfold turn
    rw [bind_of_error he]
    trivial
  | cons f fs =>
    -- the position is past the instruction before it is paid for and carried out
    obtain ⟨hf, hfs⟩ := hm.rests hitems
    obtain ⟨body, instr, hbody, hinstr⟩ := hf.exists_instr
    have hnext : nextInstr? s m = some instr := by
      unfold nextInstr?
      rw [Stack.top?_of_cons hitems, Option.bind_some, hbody]
      exact hinstr
    have hadvance : Above { f with position := f.position + 1 } fs m.advance := by
      refine ⟨⟨⟨f.locals, ?_⟩, trivial⟩, ?_⟩
      · change (m.frames.modifyTop _).items = _
        rw [Stack.items_modifyTop, hitems]
        rfl
      · have hle := hm.floor_le
        rw [floor_eq, hitems] at hle
        exact hle
    have hcharge : Respects (Above { f with position := f.position + 1 } fs)
        (onAccount (s.checkpoint.charge (s.pricing.cost instr))) :=
      onAccount_keeps (fun _ _ h => ⟨⟨h.1.frames, trivial⟩, h.2⟩) fun _ _ _ _ => trivial
    rw [turn_of_next s hnext]
    exact (hcharge.leads.bind fun _ => step_nested hp hf hfs hbody hinstr) _ hadvance

/-- **The first call** of a run opens a frame on the floor, if it opens one. -/
theorem nested_of_opening {func : Nat} {args : List Value} {m m' m'' : Machine σ}
    (hempty : m.frames.items = []) (hheight : m.operands.height = s.floor)
    (hopening : opening? s func args m = some m') (hcall : call s func m' = .ok () m'') :
    Nested s m'' := by
  have hm' : m'.frames.items = [] ∧ m'.operands.height = s.floor + args.length ∧
      ∃ type, s.program.funcType? func = some type ∧ args.map Value.type = type.params := by
    unfold opening? at hopening
    split at hopening
    next type htype =>
      split at hopening
      next hargs =>
        cases hopening
        refine ⟨hempty, ?_, type, htype, hargs⟩
        rw [← hheight, Stack.height_eq, Stack.items_pushAll, List.length_append,
          List.length_reverse, ← Stack.height_eq, Nat.add_comm]
      next => cases hopening
    next => cases hopening
  obtain ⟨hitems, hheight', type, htype, hargs⟩ := hm'
  have hfloor : floor s m' = s.floor := by
    rw [floor_eq, hitems]
    rfl
  obtain ⟨hle, hframes | ⟨type', body, args', htype', hbody, hpopped, hopened⟩⟩ :=
    call_eq_ok (by omega) hcall
  · have hitems' : m''.frames.items = [] := by rw [hframes, hitems]
    exact .of_items hitems' (fun f hf => absurd hf List.not_mem_nil) (.nil s.floor) (hfloor ▸ hle)
  · -- as many operands go as arguments were put there, so the base is the floor itself
    obtain rfl : type = type' := Option.some.inj (htype.symm.trans htype')
    have hlength : type.params.length = args.length := by rw [← hargs, List.length_map]
    have hbase : m''.operands.height = s.floor := by omega
    have hnew := newFrame_labelled hp hbody type args' s.floor
    rw [hitems, hbase] at hopened
    exact .of_items hopened (List.forall_mem_singleton.mpr hnew) (.singleton s.floor) hbase.ge

end Compiled

/-- What turns lead on holds whenever one begins, and then a frame is open. -/
theorem history_forall {s : Setting σ} {I : Machine σ → Prop}
    (hturn : Leads I (fun _ => True) (turn s) fun _ => I) (limit : Nat) {m : Machine σ}
    (hm : I m) : ∀ x ∈ history s limit m, I x ∧ x.frames.items ≠ [] := by
  induction limit generalizing m with
  | zero => exact fun x hx => absurd hx List.not_mem_nil
  | succ limit ih =>
    cases hitems : m.frames.items with
    | nil =>
      rw [history_of_nil s hitems]
      exact fun x hx => absurd hx List.not_mem_nil
    | cons f fs =>
      rw [history_succ s hitems]
      refine List.forall_mem_cons.mpr ⟨⟨hm, hitems ▸ List.cons_ne_nil f fs⟩, ?_⟩
      cases hr : turn s m with
      | ok u m' => exact ih (hturn.of_ok hm hr)
      | error e m' => exact fun x hx => absurd hx List.not_mem_nil

/-- **All turns of a run** begin where labels mirror nesting. -/
theorem runHistory_nested {s : Setting σ} {module : Module}
    (hp : Program.ofModule module = .ok s.program) {m : Machine σ}
    (hempty : m.frames.items = []) (hheight : m.operands.height = s.floor) (limit func : Nat)
    (args : List Value) :
    ∀ x ∈ runHistory s limit func args m, Nested s x ∧ x.frames.items ≠ [] := by
  unfold runHistory callHistory
  cases hopening : opening? s func args m with
  | none => exact fun x hx => absurd hx List.not_mem_nil
  | some m' =>
    dsimp only
    cases hr : call s func m' with
    | ok u m'' =>
      exact history_forall (turn_nested hp) limit
        (nested_of_opening hp hempty hheight hopening hr)
    | error e m'' => exact fun x hx => absurd hx List.not_mem_nil

end Machine

/-! ### Instances -/

namespace Instance

/-- **The labels of every frame mirror the nesting of its body**, whenever a turn of a call begins.
The frame stands at an instruction, and has one label for each construct around it. The bases of
frames descend from the height of the operands to the floor, and labels are between them. So a body
is left at its last instruction only, and there is always a next one. -/
theorem labels_mirror_nesting {bytes : List UInt8} {p : Program}
    (hcompile : Program.compile bytes = .ok p) {i : Instance} (hi : i.program = p)
    (c : Checkpoint σ) (pricing : Pricing) (limit func : Nat) (args : List Value)
    (operands : OperandStack) (a : σ) :
    ∀ m ∈ Machine.runHistory (i.setting c pricing operands.height) limit func args
        (Machine.start i.store operands a),
      (∀ f ∈ m.frames.items, f.Labelled p) ∧
      (m.operands.height :: m.frames.items.map Frame.base).Pairwise (· ≥ ·) ∧
      (m.frames.items.map Frame.base).getLast? = some operands.height ∧
      ∃ f body instr, m.frames.top? = some f ∧ p.body? f.func = some body ∧
        body.code[f.position]? = some instr ∧
        (instr = .endMark → f.labels = [] → f.position + 1 = body.code.size) := by
  obtain ⟨module, -, hmodule⟩ := exists_of_bind_eq_ok hcompile
  subst hi
  intro m hm
  obtain ⟨hnested, hne⟩ := Machine.runHistory_nested
    (s := i.setting c pricing operands.height) hmodule rfl rfl limit func args m hm
  obtain ⟨f, fs, hitems⟩ := List.exists_cons_of_ne_nil hne
  obtain ⟨hf, -⟩ := hnested.rests hitems
  have hle := hnested.floor_le
  have hbased := hnested.based
  rw [Machine.floor_eq, hitems] at hle
  rw [hitems] at hbased
  refine ⟨hnested.labelled, ?_, ?_, ?_⟩
  · rw [hitems]
    exact (hbased.cons hle).descending
  · rw [hitems]
    have hlast := List.getLast?_eq_some_getLast (l := (f :: fs).map Frame.base)
      (List.cons_ne_nil _ _)
    rw [hlast, hbased.outermost _ hlast]
    rfl
  · obtain ⟨body, instr, hbody, hinstr⟩ := hf.exists_instr
    refine ⟨f, body, instr, Stack.top?_of_cons hitems, hbody, hinstr, ?_⟩
    rintro rfl hlabels
    exact hf.last hmodule hbody hinstr hlabels

/-- The bytes of a module with a function that leaves three constructs at once: a block, a loop in
it, and the second arm of a conditional in that. -/
def windingBytes : List UInt8 :=
  [0x00, 0x61, 0x73, 0x6d, 0x01, 0x00, 0x00, 0x00, 0x01, 0x04, 0x01, 0x60, 0x00, 0x00, 0x03, 0x02,
    0x01, 0x00, 0x0a, 0x13, 0x01, 0x11, 0x00, 0x02, 0x40, 0x03, 0x40, 0x41, 0x00, 0x04, 0x40, 0x01,
    0x05, 0x0c, 0x02, 0x0b, 0x0b, 0x0b, 0x0b]

/-- The module that they spell. -/
def windingModule : Module where
  types := [{ params := [], results := [] }]
  funcs := [0]
  codes := [{ locals := [], body := [0x02, 0x40, 0x03, 0x40, 0x41, 0x00, 0x04, 0x40, 0x01, 0x05,
    0x0c, 0x02, 0x0b, 0x0b, 0x0b, 0x0b] }]

/-- An instance of the module. -/
def winding : Instance where
  program :=
    { source := windingModule
      signatures := #[some { params := [], results := [] }]
      imported := 0
      bodies := #[{
        locals := #[]
        code := #[.block 0 9, .loop, .op (.const (.i32 0)), .ifThen 0 (some 5) 7, .op .nop,
          .elseJump 7, .op (.br 2), .endMark, .endMark, .endMark, .endMark] }] }
  host := #[]
  store := { memory := none, table := none, globals := #[] }

private theorem parse_windingBytes : Module.parse windingBytes = .ok windingModule := by
  have hsections : RawSection.all ⟨8, windingBytes.drop 8⟩ = (
      [{ id := .types, payloadOffset := 10, payload := [0x01, 0x60, 0x00, 0x00] },
        { id := .functions, payloadOffset := 16, payload := [0x01, 0x00] },
        { id := .code, payloadOffset := 20, payload := [0x01, 0x11, 0x00, 0x02, 0x40, 0x03, 0x40,
            0x41, 0x00, 0x04, 0x40, 0x01, 0x05, 0x0c, 0x02, 0x0b, 0x0b, 0x0b, 0x0b] }],
      none) := by cbv
  exact Module.parse_of_sections rfl hsections rfl rfl

private theorem compile_windingBytes : Program.compile windingBytes = .ok winding.program := by
  have hvalid : windingModule.validate = .ok () := rfl
  have hbodies : windingModule.compileBodies 0 windingModule.codes
      = .ok winding.program.bodies.toList := by cbv
  exact Program.compile_of_bodies parse_windingBytes hvalid hbodies

/-- The turns of a call of the function. -/
def windingTurns : List (Machine Budget) :=
  Machine.runHistory (winding.setting Budget.checkpoint {} 0) 10 0 []
    (Machine.start winding.store .empty { ink := 100, depth := 1 })

/-- Within the conditional there are three labels, and behind the branch none. -/
theorem winding_labels_mirror_nesting :
    Program.compile windingBytes = .ok winding.program ∧
      windingTurns.map (fun m => m.frames.items.map fun f =>
          (f.position, f.labels.map Label.target))
        = [[(0, [])], [(1, [10])], [(2, [1, 10])], [(3, [1, 10])], [(6, [8, 1, 10])], [(10, [])]] ∧
      ∀ m ∈ windingTurns, ∀ f ∈ m.frames.items, f.Labelled winding.program := by
  have hturns : windingTurns.map (fun m => m.frames.items.map fun f =>
      (f.position, f.labels.map Label.target))
      = [[(0, [])], [(1, [10])], [(2, [1, 10])], [(3, [1, 10])], [(6, [8, 1, 10])],
        [(10, [])]] := by cbv
  refine ⟨compile_windingBytes, hturns, fun m hm => ?_⟩
  unfold windingTurns at hm
  exact (labels_mirror_nesting compile_windingBytes rfl Budget.checkpoint {} 10 0 [] .empty
    { ink := 100, depth := 1 } m hm).1

end Instance

end MeteredSandbox
