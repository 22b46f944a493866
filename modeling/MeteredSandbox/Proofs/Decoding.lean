import Mathlib
import MeteredSandbox.Proofs.Words
import MeteredSandbox.Proofs.Bracketing
import MeteredSandbox.Proofs.Compiled

/-!
# Which bytes decode, and to what

Which bodies decode is said in two steps, neither of which looks at the decoder. The bytes have to
spell words (`Token.Spells`), and the words have to be balanced (`Nesting.Balanced`). Then the
result is made of these words, and every position in it is right (`Nesting.Resolved`).

The decoder keeps the open constructs on a stack, and the words that it has taken can be read off it
(`Nesting.State.words`): what it does with a word is to add it to them (`Nesting.feed_words`). The
top of the stack is the innermost construct in the sense of `Nesting.Inside`
(`Nesting.State.inside_top`), so the decoder finds a fault with a word exactly if the words are not
balanced (`Nesting.feedAll_of_balanced`). The same run shows that bracketed words are those of a
sequence (`Nesting.Bracketed.exists_seq`).
-/

namespace MeteredSandbox

namespace Nesting

/-! ### The words that have been taken -/

/-- What is put behind the words of `f` stands behind them. -/
def Extends (f : Seq → Seq) : Prop := ∀ rest : Seq, (f rest).tokens = (f .nil).tokens ++ rest.tokens

namespace Opening

/-- The word that opened the construct. -/
def mark : Opening → Token
  | block arity => .block arity
  | loop => .loop
  | ifThen arity | ifElse arity _ => .ifThen arity

/-- The words of the construct that are complete: a first arm and the `else` behind it. -/
def past : Opening → List Token
  | block _ | loop | ifThen _ => []
  | ifElse _ thenArm => thenArm.tokens ++ [.elseMark]

theorem opens_mark (o : Opening) : o.mark.Opens := by cases o <;> trivial

/-- Together with any further words of a sequence, what is complete is even. -/
theorem evened_past (o : Opening) (s : Seq) : Evened (o.past ++ s.tokens) := by
  cases o with
  | block | loop | ifThen => exact s.tokens_level.toEvened
  | ifElse arity thenArm =>
    rw [past, List.append_assoc]
    exact thenArm.tokens_level.toEvened.arms s.tokens_level.toEvened

theorem tokens_close (o : Opening) (body rest : Seq) : (o.close body rest).tokens =
    o.mark :: (o.past ++ (body.tokens ++ .endMark :: rest.tokens)) := by
  cases o with
  | block | loop | ifThen => rfl
  | ifElse arity thenArm => simp [close, Seq.tokens, mark, past]

end Opening

/-- The words of the open constructs, which are given innermost first. -/
def spine : List (Opening × (Seq → Seq)) → List Token
  | [] => []
  | (o, before) :: outer => spine outer ++ ((before .nil).tokens ++ o.mark :: o.past)

/-- **The words that a state has taken.** -/
def State.words (st : State) : List Token := spine st.opened ++ (st.current .nil).tokens

/-- What the state has built goes in front of what follows. -/
structure State.Sound (st : State) : Prop where
  current : Extends st.current
  opened : ∀ p ∈ st.opened, Extends p.2

theorem State.sound_initial : State.initial.Sound where
  current _ := rfl
  opened _ hp := absurd hp List.not_mem_nil

theorem State.words_open (st : State) (o : Opening) (h : o.past = []) :
    State.words ⟨(o, st.current) :: st.opened, id⟩ = st.words ++ [o.mark] := by
  simp [State.words, spine, h, Seq.tokens]

theorem State.Sound.open_ {st : State} (h : st.Sound) (o : Opening) :
    State.Sound ⟨(o, st.current) :: st.opened, id⟩ where
  current _ := rfl
  opened := List.forall_mem_cons.mpr ⟨h.current, h.opened⟩

/-- The innermost construct is a conditional in its first arm. -/
def State.AwaitsElse (st : State) : Prop :=
  ∃ arity before outer, st.opened = (.ifThen arity, before) :: outer

/-- **What a word does.** It is added to the words that have been taken; or it is the end of the
body, with no construct open; or it is an `else` that nothing waits for. -/
theorem feed_words {st : State} (h : st.Sound) (t : Token) :
    match feed st t with
    | .more st' => st'.Sound ∧ st'.words = st.words ++ [t]
    | .whole body => t = .endMark ∧ body.tokens = st.words
    | .stray => t = .elseMark ∧ ¬ st.AwaitsElse := by
  obtain ⟨opened, current⟩ := st
  cases t with
  | op o =>
    refine ⟨⟨fun rest => ?_, h.opened⟩, ?_⟩
    · rw [h.current, h.current (.op o .nil), List.append_assoc]
      rfl
    · simp only [State.words, h.current (.op o .nil), List.append_assoc]
      rfl
  | block arity => exact ⟨h.open_ _, State.words_open _ (.block arity) rfl⟩
  | loop => exact ⟨h.open_ _, State.words_open _ .loop rfl⟩
  | ifThen arity => exact ⟨h.open_ _, State.words_open _ (.ifThen arity) rfl⟩
  | elseMark =>
    cases opened with
    | nil => exact ⟨rfl, by rintro ⟨_, _, _, h⟩; cases h⟩
    | cons p outer =>
      obtain ⟨o, before⟩ := p
      cases o with
      | ifThen arity =>
        obtain ⟨hbefore, houter⟩ := List.forall_mem_cons.mp h.opened
        refine ⟨⟨fun _ => rfl, List.forall_mem_cons.mpr ⟨hbefore, houter⟩⟩, ?_⟩
        simp [State.words, spine, Opening.mark, Opening.past, Seq.tokens]
      | block | loop | ifElse => exact ⟨rfl, by rintro ⟨_, _, _, h⟩; cases h⟩
  | endMark =>
    cases opened with
    | nil => exact ⟨rfl, rfl⟩
    | cons p outer =>
      obtain ⟨o, before⟩ := p
      obtain ⟨hbefore, houter⟩ := List.forall_mem_cons.mp h.opened
      -- the construct and the words in front of it are now the words of one sequence
      refine ⟨⟨fun rest => ?_, houter⟩, ?_⟩
      · simp [hbefore (o.close _ _), Opening.tokens_close, Seq.tokens]
      · simp [State.words, spine, hbefore (o.close _ _), Opening.tokens_close, Seq.tokens]

/-- **What a list of words does**, by induction on it. -/
theorem feedAll_words {st : State} (h : st.Sound) (words : List (Nat × Token)) :
    match feedAll st words with
    | .whole body left => left <:+ words ∧
        st.words ++ words.map Prod.snd = body.tokens ++ .endMark :: left.map Prod.snd
    | .stray _ => ∃ st' : State, ∃ left, ¬ st'.AwaitsElse ∧
        st.words ++ words.map Prod.snd = st'.words ++ .elseMark :: left
    | .unfinished => ∃ st' : State, st.words ++ words.map Prod.snd = st'.words := by
  induction words generalizing st with
  | nil => exact ⟨st, List.append_nil _⟩
  | cons p words ih =>
    obtain ⟨offset, t⟩ := p
    have hfeed := feed_words h t
    rw [feedAll, List.map_cons]
    cases hr : feed st t with
    | more st' =>
      rw [hr] at hfeed
      obtain ⟨hsound, hwords⟩ := hfeed
      have hrun := ih hsound
      rw [hwords, List.append_assoc, List.singleton_append] at hrun
      dsimp only
      cases hall : feedAll st' words with
      | whole body left =>
        rw [hall] at hrun
        exact ⟨hrun.1.trans (List.suffix_cons _ _), hrun.2⟩
      | stray | unfinished =>
        rw [hall] at hrun
        exact hrun
    | whole body =>
      rw [hr] at hfeed
      obtain ⟨rfl, htokens⟩ := hfeed
      exact ⟨List.suffix_cons _ _, by rw [htokens]⟩
    | stray =>
      rw [hr] at hfeed
      obtain ⟨rfl, hstray⟩ := hfeed
      exact ⟨st, words.map Prod.snd, hstray, rfl⟩

/-- What a list of words does from the beginning. -/
theorem feedAll_initial_words (words : List (Nat × Token)) :
    match feedAll .initial words with
    | .whole body left => left <:+ words ∧
        words.map Prod.snd = body.tokens ++ .endMark :: left.map Prod.snd
    | .stray _ => ∃ st : State, ∃ left, ¬ st.AwaitsElse ∧
        words.map Prod.snd = st.words ++ .elseMark :: left
    | .unfinished => ∃ st : State, words.map Prod.snd = st.words :=
  feedAll_words State.sound_initial words

/-! ### The stack and the brackets -/

/-- Where words that are level end, no construct is open. -/
theorem Evened.not_inside {ts : List Token} (h : Evened ts) (post : List Token) (j : Nat) :
    ¬ Inside (ts ++ post) j ts.length := by
  intro hin
  have hinnermost := hin.innermost
  have hnonneg := h.nonneg j
  rw [depth_append_left _ le_rfl, depth_length, h.rise_eq,
    depth_append_left _ hin.before.le] at hinnermost
  omega

namespace State

variable {st : State}

theorem words_outermost (h : st.opened = []) : st.words = (st.current .nil).tokens := by
  rw [words, h]
  rfl

/-- As many constructs are open as the stack has. -/
theorem rise_words (st : State) : rise st.words = st.opened.length := by
  have hspine : ∀ opened, rise (spine opened) = opened.length := fun opened => by
    induction opened with
    | nil => rfl
    | cons p outer ih =>
      obtain ⟨o, before⟩ := p
      have hpast : rise o.past = 0 := by
        have := (o.evened_past .nil).rise_eq
        rwa [Seq.tokens, List.append_nil] at this
      rw [spine, rise_append, rise_append, rise_cons, ih, (before .nil).tokens_level.rise_eq,
        o.opens_mark.rise_eq, hpast, List.length_cons]
      omega
  rw [words, rise_append, hspine, (st.current .nil).tokens_level.rise_eq, add_zero]

/-- **The top of the stack is the innermost construct** where the words that have been taken end,
and if it is past its `else`, then this is one of them. -/
theorem inside_top {o : Opening} {before : Seq → Seq} {outer : List (Opening × (Seq → Seq))}
    (h : st.opened = (o, before) :: outer) (post : List Token) :
    ∃ j, (st.words ++ post)[j]? = some o.mark ∧ Inside (st.words ++ post) j st.words.length ∧
      ∀ arity thenArm, o = .ifElse arity thenArm →
        ∃ k < st.words.length, ElseOf (st.words ++ post) j k := by
  let pre := spine outer ++ (before .nil).tokens
  let inner := o.past ++ (st.current .nil).tokens
  have hwords : st.words = pre ++ o.mark :: inner := by
    simp [words, h, spine, pre, inner]
  have hlength : st.words.length = pre.length + (inner.length + 1) := by
    rw [hwords, List.length_append, List.length_cons]
  have hwhole : st.words ++ post = pre ++ o.mark :: (inner ++ post) := by
    rw [hwords, List.append_assoc, List.cons_append]
  have heven : Evened inner := o.evened_past _
  rw [hwhole, hlength]
  refine ⟨pre.length, by simp, ?_, ?_⟩
  · rw [inside_iff_of_evened _ _ o.opens_mark heven le_rfl, depth_length, heven.rise_eq]
  · rintro arity thenArm rfl
    have hinner : inner = thenArm.tokens ++ .elseMark :: (st.current .nil).tokens := by
      simp [inner, Opening.past]
    have hlt : thenArm.tokens.length < inner.length := by
      rw [hinner]
      simp
    refine ⟨pre.length + (thenArm.tokens.length + 1), by omega, ?_, ?_⟩
    · rw [hinner]
      simp
    · rw [inside_iff_of_evened _ _ (Opening.opens_mark _) heven hlt.le, hinner,
        depth_append_left _ le_rfl, depth_length, thenArm.tokens_level.rise_eq]

/-- A conditional that is the innermost construct, and has no `else` so far, waits for one. -/
theorem awaitsElse_of_inside {post : List Token} {j arity : Nat}
    (hj : (st.words ++ post)[j]? = some (.ifThen arity))
    (hin : Inside (st.words ++ post) j st.words.length)
    (hfirst : ∀ k < st.words.length, ¬ ElseOf (st.words ++ post) j k) : st.AwaitsElse := by
  cases hopened : st.opened with
  | nil =>
    rw [words_outermost hopened] at hin
    exact ((st.current .nil).tokens_level.toEvened.not_inside post j hin).elim
  | cons p outer =>
    obtain ⟨o, before⟩ := p
    obtain ⟨j', hmark, hin', helse⟩ := inside_top hopened post
    obtain rfl := hin.unique hin'
    cases o with
    | ifThen arity' => exact ⟨arity', before, outer, hopened⟩
    | ifElse arity' thenArm =>
      obtain ⟨k, hlt, helse⟩ := helse arity' thenArm rfl
      exact (hfirst k hlt helse).elim
    | block arity' =>
      rw [hj] at hmark
      cases hmark
    | loop =>
      rw [hj] at hmark
      cases hmark

end State

/-- **Balanced words are taken for a body** that they are the words of, and nothing is left. -/
theorem feedAll_of_balanced {words : List (Nat × Token)} (h : Balanced (words.map Prod.snd)) :
    ∃ body, feedAll .initial words = .whole body [] ∧
      words.map Prod.snd = body.tokens ++ [.endMark] := by
  have hrun := feedAll_initial_words words
  cases hall : feedAll .initial words with
  | whole body left =>
    rw [hall] at hrun
    obtain ⟨-, hwords⟩ := hrun
    rw [hwords] at h
    -- the end of the body is at depth 0, so it is the last word
    have hlast := (h.outermost body.tokens.length (by simp)).mp (by
      rw [depth_append_left _ le_rfl, depth_length, body.tokens_level.rise_eq])
    obtain rfl : left = [] := by simpa using hlast
    exact ⟨body, rfl, hwords⟩
  | stray offset =>
    rw [hall] at hrun
    obtain ⟨st, left, hstray, hwords⟩ := hrun
    rw [hwords] at h
    obtain ⟨j, arity, hj, hin, hfirst⟩ := h.elses st.words.length (by simp)
    exact (hstray (State.awaitsElse_of_inside hj hin hfirst)).elim
  | unfinished =>
    rw [hall] at hrun
    obtain ⟨st, hwords⟩ := hrun
    rw [hwords] at h
    -- the last word is an end at depth 0, but there is nothing that it could end
    have hlast := h.last
    rw [List.getLast?_eq_getElem?] at hlast
    have hpos : 0 < st.words.length := by
      obtain ⟨hlt, -⟩ := List.getElem?_eq_some_iff.mp hlast
      omega
    have hzero := (h.outermost _ hlast).mpr (by omega)
    have hpast := depth_succ hlast
    rw [hzero, Nat.sub_add_cancel hpos, depth_length, State.rise_words] at hpast
    have hrise : Token.endMark.rise = -1 := rfl
    omega

/-- **Bracketed words are those of a sequence.** -/
theorem Bracketed.exists_seq {ws : List Token} (h : Bracketed ws) : ∃ s : Seq, s.tokens = ws := by
  -- the offsets of the words do not matter here
  obtain ⟨words, rfl⟩ : ∃ words : List (Nat × Token), words.map Prod.snd = ws :=
    ⟨ws.map (0, ·), by simp⟩
  have hrun := feedAll_initial_words words
  cases hall : feedAll .initial words with
  | whole body left =>
    rw [hall] at hrun
    rw [hrun.2] at h
    obtain ⟨j, hend⟩ := h.paired body.tokens.length .endMark (by simp)
    exact (body.tokens_level.toEvened.not_inside _ j hend.inside).elim
  | stray offset =>
    rw [hall] at hrun
    obtain ⟨st, left, hstray, hwords⟩ := hrun
    rw [hwords] at h
    obtain ⟨j, arity, hj, helse⟩ := h.paired st.words.length .elseMark (by simp)
    refine (hstray (State.awaitsElse_of_inside hj helse.inside fun k hlt hearlier => ?_)).elim
    exact hlt.ne (h.oneElse j k _ hearlier helse)
  | unfinished =>
    rw [hall] at hrun
    obtain ⟨st, hwords⟩ := hrun
    rw [hwords] at h ⊢
    cases hopened : st.opened with
    | nil => exact ⟨_, (State.words_outermost hopened).symm⟩
    | cons p outer =>
      -- a construct that is open at the end of the words has no end among them
      obtain ⟨o, before⟩ := p
      obtain ⟨j, hmark, hin, -⟩ := State.inside_top hopened []
      rw [List.append_nil] at hmark hin
      obtain ⟨e, hend⟩ : ∃ e, EndOf st.words j e := by
        have hpaired := h.paired j _ hmark
        cases o <;> exact hpaired
      obtain ⟨hlt, -⟩ := List.getElem?_eq_some_iff.mp hend.mark
      exact absurd (hend.le_of_inside hin) (by omega)

end Nesting

/-! ### Bodies -/

namespace Seq

open Nesting Token

variable {bytes : List UInt8} {s : Seq} {ws : List Token}

/-- **What decodes spells the bytes**, all of them. -/
theorem spells_of_decode (h : decode bytes = .ok s) :
    Token.Spells (s.tokens ++ [.endMark]) bytes := by
  have hrun := feedAll_initial_words (scan (.start bytes)).1
  unfold decode at h
  dsimp only at h
  cases hall : feedAll .initial (scan (.start bytes)).1 with
  | stray offset =>
    rw [hall] at h
    cases h
  | unfinished =>
    rw [hall] at h
    cases h
  | whole body left =>
    rw [hall] at h hrun
    obtain ⟨hleft, hwords⟩ := hrun
    dsimp only at h
    split at h
    next hend =>
      cases h
      obtain ⟨used, unused, hbytes, hspells, hstop⟩ := scan_spells (.start bytes)
      rw [hwords] at hspells
      have hlength : bytes.length = used.length + unused.length := by
        rw [← List.length_append, ← hbytes]
        rfl
      have hstop : (scan (.start bytes)).2.1 = used.length := hstop.trans (Nat.zero_add _)
      cases left with
      | cons p left =>
        -- a word behind the end begins before the end of the bytes
        have hlt := scan_offset_lt (.start bytes) p (hleft.subset List.mem_cons_self)
        have hnext : p.1 = bytes.length := hend
        have : (Cursor.start bytes).offset + (Cursor.start bytes).rest.length = bytes.length :=
          Nat.zero_add _
        omega
      | nil =>
        have hnext : (scan (.start bytes)).2.1 = bytes.length := hend
        obtain rfl : unused = [] := List.length_eq_zero_iff.mp (by omega)
        have hall : bytes = used := hbytes.trans (List.append_nil used)
        rwa [hall]
    next => cases h

/-- **Balanced words that spell the bytes** decode. -/
theorem exists_decode (hspells : Token.Spells ws bytes) (hbalanced : Balanced ws)
    (hroom : bytes.length < 0x1_0000_0000_0000_0000) :
    ∃ s, decode bytes = .ok s ∧ ws = s.tokens ++ [.endMark] := by
  obtain ⟨hwords, hstop⟩ := hspells.scan_eq 0 (by omega)
  rw [← hwords] at hbalanced
  obtain ⟨body, hall, htokens⟩ := feedAll_of_balanced hbalanced
  refine ⟨body, ?_, hwords.symm.trans htokens⟩
  unfold decode
  dsimp only
  rw [show Cursor.start bytes = ⟨0, bytes⟩ from rfl, hall]
  dsimp only
  rw [if_pos (by simpa using hstop)]

end Seq

/-- **Decoding.** A body decodes exactly if its bytes are the encodings of some instructions, one
after another, that are balanced: the last is an end and the only end at depth 0, and each `else`
stands directly in a conditional that has no `else` before it. The result is made of these
instructions, and it is resolved: every block, every conditional and every `else` has the right
position of its end, and every conditional that of its `else`. -/
theorem decodeBody_eq_ok_iff_balanced (func : Nat) {bytes : List UInt8}
    (hshort : bytes.length < 0x1_0000_0000) :
    ((∃ out, decodeBody func bytes = .ok out) ↔
      ∃ ws, Token.Spells ws bytes ∧ Nesting.Balanced ws) ∧
    (∀ out, decodeBody func bytes = .ok out ↔ Token.Spells (out.map Instr.token) bytes ∧
      Nesting.Balanced (out.map Instr.token) ∧ Nesting.Resolved out) ∧
    ∀ ws out, Token.Spells ws bytes → decodeBody func bytes = .ok out →
      out.map Instr.token = ws := by
  have hsound : ∀ out, decodeBody func bytes = .ok out → Token.Spells (out.map Instr.token) bytes ∧
      Nesting.Balanced (out.map Instr.token) ∧ Nesting.Resolved out := by
    intro out h
    obtain ⟨tree, htree, rfl⟩ := decodeBody_eq_ok h
    rw [Seq.map_token_code]
    exact ⟨Seq.spells_of_decode htree, tree.balanced_tokens, tree.resolved_code⟩
  have hcomplete : ∀ ws, Token.Spells ws bytes → Nesting.Balanced ws →
      ∃ tree : Seq, decodeBody func bytes = .ok tree.code ∧ tree.code.map Instr.token = ws := by
    intro ws hspells hbalanced
    obtain ⟨tree, htree, rfl⟩ := Seq.exists_decode hspells hbalanced (by omega)
    refine ⟨tree, ?_, tree.map_token_code⟩
    unfold decodeBody
    rw [htree]
  refine ⟨⟨?_, ?_⟩, fun out => ⟨hsound out, ?_⟩, fun ws out hspells h => ?_⟩
  · rintro ⟨out, h⟩
    exact ⟨_, (hsound out h).1, (hsound out h).2.1⟩
  · rintro ⟨ws, hspells, hbalanced⟩
    obtain ⟨tree, h, -⟩ := hcomplete ws hspells hbalanced
    exact ⟨tree.code, h⟩
  · rintro ⟨hspells, hbalanced, hresolved⟩
    obtain ⟨tree, h, hwords⟩ := hcomplete _ hspells hbalanced
    rw [h, hresolved.unique tree.resolved_code hwords.symm]
  · -- spelled bytes have only one reading
    have hout := (hsound out h).1.scan_eq 0 (by omega)
    exact hout.1.symm.trans (hspells.scan_eq 0 (by omega)).1

/-- A conditional with two arms: its bytes spell its instructions, and these know where the `else`
and the end are. -/
theorem decodeBody_conditional :
    let bytes := [0x41, 0x00, 0x04, 0x7F, 0x41, 0x01, 0x05, 0x41, 0x02, 0x0B, 0x0B]
    let out : List Instr := [.op (.const (.i32 0)), .ifThen 1 (some 3) 5, .op (.const (.i32 1)),
      .elseJump 5, .op (.const (.i32 2)), .endMark, .endMark]
    bytes.length < 0x1_0000_0000 ∧ decodeBody 0 bytes = .ok out ∧
      Token.Spells (out.map Instr.token) bytes ∧ Nesting.Balanced (out.map Instr.token) ∧
      Nesting.Resolved out := by
  intro bytes out
  have hshort : bytes.length < 0x1_0000_0000 := by decide
  have hout : decodeBody 0 bytes = .ok out := by cbv
  exact ⟨hshort, hout, ((decodeBody_eq_ok_iff_balanced 0 hshort).2.1 out).mp hout⟩

end MeteredSandbox
