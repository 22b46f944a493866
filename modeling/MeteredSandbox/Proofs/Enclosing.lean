import Mathlib
import MeteredSandbox.Proofs.Bracketing

/-!
# The constructs around a position

A construct reaches from behind the word that opens it up to its end, and encloses the positions
there (`Nesting.Encloses`). Constructs are nested (`Nesting.EndOf.nested`), so those that enclose a
position form a list, innermost first, with the positions of their openings descending
(`Nesting.Around`).

How this list changes from one position to another is all that control flow has to know. Where `j`
opens the innermost construct around a position, the list is that in front of `j` with `j` in front
(`Nesting.Around.inside`): this covers going past an opening, and going to an `else` and from it to
the end. Behind the end of a construct it is the same as in front of its opening
(`Nesting.Around.past`), whether the construct is skipped or left. And what lies outside of a
construct in the list is the list in front of its opening (`Nesting.Around.outward`), which is where
branches out of several constructs lead.

In a whole body (`Nesting.Complete`) every construct has an end, and an end is that of the innermost
construct around it (`Nesting.Around.endOf`), unless it is the last word, which nothing is around
(`Nesting.Around.last`).
-/

namespace MeteredSandbox

namespace Nesting

/-! ### Nested constructs -/

/-- The construct that word `j` opens **encloses** position `i`: it stands behind the opening, and
not behind the end. -/
def Encloses (ws : List Token) (j i : Nat) : Prop := ∃ e, EndOf ws j e ∧ j < i ∧ i ≤ e

section Nested

variable {ws : List Token} {i j k e e' : Nat}

/-- An opening is no end. -/
theorem EndOf.opening_ne_end (h : EndOf ws j e) (h' : EndOf ws k e') : j ≠ e' := by
  rintro rfl
  obtain ⟨t, hword, hopens⟩ := h.inside.opens
  obtain rfl : Token.endMark = t := Option.some.inj (h'.mark.symm.trans hword)
  exact hopens

/-- Behind its end the depth is what it was in front of a construct. -/
theorem EndOf.depth_succ (h : EndOf ws j e) : depth ws (e + 1) = depth ws j := by
  have hrise : Token.endMark.rise = -1 := rfl
  have hinnermost := h.inside.innermost
  rw [Nesting.depth_succ h.mark, hrise, hinnermost]
  omega

/-- **Constructs are nested**: what is opened in one has its end before it. -/
theorem EndOf.nested (h : EndOf ws k e') (h' : EndOf ws j e) (hlt : k < j) (hle : j ≤ e') :
    e < e' := by
  have hbefore : depth ws k < depth ws j := h.inside.deeper j hlt hle
  rcases Nat.lt_trichotomy e e' with hlt' | rfl | hgt
  · exact hlt'
  · exact absurd (h.inside.unique h'.inside) hlt.ne
  · -- behind its end the outer construct would still be inside of the inner one
    have hin : j < e' := Nat.lt_of_le_of_ne hle (h'.opening_ne_end h)
    have hdeeper := h'.inside.deeper (e' + 1) (by omega) (by omega)
    rw [h.depth_succ] at hdeeper
    omega

theorem Encloses.lt (h : Encloses ws j i) : j < i := h.choose_spec.2.1

theorem Encloses.trans (h : Encloses ws k j) (h' : Encloses ws j i) : Encloses ws k i := by
  obtain ⟨e', hk, hkj, hje'⟩ := h
  obtain ⟨e, hj, hji, hie⟩ := h'
  have := hk.nested hj hkj hje'
  exact ⟨e', hk, by omega, by omega⟩

/-- A construct encloses all positions from its opening to one that it encloses. -/
theorem Encloses.of_le (h : Encloses ws k i) (hlt : k < j) (hle : j ≤ i) : Encloses ws k j := by
  obtain ⟨e', hk, -, hie'⟩ := h
  exact ⟨e', hk, hlt, hle.trans hie'⟩

theorem Inside.encloses (h : Inside ws j i) (hend : EndOf ws j e) : Encloses ws j i :=
  ⟨e, hend, h.before, hend.le_of_inside h⟩

/-- No construct around a position is opened behind the innermost one. -/
theorem Inside.le_of_encloses (h : Inside ws j i) (h' : Encloses ws k i) : k ≤ j := by
  obtain ⟨e, hk, hki, hie⟩ := h'
  by_contra hlt
  -- otherwise the position would be two levels deeper than the innermost opening
  have hinner : depth ws j < depth ws k := h.deeper k (by omega) hki.le
  have houter : depth ws k < depth ws i := hk.inside.deeper i hki hie
  have := h.innermost
  omega

/-- Going past an opening is going into the construct. -/
theorem inside_succ {t : Token} (h : ws[j]? = some t) (hopens : t.Opens) :
    Inside ws j (j + 1) := by
  have hdepth : depth ws (j + 1) = depth ws j + 1 := by rw [depth_succ h, hopens.rise_eq]
  refine ⟨⟨t, h, hopens⟩, Nat.lt_succ_self j, fun k hlt hle => ?_, hdepth⟩
  obtain rfl : k = j + 1 := by omega
  omega

/-- Behind an `else` one is in the same construct as before. -/
theorem ElseOf.inside_succ (h : ElseOf ws j k) : Inside ws j (k + 1) := by
  have hbefore := h.inside.before
  have hdepth : depth ws (k + 1) = depth ws j + 1 := by
    rw [depth_succ h.mark, h.inside.innermost]
    exact add_zero _
  refine ⟨h.inside.opens, by omega, fun i hlt hle => ?_, hdepth⟩
  rcases Nat.lt_or_ge k i with hgt | hle'
  · obtain rfl : i = k + 1 := by omega
    omega
  · exact h.inside.deeper i hlt hle'

/-- The constructs around a position are the innermost one and those around its opening. -/
theorem Inside.encloses_iff (h : Inside ws j i) (hend : EndOf ws j e) :
    Encloses ws k i ↔ k = j ∨ Encloses ws k j := by
  constructor
  · intro hk
    rcases (h.le_of_encloses hk).eq_or_lt with rfl | hlt
    · exact .inl rfl
    · exact .inr (hk.of_le hlt h.before.le)
  · rintro (rfl | hk)
    · exact h.encloses hend
    · exact hk.trans (h.encloses hend)

/-- The constructs around the position behind an end are those around the opening. -/
theorem EndOf.encloses_succ_iff (h : EndOf ws j e) :
    Encloses ws k (e + 1) ↔ Encloses ws k j := by
  constructor
  · rintro ⟨e', hk, hlt, hle⟩
    have hke : k ≠ e := hk.opening_ne_end h
    have hkj : k ≠ j := by
      rintro rfl
      have := hk.unique h
      omega
    rcases Nat.lt_or_gt_of_ne hkj with hlt' | hgt
    · exact ⟨e', hk, hlt', by have := h.inside.before; omega⟩
    · -- what is opened within the construct does not reach behind its end
      have := h.nested hk hgt (by omega)
      omega
  · rintro ⟨e', hk, hlt, hle⟩
    have hin := h.inside.before
    have := hk.nested h hlt hle
    exact ⟨e', hk, by omega, by omega⟩

/-- Going past a word that neither opens a construct nor ends one. -/
theorem encloses_succ_iff {t : Token} (h : ws[i]? = some t) (hopens : ¬ t.Opens)
    (hend : t ≠ .endMark) : Encloses ws k (i + 1) ↔ Encloses ws k i := by
  constructor
  · rintro ⟨e, hk, hlt, hle⟩
    -- the word is not the opening that would be new behind it
    have hki : k ≠ i := by
      rintro rfl
      obtain ⟨t', hword, hopens'⟩ := hk.inside.opens
      obtain rfl : t = t' := Option.some.inj (h.symm.trans hword)
      exact hopens hopens'
    exact ⟨e, hk, by omega, by omega⟩
  · rintro ⟨e, hk, hlt, hle⟩
    -- nor the end that would be behind
    have hei : e ≠ i := by
      rintro rfl
      exact hend (Option.some.inj (h.symm.trans hk.mark))
    exact ⟨e, hk, by omega, by omega⟩

end Nested

/-! ### The list of constructs -/

/-- The words `js` open the constructs **around** position `i`: all of them, innermost first. -/
structure Around (ws : List Token) (i : Nat) (js : List Nat) : Prop where
  descending : js.Pairwise (· > ·)
  mem_iff : ∀ j, j ∈ js ↔ Encloses ws j i

namespace Around

variable {ws : List Token} {i j e : Nat} {js : List Nat}

/-- Nothing is around the first word. -/
theorem zero (ws : List Token) : Around ws 0 [] where
  descending := .nil
  mem_iff j := iff_of_false List.not_mem_nil fun h => Nat.not_lt_zero j h.lt

theorem congr {i' : Nat} (h : ∀ k, Encloses ws k i ↔ Encloses ws k i') (hjs : Around ws i js) :
    Around ws i' js where
  descending := hjs.descending
  mem_iff k := (hjs.mem_iff k).trans (h k)

/-- Around a position are the innermost construct and what is around that. -/
theorem inside (hjs : Around ws j js) (h : Inside ws j i) (hend : EndOf ws j e) :
    Around ws i (j :: js) where
  descending := List.pairwise_cons.mpr ⟨fun k hk => ((hjs.mem_iff k).mp hk).lt, hjs.descending⟩
  mem_iff k := by rw [List.mem_cons, hjs.mem_iff, h.encloses_iff hend]

/-- Behind the end of a construct there is around a position what was there in front of it. -/
theorem past (hjs : Around ws j js) (h : EndOf ws j e) : Around ws (e + 1) js :=
  hjs.congr fun _ => h.encloses_succ_iff.symm

/-- What is further out than a construct in the list is around its opening. -/
theorem outward (inner : List Nat) (hjs : Around ws i (inner ++ j :: js)) : Around ws j js := by
  obtain ⟨-, hdescending, hinner⟩ := List.pairwise_append.mp hjs.descending
  obtain ⟨hlt, hdescending⟩ := List.pairwise_cons.mp hdescending
  have hj : Encloses ws j i :=
    (hjs.mem_iff j).mp (List.mem_append_right _ List.mem_cons_self)
  refine ⟨hdescending, fun k => ⟨fun hk => ?_, fun hk => ?_⟩⟩
  · have hki : Encloses ws k i :=
      (hjs.mem_iff k).mp (List.mem_append_right _ (List.mem_cons_of_mem _ hk))
    exact hki.of_le (hlt k hk) hj.lt.le
  · -- it is somewhere in the list, and further out than `j`
    rcases List.mem_append.mp ((hjs.mem_iff k).mpr (hk.trans hj)) with hmem | hmem
    · exact absurd hk.lt (hinner k hmem j List.mem_cons_self).not_gt
    · exact (List.mem_cons.mp hmem).resolve_left hk.lt.ne

end Around

/-! ### Complete words -/

/-- **Complete words**, those of a whole body: every construct has an end, every end but the last
word belongs to a construct, and the last word is an end that belongs to none. -/
structure Complete (ws : List Token) : Prop where
  exists_end : ∀ j t, ws[j]? = some t → t.Opens → ∃ e, EndOf ws j e
  end_cases : ∀ i, ws[i]? = some .endMark → (∃ j, EndOf ws j i) ∨ i + 1 = ws.length
  end_lt : ∀ j e, EndOf ws j e → e + 1 < ws.length
  last : ws.getLast? = some .endMark

theorem Complete.pos {ws : List Token} (h : Complete ws) : 0 < ws.length :=
  List.length_pos_of_mem (List.mem_of_getLast? h.last)

/-- What is not an end is not the last word. -/
theorem Complete.succ_lt {ws : List Token} (h : Complete ws) {i : Nat} {t : Token}
    (hword : ws[i]? = some t) (ht : t ≠ .endMark) : i + 1 < ws.length := by
  obtain ⟨hlt, -⟩ := List.getElem?_eq_some_iff.mp hword
  refine Nat.lt_of_le_of_ne hlt fun hlast => ht ?_
  have hend := h.last
  rw [List.getLast?_eq_getElem?, ← hlast, Nat.add_sub_cancel, hword] at hend
  exact Option.some.inj hend

namespace Around

variable {ws : List Token} {i j : Nat} {js : List Nat} (hws : Complete ws)
include hws

/-- An end belongs to the innermost construct around it. -/
theorem endOf (hjs : Around ws i (j :: js)) (h : ws[i]? = some .endMark) : EndOf ws j i := by
  obtain ⟨e, hj, hji, hie⟩ := (hjs.mem_iff j).mp List.mem_cons_self
  rcases hws.end_cases i h with ⟨k, hk⟩ | hlast
  · rcases List.mem_cons.mp ((hjs.mem_iff k).mpr (hk.inside.encloses hk)) with rfl | hmem
    · exact hk
    · -- what is opened within the construct has its end before it
      have hlt : k < j := (List.pairwise_cons.mp hjs.descending).1 k hmem
      have := hk.nested hj hlt hji.le
      omega
  · have := hws.end_lt j e hj
    omega

/-- An end that nothing is around is the last word. -/
theorem last (hjs : Around ws i []) (h : ws[i]? = some .endMark) : i + 1 = ws.length := by
  rcases hws.end_cases i h with ⟨k, hk⟩ | hlast
  · exact absurd ((hjs.mem_iff k).mpr (hk.inside.encloses hk)) List.not_mem_nil
  · exact hlast

end Around

end Nesting

/-- **The words of a body are complete.** -/
theorem Seq.complete_words (s : Seq) : Nesting.Complete (s.tokens ++ [.endMark]) where
  exists_end j t h hopens := by
    rcases s.word_cases h with hword | ⟨-, rfl⟩
    · have hpaired := s.paired_tokens [.endMark] hword
      cases t with
      | block | loop | ifThen => exact hpaired
      | op | elseMark | endMark => exact hopens.elim
    · exact hopens.elim
  end_cases i h := by
    rcases s.word_cases h with hword | ⟨rfl, -⟩
    · exact .inl (s.paired_tokens [.endMark] hword)
    · exact .inr (by simp)
  end_lt j e h := by
    obtain ⟨hlt, -⟩ := List.getElem?_eq_some_iff.mp h.mark
    refine Nat.lt_of_le_of_ne hlt fun hlast => ?_
    -- nothing is open at the last word, so the depth would be negative at the opening
    have hzero := (s.balanced_tokens.outermost e h.mark).mpr hlast
    have hle : j ≤ s.tokens.length := by
      have := h.inside.before
      rw [List.length_append, List.length_singleton] at hlast
      omega
    have hnonneg := s.tokens_level.nonneg j
    rw [← Nesting.depth_append_left [.endMark] hle] at hnonneg
    have := h.inside.innermost
    omega
  last := s.balanced_tokens.last

end MeteredSandbox
