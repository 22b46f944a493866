import Mathlib
import MeteredSandbox.Code.Nesting

/-!
# Brackets

Seen from the words alone, a body is a string of brackets: the words that open a construct are the
opening ones, and the ends are the closing ones. The **depth** at a position is the number of
constructs that are open there (`Nesting.depth`), and from it alone one can say which construct is
the innermost around a position (`Nesting.Inside`), which end belongs to it (`Nesting.EndOf`) and
which `else` (`Nesting.ElseOf`).

In these terms there are two ways to say that words are properly bracketed. A whole body is
**balanced** (`Nesting.Balanced`) if it ends with the only end at depth 0 and every `else` is the
first of its conditional. The words in front of that end are **bracketed** (`Nesting.Bracketed`) if
openings and ends belong to each other and each conditional has one `else` at most.

The words of a sequence are both. All that is needed for this is that they are **level**
(`Nesting.Level`): the depth comes back to where it was and never falls below, and any `else` among
them is deeper than they are. The end of a construct with level parts is then found wherever the
construct stands, and so is its `else` (`Nesting.endOf_of_evened`, `Nesting.elseOf_iff_of_evened`).
Hence in the flat form of a sequence every instruction knows the right positions (`Seq.fits`,
`Seq.resolved_code`).
-/

namespace MeteredSandbox

/-! ### Depth -/

namespace Token

/-- What a word does to the depth. -/
def rise : Token → Int
  | block _ | loop | ifThen _ => 1
  | op _ | elseMark => 0
  | endMark => -1

/-- The word opens a construct. -/
def Opens : Token → Prop
  | block _ | loop | ifThen _ => True
  | op _ | elseMark | endMark => False

theorem Opens.rise_eq {t : Token} (h : t.Opens) : t.rise = 1 := by
  cases t with
  | block | loop | ifThen => rfl
  | op | elseMark | endMark => exact h.elim

end Token

namespace Nesting

/-- The number of constructs that some words open and do not end. -/
def rise : List Token → Int
  | [] => 0
  | t :: ts => t.rise + rise ts

@[simp] theorem rise_nil : rise [] = 0 := rfl

@[simp] theorem rise_cons (t : Token) (ts : List Token) : rise (t :: ts) = t.rise + rise ts := rfl

@[simp] theorem rise_append (ts us : List Token) : rise (ts ++ us) = rise ts + rise us := by
  induction ts with
  | nil => simp
  | cons t ts ih => rw [List.cons_append, rise_cons, rise_cons, ih, add_assoc]

/-- The **depth** in front of position `i`: how many constructs are open there. -/
def depth (ws : List Token) (i : Nat) : Int := rise (ws.take i)

@[simp] theorem depth_length (ws : List Token) : depth ws ws.length = rise ws := by
  rw [depth, List.take_length]

theorem depth_append_left {ts : List Token} (us : List Token) {i : Nat} (h : i ≤ ts.length) :
    depth (ts ++ us) i = depth ts i := by
  rw [depth, List.take_append_of_le_length h, depth]

theorem depth_append_right (ts us : List Token) (i : Nat) :
    depth (ts ++ us) (ts.length + i) = rise ts + depth us i := by
  rw [depth, List.take_length_add_append, rise_append, depth]

theorem depth_cons_succ (t : Token) (ts : List Token) (i : Nat) :
    depth (t :: ts) (i + 1) = t.rise + depth ts i := rfl

/-- Going past a word. -/
theorem depth_succ {ws : List Token} {i : Nat} {t : Token} (h : ws[i]? = some t) :
    depth ws (i + 1) = depth ws i + t.rise := by
  obtain ⟨hlt, rfl⟩ := List.getElem?_eq_some_iff.mp h
  rw [depth, List.take_succ_eq_append_getElem hlt, rise_append, rise_cons, rise_nil, add_zero,
    depth]

/-! ### Constructs and their marks -/

/-- **The innermost construct** around position `i` is the one that word `j` opens: since then the
depth has not come back to what it was before, and now it is one more. -/
structure Inside (ws : List Token) (j i : Nat) : Prop where
  opens : ∃ t, ws[j]? = some t ∧ t.Opens
  before : j < i
  deeper : ∀ k, j < k → k ≤ i → depth ws j < depth ws k
  innermost : depth ws i = depth ws j + 1

/-- Word `e` is the end of the construct that word `j` opens. -/
structure EndOf (ws : List Token) (j e : Nat) : Prop where
  mark : ws[e]? = some .endMark
  inside : Inside ws j e

/-- Word `k` is an `else` that stands directly in the construct that word `j` opens. -/
structure ElseOf (ws : List Token) (j k : Nat) : Prop where
  mark : ws[k]? = some .elseMark
  inside : Inside ws j k

/-- **A balanced body**: its last word is an end, the only one at depth 0, and every `else` stands
directly in a conditional that has no `else` before it. -/
structure Balanced (ws : List Token) : Prop where
  last : ws.getLast? = some .endMark
  outermost : ∀ i, ws[i]? = some .endMark → (depth ws i = 0 ↔ i + 1 = ws.length)
  elses : ∀ i, ws[i]? = some .elseMark → ∃ j arity, ws[j]? = some (.ifThen arity) ∧
    Inside ws j i ∧ ∀ k < i, ¬ ElseOf ws j k

/-- **What belongs to a word** at position `n` is there: an end for an opening, an opening for an
end, and a conditional that an `else` stands directly in. -/
def Paired (ws : List Token) (n : Nat) : Token → Prop
  | .op _ => True
  | .block _ | .loop | .ifThen _ => ∃ e, EndOf ws n e
  | .elseMark => ∃ j arity, ws[j]? = some (.ifThen arity) ∧ ElseOf ws j n
  | .endMark => ∃ j, EndOf ws j n

/-- **Bracketed words**: what belongs to each of them is there, and no construct has two `else`s. -/
structure Bracketed (ws : List Token) : Prop where
  paired : ∀ i t, ws[i]? = some t → Paired ws i t
  oneElse : ∀ j k k', ElseOf ws j k → ElseOf ws j k' → k = k'

section Unique

variable {ws : List Token} {i j j' : Nat}

/-- There is only one innermost construct. -/
theorem Inside.unique (h : Inside ws j i) (h' : Inside ws j' i) : j = j' := by
  have hdepth : depth ws j = depth ws j' := by
    have := h.innermost
    have := h'.innermost
    omega
  rcases Nat.lt_trichotomy j j' with hlt | heq | hlt
  · have := h.deeper j' hlt h'.before.le
    omega
  · exact heq
  · have := h'.deeper j hlt h.before.le
    omega

/-- Nothing behind its end is in a construct. -/
theorem EndOf.le_of_inside {e : Nat} (h : EndOf ws j e) (hi : Inside ws j i) : i ≤ e := by
  by_contra hlt
  have hpast : depth ws (e + 1) = depth ws e + Token.endMark.rise := depth_succ h.mark
  have hrise : Token.endMark.rise = -1 := rfl
  have hend := h.inside.innermost
  have hdeeper := hi.deeper (e + 1) (by have := h.inside.before; omega) (by omega)
  omega

/-- A construct has only one end. -/
theorem EndOf.unique {e e' : Nat} (h : EndOf ws j e) (h' : EndOf ws j e') : e = e' :=
  Nat.le_antisymm (h'.le_of_inside h.inside) (h.le_of_inside h'.inside)

end Unique

/-! ### Level words -/

/-- **Evened** words: they end all that they open, and nothing else. -/
structure Evened (ts : List Token) : Prop where
  rise_eq : rise ts = 0
  nonneg : ∀ i, 0 ≤ depth ts i

/-- **Level** words: they are evened, and any `else` among them stands in one of their own
constructs. -/
structure Level (ts : List Token) : Prop extends Evened ts where
  elses : ∀ i, ts[i]? = some .elseMark → 0 < depth ts i

theorem Evened.nil : Evened [] := ⟨rfl, fun i => by simp [depth]⟩

theorem Level.nil : Level [] := ⟨.nil, fun i h => by simp at h⟩

/-- The depth within one of two parts. -/
theorem depth_append_cases (ts us : List Token) (i : Nat) :
    (i < ts.length ∧ depth (ts ++ us) i = depth ts i) ∨
      ∃ k, i = ts.length + k ∧ depth (ts ++ us) i = rise ts + depth us k := by
  rcases Nat.lt_or_ge i ts.length with hlt | hge
  · exact .inl ⟨hlt, depth_append_left us hlt.le⟩
  · obtain ⟨k, rfl⟩ := Nat.exists_eq_add_of_le hge
    exact .inr ⟨k, rfl, depth_append_right ts us k⟩

theorem Evened.append {ts us : List Token} (h : Evened ts) (h' : Evened us) :
    Evened (ts ++ us) where
  rise_eq := by rw [rise_append, h.rise_eq, h'.rise_eq, add_zero]
  nonneg i := by
    rcases depth_append_cases ts us i with ⟨-, hdepth⟩ | ⟨k, -, hdepth⟩
    · rw [hdepth]
      exact h.nonneg i
    · rw [hdepth, h.rise_eq, zero_add]
      exact h'.nonneg k

theorem Level.append {ts us : List Token} (h : Level ts) (h' : Level us) : Level (ts ++ us) where
  toEvened := h.toEvened.append h'.toEvened
  elses i hi := by
    rcases depth_append_cases ts us i with ⟨hlt, hdepth⟩ | ⟨k, rfl, hdepth⟩
    · rw [List.getElem?_append_left hlt] at hi
      rw [hdepth]
      exact h.elses i hi
    · rw [List.getElem?_append_right (Nat.le_add_right _ _), Nat.add_sub_cancel_left] at hi
      rw [hdepth, h.rise_eq, zero_add]
      exact h'.elses k hi

/-- A word without structure is level. -/
theorem Level.op (o : Op) : Level [.op o] where
  rise_eq := rfl
  nonneg i := by
    cases i with
    | zero => exact le_refl 0
    | succ i => simp [depth, Token.rise]
  elses i hi := by
    cases i with
    | zero => cases hi
    | succ i => cases hi

/-- An `else` is even, and not level. -/
theorem Evened.elseMark : Evened [.elseMark] where
  rise_eq := rfl
  nonneg i := by
    cases i with
    | zero => exact le_refl 0
    | succ i => simp [depth, Token.rise]

/-- Two even arms with an `else` between them are even. -/
theorem Evened.arms {first second : List Token} (h : Evened first) (h' : Evened second) :
    Evened (first ++ .elseMark :: second) := h.append (Evened.elseMark.append h')

section Placed

variable (pre post : List Token) {inner : List Token} {t : Token} {i k : Nat}

/-- Inside a construct the depth is one more than in front of it, besides what its parts make of
it. -/
theorem depth_inside (ht : t.Opens) (hi : i ≤ inner.length) :
    depth (pre ++ t :: (inner ++ post)) (pre.length + (i + 1)) = rise pre + 1 + depth inner i := by
  rw [depth_append_right, depth_cons_succ, ht.rise_eq, depth_append_left _ hi, add_assoc]

/-- **A construct with even parts is level**, and so is what follows it. -/
theorem Level.construct {post : List Token} (ht : t.Opens) (h : Evened inner)
    (h' : Level post) :
    Level (t :: (inner ++ .endMark :: post)) := by
  have hwhole : Level (t :: (inner ++ [.endMark])) := by
    have hdepth : ∀ i ≤ inner.length, 1 ≤ depth (t :: (inner ++ [.endMark])) (i + 1) := by
      intro i hi
      have heq : depth (t :: (inner ++ [.endMark])) (i + 1) = 1 + depth inner i := by
        rw [depth_cons_succ, ht.rise_eq, depth_append_left _ hi]
      have := h.nonneg i
      omega
    have hrise : rise (t :: (inner ++ [.endMark])) = 0 := by
      rw [rise_cons, rise_append, rise_cons, rise_nil, ht.rise_eq, h.rise_eq]
      rfl
    refine ⟨⟨hrise, fun i => ?_⟩, fun i hi => ?_⟩
    · rcases i with _ | i
      · exact le_refl 0
      · rcases Nat.lt_or_ge inner.length i with hlt | hle
        -- past the end of the construct nothing is open
        · rw [depth, List.take_of_length_le (by simp; omega), hrise]
        · exact (zero_lt_one.trans_le (hdepth i hle)).le
    · rcases i with _ | i
      · rw [List.getElem?_cons_zero, Option.some.injEq] at hi
        subst hi
        exact ht.elim
      · obtain ⟨hlt, -⟩ := List.getElem?_eq_some_iff.mp hi
        exact zero_lt_one.trans_le (hdepth i (by simp at hlt; omega))
  have happend := hwhole.append h'
  rwa [List.cons_append, List.append_assoc] at happend

/-- The positions whose innermost construct is the given one are those where its parts are at
depth 0. -/
theorem inside_iff_of_evened (ht : t.Opens) (h : Evened inner) (hi : i ≤ inner.length) :
    Inside (pre ++ t :: (inner ++ post)) pre.length (pre.length + (i + 1)) ↔
      depth inner i = 0 := by
  have hbefore : depth (pre ++ t :: (inner ++ post)) pre.length = rise pre := by
    rw [depth_append_left _ le_rfl, depth_length]
  refine ⟨fun hin => ?_, fun hzero => ?_⟩
  · have hinnermost := hin.innermost
    rw [depth_inside pre post ht hi, hbefore] at hinnermost
    omega
  · refine ⟨⟨t, by simp, ht⟩, by omega, fun k hlt hle => ?_, ?_⟩
    · obtain ⟨m, rfl⟩ := Nat.exists_eq_add_of_lt hlt
      have hm : depth (pre ++ t :: (inner ++ post)) (pre.length + (m + 1)) = _ :=
        depth_inside pre post ht (show m ≤ inner.length by omega)
      have := h.nonneg m
      rw [Nat.add_assoc, hm, hbefore]
      omega
    · rw [depth_inside pre post ht hi, hbefore, hzero, add_zero]

/-- Even words with an opening in front and an end behind are a construct. -/
theorem endOf_of_evened (ht : t.Opens) (h : Evened inner) :
    EndOf (pre ++ t :: (inner ++ .endMark :: post)) pre.length
      (pre.length + (inner.length + 1)) where
  mark := by
    rw [List.getElem?_append_right (by omega), Nat.add_sub_cancel_left, List.getElem?_cons_succ,
      List.getElem?_append_right le_rfl, Nat.sub_self, List.getElem?_cons_zero]
  inside := by
    rw [inside_iff_of_evened pre _ ht h le_rfl, depth_length, h.rise_eq]

/-- The `else`s of a construct are those at depth 0 of its parts. -/
theorem elseOf_iff_of_evened (ht : t.Opens) (h : Evened inner) :
    ElseOf (pre ++ t :: (inner ++ .endMark :: post)) pre.length k ↔
      ∃ i, k = pre.length + (i + 1) ∧ inner[i]? = some .elseMark ∧ depth inner i = 0 := by
  have hend := endOf_of_evened pre post ht h
  have hword : ∀ i, (pre ++ t :: (inner ++ .endMark :: post))[pre.length + (i + 1)]? =
      (inner ++ .endMark :: post)[i]? := fun i => by
    rw [List.getElem?_append_right (by omega), Nat.add_sub_cancel_left, List.getElem?_cons_succ]
  constructor
  · rintro ⟨hmark, hin⟩
    have hle := hend.le_of_inside hin
    obtain ⟨i, rfl⟩ := Nat.exists_eq_add_of_lt hin.before
    have hne : i ≠ inner.length := by
      rintro rfl
      rw [Nat.add_assoc, hend.mark] at hmark
      cases hmark
    rw [Nat.add_assoc, hword, List.getElem?_append_left (by omega)] at hmark
    exact ⟨i, Nat.add_assoc _ _ _, hmark, (inside_iff_of_evened pre _ ht h (by omega)).mp hin⟩
  · rintro ⟨i, rfl, hmark, hzero⟩
    obtain ⟨hlt, -⟩ := List.getElem?_eq_some_iff.mp hmark
    refine ⟨?_, (inside_iff_of_evened pre _ ht h hlt.le).mpr hzero⟩
    rw [hword, List.getElem?_append_left hlt, hmark]

/-- A construct with level parts has no `else`. -/
theorem not_elseOf_of_level (ht : t.Opens) (h : Level inner) :
    ¬ ElseOf (pre ++ t :: (inner ++ .endMark :: post)) pre.length k := by
  rw [elseOf_iff_of_evened pre post ht h.toEvened]
  rintro ⟨i, -, hmark, hzero⟩
  exact (h.elses i hmark).ne' hzero

/-- The end of a construct with two arms. -/
theorem endOf_of_arms {second : List Token} (ht : t.Opens) (h : Evened inner)
    (h' : Evened second) :
    EndOf (pre ++ t :: (inner ++ .elseMark :: (second ++ .endMark :: post))) pre.length
      (pre.length + (inner.length + (second.length + 1) + 1)) := by
  have hend := endOf_of_evened pre post ht (h.arms h')
  rwa [List.append_assoc, List.length_append, List.length_cons] at hend

/-- A construct with an `else` between level parts has this `else` and no other. -/
theorem elseOf_iff_of_level {second : List Token} (ht : t.Opens) (h : Level inner)
    (h' : Level second) :
    ElseOf (pre ++ t :: (inner ++ .elseMark :: (second ++ .endMark :: post))) pre.length k ↔
      k = pre.length + (inner.length + 1) := by
  have hiff := elseOf_iff_of_evened pre post (k := k) ht (h.toEvened.arms h'.toEvened)
  rw [List.append_assoc] at hiff
  refine hiff.trans ⟨?_, ?_⟩
  · rintro ⟨i, rfl, hmark, hzero⟩
    rcases depth_append_cases inner (.elseMark :: second) i with ⟨hlt, hdepth⟩ | ⟨m, rfl, hdepth⟩
    · rw [List.getElem?_append_left hlt] at hmark
      exact absurd (hdepth.symm.trans hzero) (h.elses i hmark).ne'
    · rcases m with _ | m
      · rfl
      · rw [List.getElem?_append_right (Nat.le_add_right _ _), Nat.add_sub_cancel_left] at hmark
        have hdeep : 0 < depth second m := h'.elses m hmark
        have hsame : depth (.elseMark :: second) (m + 1) = depth second m := zero_add _
        rw [hdepth, h.rise_eq, hsame] at hzero
        omega
  · rintro rfl
    refine ⟨inner.length, rfl, ?_, ?_⟩
    · rw [List.getElem?_append_right le_rfl, Nat.sub_self]
      rfl
    · rw [depth_append_left _ le_rfl, depth_length, h.rise_eq]

end Placed

end Nesting

/-! ### The flat form -/

/-- The word of an instruction of the flat form. -/
def Instr.token : Instr → Token
  | op o => .op o
  | block arity _ => .block arity
  | loop => .loop
  | ifThen arity _ _ => .ifThen arity
  | elseJump _ => .elseMark
  | endMark => .endMark

namespace Nesting

/-- What an instruction at position `n` has to know: a construct its own end, a conditional its
`else` if it has one, and an `else` the end of its conditional. -/
def Knows (ws : List Token) (n : Nat) : Instr → Prop
  | .op _ | .loop | .endMark => True
  | .block _ endAt => EndOf ws n endAt
  | .ifThen _ elseAt endAt => EndOf ws n endAt ∧ ∀ k, elseAt = some k ↔ ElseOf ws n k
  | .elseJump endAt => ∃ j, ElseOf ws j n ∧ EndOf ws j endAt

/-- Positions are determined by the words around them: two instructions with the same word that know
what they have to know are the same. -/
theorem Knows.unique {ws : List Token} {n : Nat} {x y : Instr} (hx : Knows ws n x)
    (hy : Knows ws n y) (htoken : x.token = y.token) : x = y := by
  cases x <;> cases y <;> cases htoken
  case op | loop | endMark => rfl
  case block arity e e' => rw [EndOf.unique hx hy]
  case ifThen arity k e k' e' =>
    rw [hx.1.unique hy.1, Option.ext fun i => (hx.2 i).trans (hy.2 i).symm]
  case elseJump e e' =>
    obtain ⟨j, helse, hend⟩ := hx
    obtain ⟨j', helse', hend'⟩ := hy
    obtain rfl := helse.inside.unique helse'.inside
    rw [hend.unique hend']

/-- **Resolved** instructions: each knows what it has to know. -/
def Resolved (out : List Instr) : Prop :=
  ∀ i x, out[i]? = some x → Knows (out.map Instr.token) i x

/-- Words can be resolved in one way only. -/
theorem Resolved.unique {out out' : List Instr} (h : Resolved out) (h' : Resolved out')
    (hwords : out.map Instr.token = out'.map Instr.token) : out = out' := by
  refine List.ext_getElem (by simpa using congrArg List.length hwords) fun i hi hi' => ?_
  refine Knows.unique (h i _ (List.getElem?_eq_getElem hi)) ?_ ?_
  · rw [hwords]
    exact h' i _ (List.getElem?_eq_getElem hi')
  · have := congrArg (fun ws : List Token => ws[i]?) hwords
    simpa [hi, hi'] using this

/-- At position `n` the instruction has what belongs to its word, and knows where. -/
structure Matched (ws : List Token) (n : Nat) (x : Instr) : Prop where
  paired : Paired ws n x.token
  knows : Knows ws n x

/-- Instructions that stand from position `n` on are all matched. -/
def AllMatched (ws : List Token) (n : Nat) (code : List Instr) : Prop :=
  ∀ i x, code[i]? = some x → Matched ws (n + i) x

section AllMatched

variable {ws : List Token} {n : Nat}

theorem AllMatched.nil : AllMatched ws n [] := fun i x h => by cases h

theorem AllMatched.cons {x : Instr} {code : List Instr} (h : Matched ws n x)
    (h' : AllMatched ws (n + 1) code) : AllMatched ws n (x :: code) := by
  rintro (_ | i) y hy
  · cases hy
    exact h
  · have := h' i y hy
    rwa [Nat.add_right_comm, Nat.add_assoc] at this

theorem AllMatched.append {code code' : List Instr} (h : AllMatched ws n code)
    (h' : AllMatched ws (n + code.length) code') : AllMatched ws n (code ++ code') := by
  intro i x hx
  rcases Nat.lt_or_ge i code.length with hlt | hge
  · exact h i x (by rwa [List.getElem?_append_left hlt] at hx)
  · have := h' (i - code.length) x (by rwa [List.getElem?_append_right hge] at hx)
    rwa [Nat.add_assoc, Nat.add_sub_cancel' hge] at this

end AllMatched

end Nesting

/-! ### The words of a sequence -/

namespace Seq

open Nesting

/-- **The words of a sequence are level.** -/
theorem tokens_level (s : Seq) : Level s.tokens := by
  induction s with
  | nil => exact .nil
  | op o rest ih => exact (Level.op o).append ih
  | block arity body rest ihBody ih => exact .construct trivial ihBody.toEvened ih
  | loop body rest ihBody ih => exact .construct trivial ihBody.toEvened ih
  | ifThen arity thenArm rest ihThen ih => exact .construct trivial ihThen.toEvened ih
  | ifElse arity thenArm elseArm rest ihThen ihElse ih =>
    -- between the opening and the end stand the arms, with the mark between them
    have hlevel := Level.construct (t := .ifThen arity) trivial
      (ihThen.toEvened.arms ihElse.toEvened) ih
    rwa [List.append_assoc] at hlevel

@[simp] theorem map_token_layout (s : Seq) (start : Nat) :
    (s.layout start).map Instr.token = s.tokens := by
  induction s generalizing start with
  | nil => rfl
  | op o rest ih => rw [layout, List.map_cons, ih, tokens, Instr.token]
  | block arity body rest ihBody ih | loop body rest ihBody ih | ifThen arity body rest ihBody ih =>
    rw [layout, List.map_cons, List.map_append, List.map_cons, ihBody, ih, tokens, Instr.token,
      Instr.token]
  | ifElse arity thenArm elseArm rest ihThen ihElse ih =>
    rw [layout, List.map_cons, List.map_append, List.map_cons, List.map_append, List.map_cons,
      ihThen, ihElse, ih, tokens, Instr.token, Instr.token, Instr.token]

/-- Wherever in a list of words the sequence stands, its flat form is matched there. -/
def Fits (s : Seq) : Prop :=
  ∀ ws pre post n, ws = pre ++ (s.tokens ++ post) → n = pre.length → AllMatched ws n (s.layout n)

/-- A construct with one part, from its opening and the part. -/
theorem Fits.construct {body rest : Seq} (hbody : body.Fits) (hrest : rest.Fits) {t : Token}
    {x : Instr} {ws pre post : List Token} {n : Nat}
    (hws : ws = pre ++ t :: (body.tokens ++ .endMark :: (rest.tokens ++ post)))
    (hn : n = pre.length) (ht : t.Opens)
    (hx : EndOf ws n (n + body.size + 1) → (∀ k, ¬ ElseOf ws n k) → Matched ws n x) :
    AllMatched ws n (x :: (body.layout (n + 1) ++ .endMark ::
      rest.layout (n + body.size + 1 + 1))) := by
  have hend : EndOf ws n (n + body.size + 1) := by
    rw [hws, hn, ← length_tokens, Nat.add_assoc]
    exact endOf_of_evened pre _ ht body.tokens_level.toEvened
  have helse : ∀ k, ¬ ElseOf ws n k := fun k => by
    rw [hws, hn]
    exact not_elseOf_of_level pre _ ht body.tokens_level
  refine .cons (hx hend helse) (.append ?_ ?_)
  · exact hbody ws (pre ++ [t]) (.endMark :: (rest.tokens ++ post)) (n + 1) (by simp [hws])
      (by simp [hn])
  · rw [length_layout, Nat.add_right_comm]
    refine .cons ⟨⟨n, hend⟩, trivial⟩ ?_
    exact hrest ws (pre ++ t :: (body.tokens ++ [.endMark])) post _ (by simp [hws])
      (by simp [hn]; omega)

/-- **In the flat form all positions are right.** -/
theorem fits (s : Seq) : s.Fits := by
  induction s with
  | nil => exact fun ws pre post n hws hn => .nil
  | op o rest ih =>
    intro ws pre post n hws hn
    refine .cons ⟨trivial, trivial⟩ (ih ws (pre ++ [.op o]) post _ ?_ ?_)
    · simp [hws, tokens]
    · simp [hn]
  | block arity body rest ihBody ih =>
    intro ws pre post n hws hn
    have hwhole : ws =
        pre ++ .block arity :: (body.tokens ++ .endMark :: (rest.tokens ++ post)) := by
      simp [hws, tokens]
    exact ihBody.construct ih hwhole hn trivial fun hend _ => ⟨⟨_, hend⟩, hend⟩
  | loop body rest ihBody ih =>
    intro ws pre post n hws hn
    have hwhole : ws = pre ++ .loop :: (body.tokens ++ .endMark :: (rest.tokens ++ post)) := by
      simp [hws, tokens]
    exact ihBody.construct ih hwhole hn trivial fun hend _ => ⟨⟨_, hend⟩, trivial⟩
  | ifThen arity thenArm rest ihThen ih =>
    intro ws pre post n hws hn
    have hwhole : ws =
        pre ++ .ifThen arity :: (thenArm.tokens ++ .endMark :: (rest.tokens ++ post)) := by
      simp [hws, tokens]
    refine ihThen.construct ih hwhole hn trivial fun hend helse => ⟨⟨_, hend⟩, hend, fun k => ?_⟩
    exact iff_of_false (by rintro ⟨⟩) (helse k)
  | ifElse arity thenArm elseArm rest ihThen ihElse ih =>
    intro ws pre post n hws hn
    have hwhole : ws = pre ++ .ifThen arity :: (thenArm.tokens ++ .elseMark ::
        (elseArm.tokens ++ .endMark :: (rest.tokens ++ post))) := by
      simp [hws, tokens]
    have hopening : ws[n]? = some (.ifThen arity) := by
      simp [hwhole, hn]
    have helse : ∀ k, ElseOf ws n k ↔ k = n + thenArm.size + 1 := fun k => by
      rw [hwhole, hn, ← length_tokens, Nat.add_assoc]
      exact elseOf_iff_of_level pre _ trivial thenArm.tokens_level elseArm.tokens_level
    have hend : EndOf ws n (n + thenArm.size + 1 + elseArm.size + 1) := by
      have := endOf_of_arms pre (rest.tokens ++ post) (t := .ifThen arity) trivial
        thenArm.tokens_level.toEvened elseArm.tokens_level.toEvened
      rw [← hwhole, ← hn, length_tokens, length_tokens] at this
      convert this using 1
      omega
    have hmark : ElseOf ws n (n + thenArm.size + 1) := (helse _).mpr rfl
    rw [layout]
    refine .cons ⟨⟨_, hend⟩, hend, fun k => ?_⟩ (.append ?_ ?_)
    · rw [helse, Option.some.injEq, eq_comm]
    · exact ihThen ws (pre ++ [.ifThen arity])
        (.elseMark :: (elseArm.tokens ++ .endMark :: (rest.tokens ++ post))) (n + 1)
        (by simp [hwhole]) (by simp [hn])
    rw [length_layout, Nat.add_right_comm]
    refine .cons ⟨⟨n, arity, hopening, hmark⟩, n, hmark, hend⟩ (.append ?_ ?_)
    · exact ihElse ws (pre ++ .ifThen arity :: (thenArm.tokens ++ [.elseMark]))
        (.endMark :: (rest.tokens ++ post)) _ (by simp [hwhole]) (by simp [hn]; omega)
    rw [length_layout, Nat.add_right_comm]
    refine .cons ⟨⟨n, hend⟩, trivial⟩ ?_
    exact ih ws (pre ++ .ifThen arity :: (thenArm.tokens ++ .elseMark ::
      (elseArm.tokens ++ [.endMark]))) post _ (by simp [hwhole]) (by simp [hn]; omega)

section Whole

variable (s : Seq) (post : List Token) {i j k k' : Nat} {t : Token}

/-- Each word of a sequence is that of a matched instruction. -/
theorem exists_matched (h : s.tokens[i]? = some t) :
    ∃ x : Instr, x.token = t ∧ Matched (s.tokens ++ post) i x := by
  rw [← map_token_layout s 0, List.getElem?_map, Option.map_eq_some_iff] at h
  obtain ⟨x, hx, rfl⟩ := h
  have hmatched := s.fits (s.tokens ++ post) [] post 0 rfl rfl i x hx
  rw [Nat.zero_add] at hmatched
  exact ⟨x, rfl, hmatched⟩

theorem paired_tokens (h : s.tokens[i]? = some t) : Paired (s.tokens ++ post) i t := by
  obtain ⟨x, rfl, hmatched⟩ := s.exists_matched post h
  exact hmatched.paired

theorem elseOf_unique {arity : Nat} (hj : s.tokens[j]? = some (.ifThen arity))
    (h : ElseOf (s.tokens ++ post) j k) (h' : ElseOf (s.tokens ++ post) j k') : k = k' := by
  obtain ⟨x, hx, -, hknows⟩ := s.exists_matched post hj
  cases x with
  | ifThen _ elseAt endAt =>
    have hk := (hknows.2 k).mpr h
    exact Option.some.inj (hk.symm.trans ((hknows.2 k').mpr h'))
  | op | block | loop | elseJump | endMark => cases hx

/-- **The words of a sequence are bracketed.** -/
theorem bracketed_tokens : Bracketed s.tokens where
  paired i t h := by
    have := s.paired_tokens [] h
    rwa [List.append_nil] at this
  oneElse j k k' h h' := by
    rw [← List.append_nil s.tokens] at h h'
    obtain ⟨j', arity, hj, helse⟩ := s.paired_tokens [] (by simpa using h.mark)
    obtain rfl := helse.inside.unique h.inside
    exact s.elseOf_unique [] (by simpa using hj) h h'

/-- A word of a body is one of the sequence, or the end of the body. -/
theorem word_cases (h : (s.tokens ++ [.endMark])[i]? = some t) :
    s.tokens[i]? = some t ∨ i = s.tokens.length ∧ t = .endMark := by
  rcases Nat.lt_or_ge i s.tokens.length with hlt | hge
  · exact .inl (by rwa [List.getElem?_append_left hlt] at h)
  · obtain ⟨hlt, -⟩ := List.getElem?_eq_some_iff.mp h
    rw [List.length_append, List.length_singleton] at hlt
    obtain rfl : i = s.tokens.length := by omega
    rw [List.getElem?_append_right le_rfl, Nat.sub_self] at h
    exact .inr ⟨rfl, (Option.some.inj h).symm⟩

/-- **The words of a sequence and the end of a body are balanced.** -/
theorem balanced_tokens : Balanced (s.tokens ++ [.endMark]) := by
  have hlength : (s.tokens ++ [Token.endMark]).length = s.tokens.length + 1 := by simp
  refine ⟨by simp, fun i hi => ?_, fun i hi => ?_⟩
  · rcases s.word_cases hi with h | ⟨rfl, -⟩
    · obtain ⟨hlt, -⟩ := List.getElem?_eq_some_iff.mp h
      obtain ⟨j, hend⟩ := s.paired_tokens [.endMark] h
      have hnonneg : 0 ≤ depth (s.tokens ++ [.endMark]) j := by
        rw [depth_append_left _ (hend.inside.before.trans hlt).le]
        exact s.tokens_level.nonneg j
      have := hend.inside.innermost
      omega
    · rw [depth_append_left _ le_rfl, depth_length, s.tokens_level.rise_eq, hlength]
      exact iff_of_true rfl rfl
  · rcases s.word_cases hi with h | ⟨-, h⟩
    · obtain ⟨j, arity, hj, helse⟩ := s.paired_tokens [.endMark] h
      refine ⟨j, arity, hj, helse.inside, fun k hk hearlier => ?_⟩
      rcases s.word_cases hj with hj | ⟨-, hj⟩
      · exact hk.ne (s.elseOf_unique _ hj hearlier helse)
      · cases hj
    · cases h

@[simp] theorem map_token_code : s.code.map Instr.token = s.tokens ++ [.endMark] := by
  rw [code_eq, List.map_append, map_token_layout]
  rfl

/-- **The instructions of a body are resolved.** -/
theorem resolved_code : Resolved s.code := by
  intro i x hx
  rw [map_token_code]
  rw [code_eq] at hx
  rcases Nat.lt_or_ge i (s.layout 0).length with hlt | hge
  · rw [List.getElem?_append_left hlt] at hx
    have hmatched := s.fits (s.tokens ++ [.endMark]) [] [.endMark] 0 rfl rfl i x hx
    rw [Nat.zero_add] at hmatched
    exact hmatched.knows
  · rw [List.getElem?_append_right hge, List.getElem?_singleton] at hx
    split at hx
    · cases hx
      trivial
    · cases hx

end Whole

end Seq

end MeteredSandbox
