import Mathlib
import MeteredSandbox.Proofs.Bounding

/-!
# Segments laid over one another

What a module declares of its initial state is said here without any order of evaluation. A global
has its literal, or the value of an earlier global that it names (`Module.InitialValue`); the offset
of a segment is a value in the same sense, read without a sign (`Module.OffsetIs`). A segment covers
the places that its items come to lie on (`Segment.Covers`), and where several cover one place, the
last of them counts (`Module.LastOver`).

Tables and memories are both arrays that are written to, and laying segments one after another over
an array gives what was just said, whatever the overlaps (`Module.Laid.overlaid`).
-/

namespace MeteredSandbox

variable {α γ : Type}

/-! ### The first failure -/

/-- `x` is the first item of the list without the property, and stands at position `k`. -/
inductive FirstWithout (P : α → Prop) : List α → Nat → α → Prop
  | here {x : α} {xs : List α} (h : ¬ P x) : FirstWithout P (x :: xs) 0 x
  | there {x y : α} {xs : List α} {k : Nat} (hy : P y) (h : FirstWithout P xs k x) :
    FirstWithout P (y :: xs) (k + 1) x

theorem FirstWithout.not {P : α → Prop} {xs : List α} {k : Nat} {x : α}
    (h : FirstWithout P xs k x) : ¬ P x := by
  induction h with
  | here h => exact h
  | there _ _ ih => exact ih

theorem exists_firstWithout_or_forall (P : α → Prop) (xs : List α) :
    (∃ k x, FirstWithout P xs k x) ∨ ∀ x ∈ xs, P x := by
  induction xs with
  | nil => exact .inr fun x hx => absurd hx List.not_mem_nil
  | cons y xs ih =>
    by_cases hy : P y
    · rcases ih with ⟨k, x, h⟩ | h
      · exact .inl ⟨k + 1, x, .there hy h⟩
      · exact .inr (List.forall_mem_cons.mpr ⟨hy, h⟩)
    · exact .inl ⟨0, y, .here hy⟩

/-! ### Declared values -/

/-- **The initial value of a global**: its literal, or that of an earlier global. -/
inductive Module.InitialValue (m : Module) : Nat → Value → Prop
  | literal {k : Nat} {g : Global} {v : Value} (h : m.globals[k]? = some g)
    (hinit : g.init = .const v) : InitialValue m k v
  | copy {k j : Nat} {g : Global} {v : Value} (h : m.globals[k]? = some g)
    (hinit : g.init = .global j) (hlt : j < k) (hvalue : InitialValue m j v) : InitialValue m k v

/-- **The offset of a segment** is a 32-bit integer, read without a sign: a literal, or the initial
value of a global. -/
def Module.OffsetIs (m : Module) (e : ConstExpr) (n : Nat) : Prop :=
  ∃ bits : BitVec 32, n = bits.toNat ∧
    (e = .const (.i32 bits) ∨ ∃ k, e = .global k ∧ m.InitialValue k (.i32 bits))

theorem Module.InitialValue.unique {m : Module} {k : Nat} {v v' : Value}
    (h : m.InitialValue k v) (h' : m.InitialValue k v') : v = v' := by
  induction h with
  | literal hg hinit =>
    cases h' with
    | literal hg' hinit' =>
      cases hg.symm.trans hg'
      cases hinit.symm.trans hinit'
      rfl
    | copy hg' hinit' =>
      cases hg.symm.trans hg'
      cases hinit.symm.trans hinit'
  | copy hg hinit _ _ ih =>
    cases h' with
    | literal hg' hinit' =>
      cases hg.symm.trans hg'
      cases hinit.symm.trans hinit'
    | copy hg' hinit' _ hvalue' =>
      cases hg.symm.trans hg'
      cases hinit.symm.trans hinit'
      exact ih hvalue'

theorem Module.OffsetIs.unique {m : Module} {e : ConstExpr} {n n' : Nat} (h : m.OffsetIs e n)
    (h' : m.OffsetIs e n') : n = n' := by
  obtain ⟨bits, rfl, he⟩ := h
  obtain ⟨bits', rfl, he'⟩ := h'
  rcases he with rfl | ⟨k, rfl, hvalue⟩
  · rcases he' with he' | ⟨k, he', -⟩
    · cases he'
      rfl
    · cases he'
  · rcases he' with he' | ⟨k', he', hvalue'⟩
    · cases he'
    · cases he'
      cases hvalue.unique hvalue'
      rfl

/-! ### Segments -/

/-- Items that are to be written from an offset on. -/
structure Segment (γ : Type) where
  offset : ConstExpr
  items : List γ

namespace Segment

/-- All items of the segment have a place among the first `size`. A segment without items fits if
its offset is not beyond the size. -/
def Fits (m : Module) (size : Nat) (s : Segment γ) : Prop :=
  ∃ n, m.OffsetIs s.offset n ∧ n + s.items.length ≤ size

/-- The segment puts `x` in the place `i`. -/
def Covers (m : Module) (s : Segment γ) (i : Nat) (x : γ) : Prop :=
  ∃ n, m.OffsetIs s.offset n ∧ n ≤ i ∧ s.items[i - n]? = some x

end Segment

namespace Module

/-- The last of the segments that cover the place `i` puts `x` there. -/
inductive LastOver (m : Module) : List (Segment γ) → Nat → γ → Prop
  | here {s : Segment γ} {rest : List (Segment γ)} {i : Nat} {x : γ} (h : s.Covers m i x)
    (hrest : ∀ s' ∈ rest, ∀ y, ¬ s'.Covers m i y) : LastOver m (s :: rest) i x
  | there {s : Segment γ} {rest : List (Segment γ)} {i : Nat} {x : γ}
    (h : LastOver m rest i x) : LastOver m (s :: rest) i x

/-- **Overlaid segments.** An array of a given size has in each place the item of the last segment
that covers it, and `blank` where none does. -/
structure Overlaid (m : Module) (blank : γ) (size : Nat) (segments : List (Segment γ))
    (xs : Array γ) : Prop where
  size_eq : xs.size = size
  last : ∀ i x, m.LastOver segments i x → xs[i]? = some x
  uncovered : ∀ i < size, (∀ s ∈ segments, ∀ x, ¬ s.Covers m i x) → xs[i]? = some blank

end Module

/-! ### Writing to arrays -/

/-- The array with the given items in the places from `n` on. -/
def overwritten (xs : Array γ) (n : Nat) : List γ → Array γ
  | [] => xs
  | y :: ys => overwritten (xs.setIfInBounds n y) (n + 1) ys

@[simp] theorem size_overwritten (xs : Array γ) (n : Nat) (ys : List γ) :
    (overwritten xs n ys).size = xs.size := by
  induction ys generalizing xs n with
  | nil => rfl
  | cons y ys ih => rw [overwritten, ih, Array.size_setIfInBounds]

/-- Other places are left alone. -/
theorem getElem?_overwritten_of_none (xs : Array γ) (n : Nat) (ys : List γ) {i : Nat}
    (h : n ≤ i → ys[i - n]? = none) : (overwritten xs n ys)[i]? = xs[i]? := by
  induction ys generalizing xs n with
  | nil => rfl
  | cons y ys ih =>
    have hne : n ≠ i := by
      rintro rfl
      have := h le_rfl
      rw [Nat.sub_self] at this
      cases this
    rw [overwritten, ih, Array.getElem?_setIfInBounds_ne hne]
    intro hle
    have := h (Nat.le_of_succ_le hle)
    rwa [show i - n = i - (n + 1) + 1 by omega, List.getElem?_cons_succ] at this

/-- The items are where they were put. -/
theorem getElem?_overwritten {xs : Array γ} {n : Nat} {ys : List γ}
    (hfits : n + ys.length ≤ xs.size) {i : Nat} {y : γ} (hle : n ≤ i)
    (h : ys[i - n]? = some y) : (overwritten xs n ys)[i]? = some y := by
  induction ys generalizing xs n with
  | nil => cases h
  | cons z ys ih =>
    rw [List.length_cons] at hfits
    rw [overwritten]
    rcases hle.eq_or_lt with rfl | hlt
    · rw [Nat.sub_self, List.getElem?_cons_zero, Option.some.injEq] at h
      subst h
      -- what is written after it goes to later places
      rw [getElem?_overwritten_of_none _ _ _ fun hle => absurd hle (by omega),
        Array.getElem?_setIfInBounds_self_of_lt (by omega)]
    · rw [show i - n = i - (n + 1) + 1 by omega, List.getElem?_cons_succ] at h
      exact ih (by rw [Array.size_setIfInBounds]; omega) hlt h

/-! ### Laying segments -/

namespace Module

/-- One segment after another is written to an array, and each fits. -/
inductive Laid (m : Module) : Array γ → List (Segment γ) → Array γ → Prop
  | nil (xs : Array γ) : Laid m xs [] xs
  | cons {xs ys : Array γ} {s : Segment γ} {rest : List (Segment γ)} {n : Nat}
    (hoffset : m.OffsetIs s.offset n) (hfits : n + s.items.length ≤ xs.size)
    (h : Laid m (overwritten xs n s.items) rest ys) : Laid m xs (s :: rest) ys

namespace Laid

variable {m : Module} {xs ys : Array γ} {segments : List (Segment γ)} (h : m.Laid xs segments ys)
include h

theorem size_eq : ys.size = xs.size := by
  induction h with
  | nil => rfl
  | cons _ _ _ ih => rw [ih, size_overwritten]

theorem of_uncovered {i : Nat} (hi : ∀ s ∈ segments, ∀ x, ¬ s.Covers m i x) : ys[i]? = xs[i]? := by
  induction h with
  | nil => rfl
  | cons hoffset hfits _ ih =>
    obtain ⟨hs, hrest⟩ := List.forall_mem_cons.mp hi
    rw [ih hrest, getElem?_overwritten_of_none]
    exact fun hle => Option.eq_none_iff_forall_ne_some.mpr fun x hx => hs x ⟨_, hoffset, hle, hx⟩

theorem of_lastOver {i : Nat} {x : γ} (hlast : m.LastOver segments i x) : ys[i]? = some x := by
  induction h with
  | nil => cases hlast
  | cons hoffset hfits hlaid ih =>
    cases hlast with
    | here hcovers hrest =>
      obtain ⟨n, hn, hle, hx⟩ := hcovers
      obtain rfl := hoffset.unique hn
      rw [hlaid.of_uncovered hrest, getElem?_overwritten hfits hle hx]
    | there hlast => exact ih hlast

/-- **Segments that are laid one after another** over a blank array overlay it. -/
theorem overlaid {blank : γ} {size : Nat} (hxs : xs = Array.replicate size blank) :
    m.Overlaid blank size segments ys where
  size_eq := by rw [h.size_eq, hxs, Array.size_replicate]
  last i x hlast := h.of_lastOver hlast
  uncovered i hi huncovered := by
    rw [h.of_uncovered huncovered, hxs, Array.getElem?_replicate, if_pos hi]

end Laid

end Module

/-! ### Tables and memories -/

theorem Table.fill_eq_overwritten (slots : Array (Option Nat)) (index : Nat) (funcs : List Nat) :
    fill slots index funcs = overwritten slots index (funcs.map some) := by
  induction funcs generalizing slots index with
  | nil => rfl
  | cons func rest ih => exact ih _ _

theorem Memory.data_overwrite (bytes : ByteArray) (address : Nat) (bs : List UInt8) :
    (overwrite bytes address bs).data = overwritten bytes.data address bs := by
  induction bs generalizing bytes address with
  | nil => rfl
  | cons b rest ih =>
    rw [overwrite, ih]
    rfl

theorem Memory.data_zeroPages (n : Nat) :
    (zeroPages n).data = Array.replicate (n * pageSize) 0 := by
  induction n with
  | zero => simp [zeroPages]
  | succ n ih =>
    rw [zeroPages, ByteArray.data_append, ih, Nat.succ_mul, ← Array.replicate_append_replicate]
    rfl

end MeteredSandbox
