import MeteredSandbox.Machine.Numeric

/-!
# Actions that follow one another

Two actions on different states often do the same work: one runs on a stack that has more values
at the bottom, or keeps a log that the other does not keep. Such a difference is a map `f` from the
states of the first to those of the second, and `Follows f a b` says that it is the only one:
started on `f s`, the action `b` returns or stops as `a` does on `s`, and leaves `f` of what `a`
leaves.

The relation is closed under everything that actions are put together with, so a whole action is
followed as soon as its primitive parts are. Here the parts are those of the operand stack. The map
is `Stack.beneath under`, which puts one stack beneath another: an action that takes values above
a floor is followed by the same action with its floor raised by the height of what lies below
(`Operands.pop_follows`), down to the numeric instructions (`NumericOp.execute_follows`).
-/

namespace MeteredSandbox

variable {ε σ τ α β : Type}

/-! ### Results -/

/-- The result with the state that is left behind mapped. -/
def mapState (f : σ → τ) : EStateM.Result ε σ α → EStateM.Result ε τ α
  | .ok a s => .ok a (f s)
  | .error e s => .error e (f s)

@[simp] theorem mapState_ok (f : σ → τ) (a : α) (s : σ) :
    mapState f (.ok a s : EStateM.Result ε σ α) = .ok a (f s) := rfl

@[simp] theorem mapState_error (f : σ → τ) (e : ε) (s : σ) :
    mapState f (.error e s : EStateM.Result ε σ α) = .error e (f s) := rfl

/-- An action and then another: the second starts from what the first leaves. -/
theorem bind_apply (a : EStateM ε σ α) (k : α → EStateM ε σ β) (s : σ) :
    (a >>= k) s = match a s with
      | .ok x s' => k x s'
      | .error e s' => .error e s' := rfl

theorem bind_of_ok {a : EStateM ε σ α} {s s' : σ} {x : α} (h : a s = .ok x s')
    (k : α → EStateM ε σ β) : (a >>= k) s = k x s' := by
  rw [bind_apply, h]

theorem bind_of_error {a : EStateM ε σ α} {s s' : σ} {e : ε} (h : a s = .error e s')
    (k : α → EStateM ε σ β) : (a >>= k) s = .error e s' := by
  rw [bind_apply, h]

/-- An action that succeeds does so step by step. -/
theorem exists_of_bind_ok {a : EStateM ε σ α} {k : α → EStateM ε σ β} {s s'' : σ} {b : β}
    (h : (a >>= k) s = .ok b s'') : ∃ x s', a s = .ok x s' ∧ k x s' = .ok b s'' := by
  rw [bind_apply] at h
  cases hfirst : a s with
  | error e s' =>
    rw [hfirst] at h
    cases h
  | ok x s' =>
    rw [hfirst] at h
    exact ⟨x, s', rfl, h⟩

theorem ok_bind (x : α) (k : α → Except ε β) : (Except.ok x >>= k) = k x := rfl

/-- A stage that succeeds does so step by step. -/
theorem exists_of_bind_eq_ok {x : Except ε α} {k : α → Except ε β} {b : β}
    (h : (x >>= k) = .ok b) : ∃ a, x = .ok a ∧ k a = .ok b := by
  cases x with
  | error e => cases h
  | ok a => exact ⟨a, rfl, h⟩

/-- An action that looks at the state first. -/
theorem get_bind_apply (k : σ → EStateM ε σ β) (s : σ) : (get >>= k) s = k s s := rfl

/-! ### Following -/

/-- **Following along a map.** On `f s` the action `b` does what `a` does on `s`, and what it leaves
behind is `f` of what `a` leaves. -/
def Follows (f : σ → τ) (a : EStateM ε σ α) (b : EStateM ε τ α) : Prop :=
  ∀ s, b (f s) = mapState f (a s)

namespace Follows

variable {f : σ → τ}

theorem refl (a : EStateM ε σ α) : Follows id a a := by
  intro s
  change a s = mapState id (a s)
  cases a s with
  | ok x s' => rfl
  | error e s' => rfl

theorem pure (x : α) : Follows f (pure x : EStateM ε σ α) (pure x) := fun _ => rfl

theorem throw (e : ε) : Follows f (throw e : EStateM ε σ α) (throw e) := fun _ => rfl

theorem bind {a : EStateM ε σ α} {b : EStateM ε τ α} {k : α → EStateM ε σ β}
    {l : α → EStateM ε τ β} (h : Follows f a b) (hk : ∀ x, Follows f (k x) (l x)) :
    Follows f (a >>= k) (b >>= l) := by
  intro s
  -- the first actions return the same value or stop for the same reason
  rw [bind_apply, bind_apply, h s]
  cases a s with
  | ok x s' => exact hk x s'
  | error e s' => rfl

/-- Actions that look at the state first. What they do with it has to be followed from every state,
since the first look does not fix the state for what comes later. -/
theorem get_bind {k : σ → EStateM ε σ β} {l : τ → EStateM ε τ β}
    (h : ∀ s, Follows f (k s) (l (f s))) : Follows f (get >>= k) (get >>= l) :=
  fun s => h s s

theorem modify {g : σ → σ} {g' : τ → τ} (h : ∀ s, g' (f s) = f (g s)) :
    Follows (ε := ε) f (modify g) (modify g') := fun s => by
  change EStateM.Result.ok _ (g' (f s)) = EStateM.Result.ok _ (f (g s))
  rw [h s]

theorem ite {p : Prop} [Decidable p] {a a' : EStateM ε σ α} {b b' : EStateM ε τ α}
    (h : Follows f a b) (h' : Follows f a' b') :
    Follows f (if p then a else a') (if p then b else b') := by
  split
  · exact h
  · exact h'

end Follows

/-! ### Stacks on top of stacks -/

namespace Stack

theorem top?_of_cons {s : Stack α} {a : α} {as : List α} (h : s.items = a :: as) :
    s.top? = some a := by
  unfold top?
  rw [h, List.head?_cons]

theorem not_isEmpty_of_cons {s : Stack α} {a : α} {as : List α} (h : s.items = a :: as) :
    ¬ s.isEmpty = true := by
  unfold isEmpty
  rw [h, List.isEmpty_cons]
  exact Bool.noConfusion

/-- The stack `s` with `under` beneath it. -/
def beneath (under s : Stack α) : Stack α :=
  ⟨s.items ++ under.items, s.height + under.height, by simp [s.height_eq, under.height_eq]⟩

variable (under s : Stack α)

@[simp] theorem items_beneath : (under.beneath s).items = s.items ++ under.items := rfl

@[simp] theorem height_beneath : (under.beneath s).height = s.height + under.height := rfl

/-- Nothing on top of a stack. -/
@[simp] theorem beneath_empty : under.beneath empty = under := by
  apply Stack.ext
  simp

/-- A stack on top of nothing. -/
@[simp] theorem empty_beneath : empty.beneath s = s := by
  apply Stack.ext
  simp

theorem push_beneath (a : α) : (under.beneath s).push a = under.beneath (s.push a) := by
  apply Stack.ext
  simp

theorem pushAll_beneath (as : List α) :
    (under.beneath s).pushAll as = under.beneath (s.pushAll as) := by
  apply Stack.ext
  simp

/-- Cutting back to a height above `under` cuts only what lies on top of it. -/
theorem truncate_beneath (height : Nat) :
    (under.beneath s).truncate (height + under.height) = under.beneath (s.truncate height) := by
  apply Stack.ext
  -- no more is dropped than there is on top
  have hle : s.height - height ≤ s.items.length := by
    rw [← s.height_eq]
    exact Nat.sub_le _ _
  calc ((under.beneath s).truncate (height + under.height)).items
      = (s.items ++ under.items).drop (s.height + under.height - (height + under.height)) :=
        items_truncate ..
    _ = (s.items ++ under.items).drop (s.height - height) := by rw [Nat.add_sub_add_right]
    _ = s.items.drop (s.height - height) ++ under.items := List.drop_append_of_le_length hle
    _ = (under.beneath (s.truncate height)).items := by rw [items_beneath, items_truncate]

theorem pop?_beneath {a : α} {t : Stack α} (h : s.pop? = some (a, t)) :
    (under.beneath s).pop? = some (a, under.beneath t) := by
  rw [pop?_eq_some_iff] at h ⊢
  rw [items_beneath, h, List.cons_append, items_beneath]

end Stack

/-! ### The operand stack -/

namespace Operands

variable (under : OperandStack)

theorem push_follows (v : Value) : Follows under.beneath (push v) (push v) := by
  intro s
  change EStateM.Result.ok () ((under.beneath s).push v) = _
  rw [Stack.push_beneath]
  rfl

theorem pop_follows (floor : Nat) :
    Follows under.beneath (pop floor) (pop (floor + under.height)) := by
  intro s
  unfold pop
  -- height and floor are greater by the same amount, so both are above their floors or neither is
  by_cases hfloor : s.height ≤ floor
  · rw [if_pos hfloor, if_pos (by simp only [Stack.height_beneath]; omega)]
    rfl
  · rw [if_neg hfloor, if_neg (by simp only [Stack.height_beneath]; omega)]
    -- a stack above its floor is not empty
    cases hpop : s.pop? with
    | none =>
      have hitems := Stack.pop?_eq_none_iff.mp hpop
      have := s.height_eq
      rw [hitems, List.length_nil] at this
      omega
    | some p =>
      obtain ⟨v, t⟩ := p
      rw [Stack.pop?_beneath under s hpop]
      rfl

theorem popInt_follows (w : Width) (floor : Nat) :
    Follows under.beneath (popInt w floor) (popInt w (floor + under.height)) := by
  refine (pop_follows under floor).bind fun v => ?_
  cases v.int? w with
  | some bits => exact .pure bits
  | none => exact .throw _

theorem popFloat_follows (w : Width) (floor : Nat) :
    Follows under.beneath (popFloat w floor) (popFloat w (floor + under.height)) := by
  refine (pop_follows under floor).bind fun v => ?_
  cases v.float? w with
  | some bits => exact .pure bits
  | none => exact .throw _

theorem popArgs_follows (types : List ValType) (floor : Nat) :
    Follows under.beneath (popArgs types floor) (popArgs types (floor + under.height)) := by
  intro s
  unfold popArgs
  by_cases hfloor : s.height < floor + types.length
  · rw [if_pos hfloor, if_pos (by simp only [Stack.height_beneath]; omega)]
    rfl
  · rw [if_neg hfloor, if_neg (by simp only [Stack.height_beneath]; omega)]
    -- all arguments come from the upper stack
    have hle : types.length ≤ s.items.length := by
      rw [← s.height_eq]
      omega
    have hheight : s.height + under.height - types.length
        = s.height - types.length + under.height := by
      rw [s.height_eq]
      omega
    dsimp only
    rw [Stack.items_beneath, List.take_append_of_le_length hle, Stack.height_beneath, hheight,
      Stack.truncate_beneath]
    split
    · rfl
    · rfl

theorem pushBool_follows (b : Bool) : Follows under.beneath (pushBool b) (pushBool b) :=
  push_follows under _

end Operands

section Numeric

open Operands

variable (under : OperandStack) (floor : Nat)

theorem Conversion.execute_follows (c : Conversion) :
    Follows under.beneath (c.execute floor) (c.execute (floor + under.height)) := by
  cases c with
  | wrap => exact (popInt_follows under _ floor).bind fun _ => push_follows under _
  | truncate target source signed =>
    refine (popFloat_follows under _ floor).bind fun a => ?_
    cases toInteger target signed (widen source a) with
    | ok bits => exact push_follows under _
    | error t => exact .throw t
  | extend signed => exact (popInt_follows under _ floor).bind fun _ => push_follows under _
  | convert target source signed =>
    exact (popInt_follows under _ floor).bind fun _ => push_follows under _
  | demote => exact (popFloat_follows under _ floor).bind fun _ => push_follows under _
  | promote => exact (popFloat_follows under _ floor).bind fun _ => push_follows under _
  | floatBits w => exact (popFloat_follows under _ floor).bind fun _ => push_follows under _
  | ofBits w => exact (popInt_follows under _ floor).bind fun _ => push_follows under _

/-- **Numeric instructions** neither see nor touch what lies below their floor. -/
theorem NumericOp.execute_follows (op : NumericOp) :
    Follows under.beneath (op.execute floor) (op.execute (floor + under.height)) := by
  cases op with
  | intIsZero w => exact (popInt_follows under _ floor).bind fun _ => pushBool_follows under _
  | intCompare w r =>
    exact (popInt_follows under _ floor).bind fun _ =>
      (popInt_follows under _ floor).bind fun _ => pushBool_follows under _
  | floatCompare w r =>
    exact (popFloat_follows under _ floor).bind fun _ =>
      (popFloat_follows under _ floor).bind fun _ => pushBool_follows under _
  | intCount w c => exact (popInt_follows under _ floor).bind fun _ => push_follows under _
  | intArith w op =>
    refine (popInt_follows under _ floor).bind fun b =>
      (popInt_follows under _ floor).bind fun a => ?_
    cases op.apply a b with
    | ok bits => exact push_follows under _
    | error t => exact .throw t
  | floatUnary w op => exact (popFloat_follows under _ floor).bind fun _ => push_follows under _
  | floatArith w op =>
    exact (popFloat_follows under _ floor).bind fun _ =>
      (popFloat_follows under _ floor).bind fun _ => push_follows under _
  | conversion c => exact c.execute_follows under floor

end Numeric

end MeteredSandbox
