/-!
# Stacks that know their height

A list with the top in front, together with its length. Marks into a stack are heights: the machine
remembers how high the stack was and later cuts it back.
-/

namespace MeteredSandbox

/-- A stack with its height. -/
structure Stack (α : Type) where
  /-- The elements, the top first. -/
  items : List α
  height : Nat
  height_eq : height = items.length

namespace Stack

variable {α : Type}

/-- The empty stack. -/
def empty : Stack α := ⟨[], 0, rfl⟩

instance : Inhabited (Stack α) := ⟨empty⟩

@[ext] theorem ext {s t : Stack α} (h : s.items = t.items) : s = t := by
  cases s
  cases t
  simp_all

/-- The stack with the given elements, the top first. -/
def ofItems (items : List α) : Stack α := ⟨items, items.length, rfl⟩

/-- The elements, the bottom first. -/
def toList (s : Stack α) : List α := s.items.reverse

/-- Whether the stack has no element. -/
def isEmpty (s : Stack α) : Bool := s.items.isEmpty

/-- The top element. -/
def top? (s : Stack α) : Option α := s.items.head?

/-- The stack with `a` on top. -/
@[inline] def push (s : Stack α) (a : α) : Stack α :=
  ⟨a :: s.items, s.height + 1, by simp [s.height_eq]⟩

/-- The stack with the elements of a list on top, the first of them lowest. -/
def pushAll (s : Stack α) (as : List α) : Stack α := as.foldl push s

/-- The top element and the stack below it. -/
@[inline] def pop? (s : Stack α) : Option (α × Stack α) :=
  match s with
  | ⟨[], _, _⟩ => none
  | ⟨a :: rest, height, h⟩ => some (a, ⟨rest, height - 1, by simp [h]⟩)

/-- The lowest `height` elements, or the whole stack if it is not higher. -/
@[inline] def truncate (s : Stack α) (height : Nat) : Stack α :=
  if h : s.height ≤ height then s
  else ⟨s.items.drop (s.height - height), height, by
    have := s.height_eq
    simp only [List.length_drop]
    omega⟩

/-- The stack with its top element changed. -/
@[inline] def modifyTop (s : Stack α) (f : α → α) : Stack α :=
  match s with
  | ⟨[], height, h⟩ => ⟨[], height, h⟩
  | ⟨a :: rest, height, h⟩ => ⟨f a :: rest, height, by simpa using h⟩

@[simp] theorem items_empty : (empty : Stack α).items = [] := rfl
@[simp] theorem height_empty : (empty : Stack α).height = 0 := rfl
@[simp] theorem items_push (s : Stack α) (a : α) : (s.push a).items = a :: s.items := rfl
@[simp] theorem height_push (s : Stack α) (a : α) : (s.push a).height = s.height + 1 := rfl
@[simp] theorem items_ofItems (items : List α) : (ofItems items).items = items := rfl
@[simp] theorem height_ofItems (items : List α) : (ofItems items).height = items.length := rfl

@[simp] theorem items_pushAll (s : Stack α) (as : List α) :
    (s.pushAll as).items = as.reverse ++ s.items := by
  induction as generalizing s with
  | nil => rfl
  | cons a as ih => simpa [pushAll] using ih (s.push a)

theorem pop?_eq_some_iff {s t : Stack α} {a : α} :
    s.pop? = some (a, t) ↔ s.items = a :: t.items := by
  obtain ⟨items, height, h⟩ := s
  cases items with
  | nil => simp [pop?]
  | cons b rest =>
    simp only [pop?, Option.some.injEq, Prod.mk.injEq, List.cons.injEq, and_congr_right_iff]
    intro _
    exact ⟨fun e => e ▸ rfl, fun e => Stack.ext e⟩

@[simp] theorem pop?_eq_none_iff {s : Stack α} : s.pop? = none ↔ s.items = [] := by
  obtain ⟨items, height, h⟩ := s
  cases items <;> simp [pop?]

@[simp] theorem items_truncate (s : Stack α) (height : Nat) :
    (s.truncate height).items = s.items.drop (s.height - height) := by
  unfold truncate
  split
  · rename_i h
    simp [Nat.sub_eq_zero_of_le h]
  · rfl

@[simp] theorem height_truncate (s : Stack α) (height : Nat) :
    (s.truncate height).height = min s.height height := by
  unfold truncate
  split
  · omega
  · change height = _
    omega

@[simp] theorem height_modifyTop (s : Stack α) (f : α → α) :
    (s.modifyTop f).height = s.height := by
  obtain ⟨items, height, h⟩ := s
  cases items <;> rfl

@[simp] theorem items_modifyTop (s : Stack α) (f : α → α) :
    (s.modifyTop f).items = s.items.modifyHead f := by
  obtain ⟨items, height, h⟩ := s
  cases items <;> rfl

end Stack

end MeteredSandbox
