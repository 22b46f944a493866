import MeteredSandbox.Code.Token

/-!
# Nested instruction sequences

`Seq` is a function body as it is meant: instructions in sequence, some of which are constructs that
hold sequences of their own. Two readings of it are defined here.

* `Seq.tokens` writes a sequence as words, with an opening and an end around each construct, and
  `Nesting.feed` is the way back: it takes the words one at a time and keeps the constructs that are
  still open. What it has built so far is a function from the sequence that will follow, so a word
  is added in one step.
* `Seq.layout` writes a sequence as the flat list that the machine runs. There every construct knows
  the positions of its own end and of the mark between its arms, so a jump needs no search.
-/

namespace MeteredSandbox

/-- A sequence of instructions. Each constructor is the first instruction and holds what comes
after. -/
inductive Seq where
  | nil
  | op (op : Op) (rest : Seq)
  | block (arity : Nat) (body rest : Seq)
  | loop (body rest : Seq)
  | ifThen (arity : Nat) (thenArm rest : Seq)
  | ifElse (arity : Nat) (thenArm elseArm rest : Seq)
  deriving DecidableEq

/-- An instruction of the flat form. Positions count from the front of the body. -/
inductive Instr where
  | op (op : Op)
  | block (arity endAt : Nat)
  | loop
  | ifThen (arity : Nat) (elseAt : Option Nat) (endAt : Nat)
  /-- The end of the first arm of a conditional: a jump to the end of the second. -/
  | elseJump (endAt : Nat)
  | endMark
  deriving DecidableEq

namespace Seq

/-- The words of a sequence, without an end of its own. -/
def tokens : Seq → List Token
  | nil => []
  | op o rest => .op o :: rest.tokens
  | block arity body rest => .block arity :: (body.tokens ++ .endMark :: rest.tokens)
  | loop body rest => .loop :: (body.tokens ++ .endMark :: rest.tokens)
  | ifThen arity thenArm rest => .ifThen arity :: (thenArm.tokens ++ .endMark :: rest.tokens)
  | ifElse arity thenArm elseArm rest =>
    .ifThen arity ::
      (thenArm.tokens ++ .elseMark :: (elseArm.tokens ++ .endMark :: rest.tokens))

/-- The number of words of a sequence. -/
def size : Seq → Nat
  | nil => 0
  | op _ rest => rest.size + 1
  | block _ body rest => body.size + rest.size + 2
  | loop body rest => body.size + rest.size + 2
  | ifThen _ thenArm rest => thenArm.size + rest.size + 2
  | ifElse _ thenArm elseArm rest => thenArm.size + elseArm.size + rest.size + 3

/-- The flat form of a sequence whose first word stands at position `start`. -/
def layout (start : Nat) : Seq → List Instr
  | nil => []
  | op o rest => .op o :: rest.layout (start + 1)
  | block arity body rest =>
    let endAt := start + body.size + 1
    .block arity endAt :: (body.layout (start + 1) ++ .endMark :: rest.layout (endAt + 1))
  | loop body rest =>
    let endAt := start + body.size + 1
    .loop :: (body.layout (start + 1) ++ .endMark :: rest.layout (endAt + 1))
  | ifThen arity thenArm rest =>
    let endAt := start + thenArm.size + 1
    .ifThen arity none endAt ::
      (thenArm.layout (start + 1) ++ .endMark :: rest.layout (endAt + 1))
  | ifElse arity thenArm elseArm rest =>
    let elseAt := start + thenArm.size + 1
    let endAt := elseAt + elseArm.size + 1
    .ifThen arity (some elseAt) endAt ::
      (thenArm.layout (start + 1) ++ .elseJump endAt ::
        (elseArm.layout (elseAt + 1) ++ .endMark :: rest.layout (endAt + 1)))

/-- Puts the flat form of a sequence in front of what follows, and gives the position of that. The
position of an end is known once what comes before it has been passed, so each word is looked at
once. -/
def emit (start : Nat) : Seq → (List Instr → List Instr) × Nat
  | nil => (id, start)
  | op o rest =>
    let (after, stop) := rest.emit (start + 1)
    (fun following => .op o :: after following, stop)
  | block arity body rest =>
    let (inner, endAt) := body.emit (start + 1)
    let (after, stop) := rest.emit (endAt + 1)
    (fun following => .block arity endAt :: inner (.endMark :: after following), stop)
  | loop body rest =>
    let (inner, endAt) := body.emit (start + 1)
    let (after, stop) := rest.emit (endAt + 1)
    (fun following => .loop :: inner (.endMark :: after following), stop)
  | ifThen arity thenArm rest =>
    let (inner, endAt) := thenArm.emit (start + 1)
    let (after, stop) := rest.emit (endAt + 1)
    (fun following => .ifThen arity none endAt :: inner (.endMark :: after following), stop)
  | ifElse arity thenArm elseArm rest =>
    let (first, elseAt) := thenArm.emit (start + 1)
    let (second, endAt) := elseArm.emit (elseAt + 1)
    let (after, stop) := rest.emit (endAt + 1)
    (fun following => .ifThen arity (some elseAt) endAt ::
      first (.elseJump endAt :: second (.endMark :: after following)), stop)

/-- The flat form of a whole body: the sequence and the end that returns from the function. -/
def code (s : Seq) : List Instr := (s.emit 0).1 [.endMark]

@[simp] theorem length_tokens (s : Seq) : s.tokens.length = s.size := by
  induction s <;> simp_all [tokens, size] <;> omega

@[simp] theorem length_layout (s : Seq) (start : Nat) : (s.layout start).length = s.size := by
  induction s generalizing start <;> simp_all [layout, size] <;> omega

theorem emit_eq (s : Seq) (start : Nat) :
    s.emit start = (fun following => s.layout start ++ following, start + s.size) := by
  induction s generalizing start with
  | nil => rfl
  | op o rest ih =>
    rw [emit, ih]
    simp only [layout, size, List.cons_append, Prod.mk.injEq, true_and]
    omega
  -- the end of the inner part is known from its size, so that the part after it can begin there
  | block arity body rest ihBody ih | loop body rest ihBody ih | ifThen arity body rest ihBody ih =>
    rw [emit, ihBody]
    dsimp only
    rw [ih, Nat.add_right_comm start 1]
    simp only [layout, size, List.cons_append, List.append_assoc, Prod.mk.injEq, true_and]
    omega
  | ifElse arity thenArm elseArm rest ihThen ihElse ih =>
    rw [emit, ihThen]
    dsimp only
    rw [ihElse]
    dsimp only
    rw [ih, Nat.add_right_comm start 1, Nat.add_right_comm (start + thenArm.size + 1) 1]
    simp only [layout, size, List.cons_append, List.append_assoc, Prod.mk.injEq, true_and]
    omega

theorem code_eq (s : Seq) : s.code = s.layout 0 ++ [.endMark] := by
  rw [code, emit_eq]

end Seq

namespace Nesting

/-- A construct whose end has not been seen. A conditional that is past its `else` holds the first
arm. -/
inductive Opening where
  | block (arity : Nat)
  | loop
  | ifThen (arity : Nat)
  | ifElse (arity : Nat) (thenArm : Seq)

/-- The construct, with `body` as its last part and `rest` after it. -/
def Opening.close (body rest : Seq) : Opening → Seq
  | block arity => .block arity body rest
  | loop => .loop body rest
  | ifThen arity => .ifThen arity body rest
  | ifElse arity thenArm => .ifElse arity thenArm body rest

/-- What the words so far amount to: the open constructs, innermost first, each with what came
before it in its own sequence, and what has come since the last of them was opened. -/
structure State where
  opened : List (Opening × (Seq → Seq))
  current : Seq → Seq

/-- Before the first word. -/
def State.initial : State := ⟨[], id⟩

/-- What a word does to the state: the body goes on, it is complete, or an `else` has no `if`. -/
inductive Fed where
  | more (state : State)
  | whole (body : Seq)
  | stray

/-- Takes one word. -/
def feed (st : State) : Token → Fed
  | .op o => .more { st with current := fun rest => st.current (.op o rest) }
  | .block arity => .more ⟨(.block arity, st.current) :: st.opened, id⟩
  | .loop => .more ⟨(.loop, st.current) :: st.opened, id⟩
  | .ifThen arity => .more ⟨(.ifThen arity, st.current) :: st.opened, id⟩
  | .elseMark =>
    match st.opened with
    -- the first arm is complete, and the conditional is still open
    | (.ifThen arity, before) :: outer =>
      .more ⟨(.ifElse arity (st.current .nil), before) :: outer, id⟩
    | _ => .stray
  | .endMark =>
    match st.opened with
    | [] => .whole (st.current .nil)
    | (opening, before) :: outer =>
      let body := st.current .nil
      .more ⟨outer, fun rest => before (opening.close body rest)⟩

/-- The outcome of a list of words, each with its offset: a body and the words after its end, the
offset of an `else` that has no `if`, or nothing because the words end first. -/
inductive Outcome where
  | whole (body : Seq) (left : List (Nat × Token))
  | stray (offset : Nat)
  | unfinished

/-- Takes words until the body is complete. -/
def feedAll (st : State) : List (Nat × Token) → Outcome
  | [] => .unfinished
  | (offset, t) :: rest =>
    match feed st t with
    | .more st' => feedAll st' rest
    | .whole body => .whole body rest
    | .stray => .stray offset

end Nesting

end MeteredSandbox
