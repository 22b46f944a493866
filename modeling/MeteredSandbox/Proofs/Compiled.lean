import MeteredSandbox.Proofs.Structured

/-!
# Compiled programs

What compilation (`Program.ofModule`) guarantees of the program that it gives. The bodies of the
program and the bodies of the module that it was made of are two lists that run in parallel, and a
function that is not imported has its place in both: its flat code is the layout of the sequence
that its bytes spell (`Program.tree_of_body`, `Program.body_of_tree`). In that sequence every
construct has at most one result (`Seq.Narrow`), because the words of a body can say no more, and
every instruction names only what the module has.
-/

namespace MeteredSandbox

/-! ### Stages that succeed -/

theorem eq_ok_of_mapError {ε ε' α : Type} {x : Except ε α} {f : ε → ε'} {a : α}
    (h : x.mapError f = .ok a) : x = .ok a := by
  cases x with
  | error e => cases h
  | ok b =>
    cases h
    rfl

/-! ### Results of constructs -/

/-- Every construct in the sequence has at most one result. -/
def Seq.Narrow : Seq → Prop
  | nil => True
  | op _ rest => rest.Narrow
  | block arity body rest => arity ≤ 1 ∧ body.Narrow ∧ rest.Narrow
  | loop body rest => body.Narrow ∧ rest.Narrow
  | ifThen arity thenArm rest => arity ≤ 1 ∧ thenArm.Narrow ∧ rest.Narrow
  | ifElse arity thenArm elseArm rest =>
    arity ≤ 1 ∧ thenArm.Narrow ∧ elseArm.Narrow ∧ rest.Narrow

namespace Token

/-- The construct that the word opens, if it opens one, has at most one result. -/
def Narrow : Token → Prop
  | block arity | ifThen arity => arity ≤ 1
  | _ => True

/-- A reader all of whose words open narrow constructs. -/
abbrev GivesNarrow (r : Scanner Token) : Prop :=
  Leads (fun _ => True) (fun _ => True) r fun t _ => t.Narrow

theorem blockArity_le :
    Leads (fun _ => True) (fun _ => True) blockArity fun arity _ => arity ≤ 1 := by
  refine (Leads.anywhere (immediate .byte)).bind fun b => .ite (fun _ => ?_) fun _ => ?_
  · exact .pure fun _ _ => Nat.zero_le 1
  · exact .ite (fun _ => .pure fun _ _ => Nat.le_refl 1) fun _ => .throw trivial

theorem afterOpcode_narrow (b : UInt8) : GivesNarrow (afterOpcode b) := by
  unfold afterOpcode
  split <;> try split
  -- the words that open constructs read their arity first, all others have none
  all_goals first
    | exact blockArity_le.bind fun _ => .pure fun _ h => h
    | exact .pure fun _ _ => trivial
    | exact (Leads.anywhere _).bind fun _ => .pure fun _ _ => trivial
    | exact (Leads.anywhere _).bind fun _ => (Leads.anywhere _).bind fun _ =>
        .pure fun _ _ => trivial

theorem next_narrow : GivesNarrow next :=
  (Leads.anywhere (immediate .byte)).bind fun b s _ => afterOpcode_narrow b s trivial

theorem scan_narrow (c : Cursor) : ∀ p ∈ (scan c).1, p.2.Narrow := by
  -- as in `scan`, what is left to read gets shorter with each word
  induction hn : c.rest.length using Nat.strongRecOn generalizing c with
  | ind n ih =>
    rw [scan]
    split
    next => exact fun p hp => absurd hp List.not_mem_nil
    next t c' h =>
      have hshorter : c'.rest.length < n := hn ▸ next_shorter h
      intro p hp
      rcases List.mem_cons.mp hp with rfl | hp
      · exact next_narrow.of_ok trivial h
      · exact ih _ hshorter c' rfl p hp

end Token

namespace Nesting

/-- A construct that is open, with at most one result. -/
def Opening.Narrow : Opening → Prop
  | block arity | ifThen arity => arity ≤ 1
  | loop => True
  | ifElse arity thenArm => arity ≤ 1 ∧ thenArm.Narrow

/-- What the words so far amount to makes narrow sequences of narrow ones. -/
structure State.Narrow (st : State) : Prop where
  current : ∀ rest : Seq, rest.Narrow → (st.current rest).Narrow
  opened : ∀ p ∈ st.opened, p.1.Narrow ∧ ∀ rest : Seq, rest.Narrow → (p.2 rest).Narrow

theorem Opening.close_narrow {opening : Opening} (h : opening.Narrow) {body rest : Seq}
    (hbody : body.Narrow) (hrest : rest.Narrow) : (opening.close body rest).Narrow := by
  cases opening with
  | block arity => exact ⟨h, hbody, hrest⟩
  | loop => exact ⟨hbody, hrest⟩
  | ifThen arity => exact ⟨h, hbody, hrest⟩
  | ifElse arity thenArm => exact ⟨h.1, h.2, hbody, hrest⟩

/-- Opening one more construct. -/
theorem State.Narrow.open_ {st : State} (h : st.Narrow) (opening : Opening)
    (ho : opening.Narrow) : State.Narrow ⟨(opening, st.current) :: st.opened, id⟩ where
  current _ hrest := hrest
  opened p hp := by
    rcases List.mem_cons.mp hp with rfl | hp
    · exact ⟨ho, h.current⟩
    · exact h.opened p hp

/-- One word keeps the state narrow, and the body that it completes is narrow. -/
theorem feed_narrow {st : State} (h : st.Narrow) {t : Token} (ht : t.Narrow) :
    match feed st t with
    | .more st' => st'.Narrow
    | .whole body => body.Narrow
    | .stray => True := by
  obtain ⟨opened, current⟩ := st
  have hcurrent : (current .nil).Narrow := h.current .nil trivial
  cases t with
  | op o => exact ⟨fun rest hrest => h.current _ hrest, h.opened⟩
  | block arity => exact h.open_ (.block arity) ht
  | loop => exact h.open_ .loop trivial
  | ifThen arity => exact h.open_ (.ifThen arity) ht
  | elseMark =>
    cases opened with
    | nil => trivial
    | cons p outer =>
      obtain ⟨opening, before⟩ := p
      obtain ⟨hopening, hbefore⟩ := h.opened _ List.mem_cons_self
      cases opening with
      | ifThen arity =>
        -- what has been read since the conditional was opened is its first arm
        refine ⟨fun rest hrest => hrest, fun q hq => ?_⟩
        rcases List.mem_cons.mp hq with rfl | hq
        · exact ⟨⟨hopening, hcurrent⟩, hbefore⟩
        · exact h.opened q (List.mem_cons_of_mem _ hq)
      | block | loop | ifElse => trivial
  | endMark =>
    cases opened with
    | nil => exact hcurrent
    | cons p outer =>
      obtain ⟨opening, before⟩ := p
      obtain ⟨hopening, hbefore⟩ := h.opened _ List.mem_cons_self
      -- the construct is complete, and comes after what was read before it
      refine ⟨fun rest hrest => hbefore _ (opening.close_narrow hopening hcurrent hrest), ?_⟩
      exact fun q hq => h.opened q (List.mem_cons_of_mem _ hq)

theorem feedAll_narrow {st : State} (h : st.Narrow) {words : List (Nat × Token)}
    (hwords : ∀ p ∈ words, p.2.Narrow) {body : Seq} {left : List (Nat × Token)}
    (hwhole : feedAll st words = .whole body left) : body.Narrow := by
  induction words generalizing st with
  | nil => cases hwhole
  | cons p words ih =>
    obtain ⟨offset, t⟩ := p
    have hfeed := feed_narrow h (hwords _ List.mem_cons_self)
    rw [feedAll] at hwhole
    dsimp only at hfeed
    cases hr : feed st t with
    | more st' =>
      rw [hr] at hfeed hwhole
      exact ih hfeed (fun q hq => hwords q (List.mem_cons_of_mem _ hq)) hwhole
    | whole body' =>
      rw [hr] at hfeed hwhole
      cases hwhole
      exact hfeed
    | stray =>
      rw [hr] at hwhole
      cases hwhole

end Nesting

/-- A body that decodes is narrow. -/
theorem Seq.decode_narrow {bytes : List UInt8} {tree : Seq} (h : Seq.decode bytes = .ok tree) :
    tree.Narrow := by
  unfold decode at h
  dsimp only at h
  cases hr : Nesting.feedAll .initial (Token.scan (.start bytes)).1 with
  | stray offset =>
    rw [hr] at h
    cases h
  | unfinished =>
    rw [hr] at h
    cases h
  | whole body left =>
    rw [hr] at h
    dsimp only at h
    split at h
    · cases h
      -- at the beginning nothing has been read and nothing is open
      refine Nesting.feedAll_narrow ?_ (Token.scan_narrow (.start bytes)) hr
      exact ⟨fun rest hrest => hrest, fun q hq => absurd hq List.not_mem_nil⟩
    · cases h

/-! ### Bodies -/

/-- What holds of the instructions of the flat form holds of those of the sequence. -/
theorem Seq.all_of_layout {P : Op → Prop} (s : Seq) (start : Nat)
    (h : ∀ o, Instr.op o ∈ s.layout start → P o) : s.All P := by
  induction s generalizing start with
  | nil => trivial
  | op o rest ih =>
    rw [layout] at h
    exact ⟨h o List.mem_cons_self, ih _ fun o' ho => h o' (List.mem_cons_of_mem _ ho)⟩
  -- in the layout of a construct the parts stand one after another, with marks between them
  | block arity body rest ihBody ih | loop body rest ihBody ih | ifThen arity body rest ihBody ih =>
    rw [layout] at h
    refine ⟨ihBody (start + 1) fun o ho => h o ?_,
      ih (start + body.size + 1 + 1) fun o ho => h o ?_⟩
    · exact List.mem_cons_of_mem _ (List.mem_append_left _ ho)
    · exact List.mem_cons_of_mem _ (List.mem_append_right _ (List.mem_cons_of_mem _ ho))
  | ifElse arity thenArm elseArm rest ihThen ihElse ih =>
    rw [layout] at h
    refine ⟨ihThen (start + 1) fun o ho => h o ?_,
      ihElse (start + thenArm.size + 1 + 1) fun o ho => h o ?_,
      ih (start + thenArm.size + 1 + elseArm.size + 1 + 1) fun o ho => h o ?_⟩
    · exact List.mem_cons_of_mem _ (List.mem_append_left _ ho)
    · exact List.mem_cons_of_mem _ (List.mem_append_right _ (List.mem_cons_of_mem _
        (List.mem_append_left _ ho)))
    · exact List.mem_cons_of_mem _ (List.mem_append_right _ (List.mem_cons_of_mem _
        (List.mem_append_right _ (List.mem_cons_of_mem _ ho))))

/-- The instructions of a body that decodes are the flat form of what its bytes spell. -/
theorem decodeBody_eq_ok {func : Nat} {bytes : List UInt8} {code : List Instr}
    (h : decodeBody func bytes = .ok code) :
    ∃ tree, Seq.decode bytes = .ok tree ∧ code = tree.code := by
  unfold decodeBody at h
  cases htree : Seq.decode bytes with
  | ok tree =>
    rw [htree] at h
    cases h
    exact ⟨tree, rfl, rfl⟩
  | error e =>
    rw [htree] at h
    cases h

namespace Module

/-- A body that compiles is the flat form of what its bytes spell, and names only what is there. -/
theorem compileBody_eq_ok {m : Module} {func : Nat} {entry : CodeEntry} {body : FuncBody}
    (h : m.compileBody func entry = .ok body) :
    ∃ tree, Seq.decode entry.body = .ok tree ∧ body.code = tree.code.toArray ∧
      ∀ o, Instr.op o ∈ body.code → m.checkOp o = .ok () := by
  unfold compileBody at h
  dsimp only at h
  -- the locals have to be few enough, and nothing else is known of them
  split at h
  next => cases h
  next =>
    obtain ⟨code, hcode, h⟩ := exists_of_bind_eq_ok h
    obtain ⟨u, hrefs, h⟩ := exists_of_bind_eq_ok h
    cases h
    obtain ⟨tree, htree, hlayout⟩ := decodeBody_eq_ok (eq_ok_of_mapError hcode)
    refine ⟨tree, htree, congrArg List.toArray hlayout, fun o ho => ?_⟩
    exact Check.all_eq_ok_iff.mp (eq_ok_of_mapError hrefs) (.op o) (List.mem_toArray.mp ho)

theorem compileBodies_eq_ok {m : Module} {func : Nat} {entries : List CodeEntry}
    {bodies : List FuncBody} (h : m.compileBodies func entries = .ok bodies) :
    bodies.length = entries.length ∧
      ∀ i entry, entries[i]? = some entry →
        ∃ body, bodies[i]? = some body ∧ m.compileBody (func + i) entry = .ok body := by
  induction entries generalizing func bodies with
  | nil =>
    cases h
    exact ⟨rfl, fun i entry he => by cases he⟩
  | cons entry entries ih =>
    obtain ⟨body, hbody, h⟩ := exists_of_bind_eq_ok h
    obtain ⟨rest, hrest, h⟩ := exists_of_bind_eq_ok h
    cases h
    obtain ⟨hlength, hget⟩ := ih hrest
    refine ⟨congrArg (· + 1) hlength, fun i entry' he => ?_⟩
    cases i with
    | zero =>
      cases he
      exact ⟨body, rfl, hbody⟩
    | succ i =>
      obtain ⟨body', hbody', hcompile⟩ := hget i entry' he
      refine ⟨body', hbody', ?_⟩
      -- the index of the function goes up with the place in the list
      rw [← hcompile, Nat.add_right_comm, Nat.add_assoc]

/-- A module is what its sections hold, put in place one after another. -/
theorem parse_of_sections {bytes : List UInt8} {sections : List RawSection} {m : Module}
    {last : Option SectionId}
    (hpreamble : Reader.preamble.runOn bytes = .ok ((), ⟨8, bytes.drop 8⟩))
    (hsections : RawSection.all ⟨8, bytes.drop 8⟩ = (sections, none))
    (hplaced : sections.foldlM Draft.place { content := {}, last := none }
      = .ok { content := m, last })
    (hlength : m.funcs.length = m.codes.length) : parse bytes = .ok m := by
  unfold parse
  rw [hpreamble, ok_bind]
  dsimp only
  rw [hsections]
  dsimp only
  rw [hplaced, ok_bind]
  exact if_pos hlength

end Module

namespace Program

/-- What a program has of the module that it was made of. -/
theorem ofModule_eq_ok {m : Module} {p : Program} (h : ofModule m = .ok p) :
    m.validate = .ok () ∧ p.source = m ∧ p.imported = m.importedFuncs ∧
      p.signatures = (m.funcTypeIndices.map fun i => m.types[i]?).toArray ∧
      m.compileBodies m.importedFuncs m.codes = .ok p.bodies.toList := by
  obtain ⟨u, hvalid, h⟩ := exists_of_bind_eq_ok h
  obtain ⟨bodies, hbodies, h⟩ := exists_of_bind_eq_ok h
  cases h
  exact ⟨eq_ok_of_mapError hvalid, rfl, rfl, rfl, hbodies⟩

/-- A valid module is a program as soon as its bodies compile. -/
theorem ofModule_of_bodies {m : Module} {bodies : List FuncBody} (hvalid : m.validate = .ok ())
    (hbodies : m.compileBodies m.importedFuncs m.codes = .ok bodies) :
    ofModule m = .ok
      { source := m
        signatures := (m.funcTypeIndices.map fun i => m.types[i]?).toArray
        imported := m.importedFuncs
        bodies := bodies.toArray } := by
  unfold ofModule
  rw [hvalid, hbodies]
  rfl

/-- Bytes that spell a valid module are a program as soon as its bodies compile. -/
theorem compile_of_bodies {bytes : List UInt8} {m : Module} {bodies : List FuncBody}
    (hparse : Module.parse bytes = .ok m) (hvalid : m.validate = .ok ())
    (hbodies : m.compileBodies m.importedFuncs m.codes = .ok bodies) :
    compile bytes = .ok
      { source := m
        signatures := (m.funcTypeIndices.map fun i => m.types[i]?).toArray
        imported := m.importedFuncs
        bodies := bodies.toArray } := by
  unfold compile
  rw [hparse]
  exact ofModule_of_bodies hvalid hbodies

section Compiled

variable {m : Module} {p : Program} (h : ofModule m = .ok p) {func : Nat}
include h

/-- A function that has a body is not imported, and its body is what its code compiles to. -/
theorem compileBody_of_body {body : FuncBody} (hbody : p.body? func = some body) :
    ¬ func < p.imported ∧ ∃ entry, m.codes[func - p.imported]? = some entry ∧
      m.compileBody func entry = .ok body := by
  obtain ⟨-, -, himported, -, hbodies⟩ := ofModule_eq_ok h
  obtain ⟨hlength, hget⟩ := Module.compileBodies_eq_ok hbodies
  unfold body? at hbody
  split at hbody
  next => cases hbody
  next hfunc =>
    obtain ⟨hlt, hbody⟩ := Array.getElem?_eq_some_iff.mp hbody
    have hlt' : func - p.imported < m.codes.length := hlength ▸ hlt
    obtain ⟨body', hbody', hcompile⟩ := hget _ _ (List.getElem?_eq_getElem hlt')
    rw [Array.getElem?_toList, Array.getElem?_eq_getElem hlt, hbody] at hbody'
    cases hbody'
    rw [← himported, Nat.add_sub_cancel' (Nat.not_lt.mp hfunc)] at hcompile
    exact ⟨hfunc, _, List.getElem?_eq_getElem hlt', hcompile⟩

/-- **A function that has a body has a tree**, of which the body is the flat form. -/
theorem tree_of_body {body : FuncBody} (hbody : p.body? func = some body) :
    ∃ tree, p.tree? func = some tree ∧ body.code = tree.code.toArray ∧ tree.Narrow ∧
      ∀ o, Instr.op o ∈ body.code → m.checkOp o = .ok () := by
  obtain ⟨-, hsource, -⟩ := ofModule_eq_ok h
  obtain ⟨hfunc, entry, hentry, hcompile⟩ := compileBody_of_body h hbody
  obtain ⟨tree, htree, hcode, hops⟩ := Module.compileBody_eq_ok hcompile
  refine ⟨tree, ?_, hcode, Seq.decode_narrow htree, hops⟩
  unfold tree?
  rw [if_neg hfunc, hsource, hentry]
  change (Seq.decode _).toOption = _
  rw [htree]
  rfl

/-- A function that has a tree has a body. -/
theorem body_of_tree {tree : Seq} (htree : p.tree? func = some tree) :
    ∃ body, p.body? func = some body := by
  obtain ⟨-, hsource, -, -, hbodies⟩ := ofModule_eq_ok h
  obtain ⟨hlength, -⟩ := Module.compileBodies_eq_ok hbodies
  unfold tree? at htree
  split at htree
  next => cases htree
  next hfunc =>
    obtain ⟨entry, hentry, -⟩ := Option.bind_eq_some_iff.mp htree
    rw [hsource] at hentry
    obtain ⟨hlt, -⟩ := List.getElem?_eq_some_iff.mp hentry
    have hlt' : func - p.imported < p.bodies.size := by
      rw [← Array.length_toList, hlength]
      exact hlt
    refine ⟨p.bodies[func - p.imported], ?_⟩
    unfold body?
    rw [if_neg hfunc]
    exact Array.getElem?_eq_getElem hlt'

end Compiled

end Program

end MeteredSandbox
