import Mathlib
import MeteredSandbox.Instance.Basic
import MeteredSandbox.Proofs.Contents

/-!
# Modules as they were asked for

A module is assembled from parts that are asked for one after another. `declared` says, without any
assembling, which module the parts describe: its lists are the parts in the order in which they were
asked for, its signatures are the distinct ones in the order of their first use, and of the table,
the memory and the start function the last one counts. What is assembled (`assemble`), written as a
binary and read again, is this module (`parse_assemble`).

A function is asked for with its signature, but holds the index of the signature only. Signatures
that come later are put behind those that are there, so an index that was given out stays the right
one (`idxOf_signatures_append`), and in the same way so do the numbers of functions, unless
something is imported after the first function (`Assembly.Extends`).
-/

namespace MeteredSandbox

/-- A part that is asked for. -/
inductive Part where
  | type (type : FuncType)
  | importFunc (source name : String) (type : FuncType)
  | func (type : FuncType) (locals : List ValType) (body : List UInt8)
  | memory (limits : Limits)
  | table (limits : Limits)
  | global (g : Global)
  | exportFunc (name : String) (func : Nat)
  | exportMemory (name : String)
  | start (func : Nat)
  | elements (offset : Nat) (funcs : List Nat)
  | data (offset : Nat) (bytes : List UInt8)

namespace Part

/-- The signature that a part uses. -/
@[simp] def signature? : Part → Option FuncType
  | .type t | .importFunc _ _ t | .func t _ _ => some t
  | _ => none

/-- An import, where the signatures have the given order. -/
@[simp] def import? (types : List FuncType) : Part → Option Import
  | .importFunc source name t => some { source, name, kind := .func (types.idxOf t) }
  | _ => none

/-- The type index of a function of the module's own. -/
@[simp] def func? (types : List FuncType) : Part → Option Nat
  | .func t _ _ => some (types.idxOf t)
  | _ => none

/-- The code of a function: its locals one by one, and its instructions with the final end. -/
@[simp] def code? : Part → Option CodeEntry
  | .func _ locals body =>
    some { locals := locals.map fun type => { count := 1, type }, body := body ++ [0x0B] }
  | _ => none

@[simp] def memory? : Part → Option Limits
  | .memory limits => some limits
  | _ => none

@[simp] def table? : Part → Option Limits
  | .table limits => some limits
  | _ => none

@[simp] def global? : Part → Option Global
  | .global g => some g
  | _ => none

@[simp] def export? : Part → Option Export
  | .exportFunc name index => some { name, kind := .func index }
  | .exportMemory name => some { name, kind := .memory 0 }
  | _ => none

@[simp] def start? : Part → Option Nat
  | .start index => some index
  | _ => none

/-- A segment of functions, with its offset as it was given. -/
@[simp] def elements? : Part → Option (Nat × List Nat)
  | .elements offset funcs => some (offset, funcs)
  | _ => none

/-- A segment of bytes, with its offset as it was given. -/
@[simp] def data? : Part → Option (Nat × List UInt8)
  | .data offset bytes => some (offset, bytes)
  | _ => none

/-- A function import. -/
def IsImport (p : Part) : Prop := ∃ source name t, p = .importFunc source name t

/-- A function of the module's own. -/
def IsFunc (p : Part) : Prop := ∃ t locals body, p = .func t locals body

/-- All numbers of a part are numbers of 32 bits. -/
def InRange : Part → Prop
  | .memory limits | .table limits => limits.InRange
  | .global g => g.init.InRange
  | .exportFunc _ index | .start index => IsWord index
  | .elements offset funcs => IsWord offset ∧ ∀ index ∈ funcs, IsWord index
  | .data offset _ => IsWord offset
  | _ => True

end Part

/-- The distinct signatures that the parts use, in the order of their first use. -/
def signatures (ps : List Part) : List FuncType :=
  (ps.filterMap Part.signature?).eraseDups

/-- **The module that the parts describe.** -/
def declared (ps : List Part) : Module where
  types := signatures ps
  imports := ps.filterMap (Part.import? (signatures ps))
  funcs := ps.filterMap (Part.func? (signatures ps))
  tables := (ps.filterMap Part.table?).getLast?.toList
  memories := (ps.filterMap Part.memory?).getLast?.toList
  globals := ps.filterMap Part.global?
  exports := ps.filterMap Part.export?
  start := (ps.filterMap Part.start?).getLast?
  elements := (ps.filterMap Part.elements?).map Assembly.elementSegment
  codes := ps.filterMap Part.code?
  data := (ps.filterMap Part.data?).map Assembly.dataSegment

namespace Assembly

/-- Adds a part. Gives the index of a signature, function or global. -/
def add (a : Assembly) : Part → Option Nat × Assembly
  | .type t => (a.addType t).map some id
  | .importFunc source name t => (a.addImport source name t).map some id
  | .func t locals body => (a.addFunc t locals body).map some id
  | .memory limits => (none, a.setMemory limits)
  | .table limits => (none, a.setTable limits)
  | .global g => (a.addGlobal g).map some id
  | .exportFunc name func => (none, a.exportFunc name func)
  | .exportMemory name => (none, a.exportMemory name)
  | .start func => (none, a.setStart func)
  | .elements offset funcs => (none, a.addElements offset funcs)
  | .data offset bytes => (none, a.addData offset bytes)

end Assembly

/-- What is assembled from the parts. -/
def assemble (ps : List Part) : Assembly :=
  ps.foldl (fun a p => (a.add p).2) {}

theorem assemble_concat (ps : List Part) (p : Part) :
    assemble (ps ++ [p]) = ((assemble ps).add p).2 :=
  List.foldl_concat _ _ _ _

/-! ### Signatures -/

/-- A signature is put behind the others, unless it is one of them. -/
theorem signatures_concat {ps : List Part} {p : Part} {t : FuncType} (ht : p.signature? = some t) :
    signatures (ps ++ [p])
      = if t ∈ signatures ps then signatures ps else signatures ps ++ [t] := by
  have hmem : t ∈ signatures ps ↔ t ∈ ps.filterMap Part.signature? := List.mem_eraseDups
  have hone : [p].filterMap Part.signature? = [t] := List.filterMap_cons_some ht
  unfold signatures at hmem ⊢
  rw [List.filterMap_append, hone, List.eraseDups_append]
  split
  next hold =>
    have hnone : [t].removeAll (ps.filterMap Part.signature?) = [] := by
      simpa [List.removeAll] using hmem.mp hold
    rw [hnone, List.eraseDups_nil, List.append_nil]
  next hnew =>
    have hone : [t].removeAll (ps.filterMap Part.signature?) = [t] := by
      simpa [List.removeAll] using fun h => hnew (hmem.mpr h)
    rw [hone]
    rfl

/-- A part without a signature leaves the signatures as they are. -/
theorem signatures_concat_none {ps : List Part} {p : Part} (hp : p.signature? = none) :
    signatures (ps ++ [p]) = signatures ps := by
  unfold signatures
  rw [List.filterMap_append, List.filterMap_cons_none hp, List.filterMap_nil, List.append_nil]

/-- Further parts put their signatures behind those that are there. -/
theorem signatures_append (ps ps' : List Part) : signatures ps <+: signatures (ps ++ ps') := by
  unfold signatures
  rw [List.filterMap_append, List.eraseDups_append]
  exact List.prefix_append _ _

theorem mem_signatures {ps : List Part} {p : Part} {t : FuncType} (hp : p ∈ ps)
    (ht : p.signature? = some t) : t ∈ signatures ps :=
  List.mem_eraseDups.mpr (List.mem_filterMap.mpr ⟨p, hp, ht⟩)

/-- A signature keeps its index. -/
theorem idxOf_signatures_append {ps : List Part} (ps' : List Part) {t : FuncType}
    (h : t ∈ signatures ps) : (signatures (ps ++ ps')).idxOf t = (signatures ps).idxOf t := by
  obtain ⟨ts, hts⟩ := signatures_append ps ps'
  rw [← hts, List.idxOf_append_of_mem h]

/-- Imports keep their type indices. -/
theorem filterMap_import?_append (ps ps' : List Part) :
    ps.filterMap (Part.import? (signatures (ps ++ ps')))
      = ps.filterMap (Part.import? (signatures ps)) := by
  refine List.filterMap_congr fun p hp => ?_
  cases p with
  | importFunc source name t =>
    exact congrArg (fun i => some (Import.mk source name (.func i)))
      (idxOf_signatures_append ps' (mem_signatures hp rfl))
  | _ => rfl

/-- Functions keep their type indices. -/
theorem filterMap_func?_append (ps ps' : List Part) :
    ps.filterMap (Part.func? (signatures (ps ++ ps')))
      = ps.filterMap (Part.func? (signatures ps)) := by
  refine List.filterMap_congr fun p hp => ?_
  cases p with
  | func t locals body =>
    exact congrArg some (idxOf_signatures_append ps' (mem_signatures hp rfl))
  | _ => rfl

/-- Where the signatures so far are right, so are they and the index with one more. -/
theorem addType_assemble {ps : List Part} {p : Part} {t : FuncType} (ht : p.signature? = some t)
    (h : (assemble ps).types = signatures ps) :
    (assemble ps).addType t = ((signatures (ps ++ [p])).idxOf t,
      { assemble ps with types := signatures (ps ++ [p]) }) := by
  rw [signatures_concat ht]
  unfold Assembly.addType
  rw [h]
  split
  next i hi =>
    have hmem : t ∈ signatures ps := by
      by_contra hnone
      rw [List.idxOf?_eq_none_iff.mpr hnone] at hi
      cases hi
    have hindex : (signatures ps).idxOf t = i := by
      rw [List.idxOf_eq_getD_idxOf?, hi, Option.getD_some]
    rw [if_pos hmem, hindex, ← h]
  next hnone =>
    have hnew : t ∉ signatures ps := List.idxOf?_eq_none_iff.mp hnone
    rw [if_neg hnew, List.idxOf_append_of_notMem hnew, List.idxOf_cons_self, Nat.add_zero]

/-! ### Assembling -/

/-- One more part, described. -/
theorem declared_concat (ps : List Part) (p : Part) :
    declared (ps ++ [p]) =
      { types := signatures (ps ++ [p])
        imports := (declared ps).imports ++ (p.import? (signatures (ps ++ [p]))).toList
        funcs := (declared ps).funcs ++ (p.func? (signatures (ps ++ [p]))).toList
        tables := (p.table?.map fun l => [l]).getD (declared ps).tables
        memories := (p.memory?.map fun l => [l]).getD (declared ps).memories
        globals := (declared ps).globals ++ p.global?.toList
        exports := (declared ps).exports ++ p.export?.toList
        start := p.start?.or (declared ps).start
        elements := (declared ps).elements ++ (p.elements?.map Assembly.elementSegment).toList
        codes := (declared ps).codes ++ p.code?.toList
        data := (declared ps).data ++ (p.data?.map Assembly.dataSegment).toList } := by
  have hone : ∀ {α : Type} (f : Part → Option α), [p].filterMap f = (f p).toList := by
    intro α f
    cases hf : f p with
    | none => exact List.filterMap_cons_none hf
    | some x => exact List.filterMap_cons_some hf
  have hlast : ∀ {α : Type} (xs : List α) (o : Option α),
      (xs ++ o.toList).getLast? = o.or xs.getLast? := by
    intro α xs o
    cases o with
    | none => exact congrArg _ (List.append_nil xs)
    | some x => exact List.getLast?_concat
  have hsingle : ∀ {α : Type} (o o' : Option α),
      (o.or o').toList = (o.map fun x => [x]).getD o'.toList := by
    intro α o o'
    cases o with
    | none => rfl
    | some x => rfl
  have hmap : ∀ {α β : Type} (f : α → β) (o : Option α), o.toList.map f = (o.map f).toList := by
    intro α β f o
    cases o with
    | none => rfl
    | some x => rfl
  unfold declared
  simp only [List.filterMap_append, hone, hlast, hsingle, List.map_append, hmap,
    filterMap_import?_append, filterMap_func?_append]

/-- **What is assembled** is what the parts describe. -/
theorem content_assemble (ps : List Part) : (assemble ps).content = declared ps := by
  induction ps using List.reverseRecOn with
  | nil => rfl
  | append_singleton ps p ih =>
    have htypes : (assemble ps).types = signatures ps := congrArg Module.types ih
    rw [assemble_concat, declared_concat, ← ih]
    cases p with
    | type t =>
      have hadd := addType_assemble (p := .type t) rfl htypes
      simp [Assembly.add, hadd, Assembly.content]
    | importFunc source name t =>
      have hadd := addType_assemble (p := .importFunc source name t) rfl htypes
      simp [Assembly.add, Assembly.addImport, hadd, Assembly.content, AssembledImport.entry]
    | func t locals body =>
      have hadd := addType_assemble (p := .func t locals body) rfl htypes
      simp [Assembly.add, Assembly.addFunc, hadd, Assembly.content, AssembledFunc.code]
    | memory limits =>
      rw [signatures_concat_none rfl, ← htypes]
      simp [Assembly.add, Assembly.setMemory, Assembly.content]
    | table limits =>
      rw [signatures_concat_none rfl, ← htypes]
      simp [Assembly.add, Assembly.setTable, Assembly.content]
    | global g =>
      rw [signatures_concat_none rfl, ← htypes]
      simp [Assembly.add, Assembly.addGlobal, Assembly.content]
    | exportFunc name index =>
      rw [signatures_concat_none rfl, ← htypes]
      simp [Assembly.add, Assembly.exportFunc, Assembly.content]
    | exportMemory name =>
      rw [signatures_concat_none rfl, ← htypes]
      simp [Assembly.add, Assembly.exportMemory, Assembly.content]
    | start index =>
      rw [signatures_concat_none rfl, ← htypes]
      simp [Assembly.add, Assembly.setStart, Assembly.content]
    | elements offset funcs =>
      rw [signatures_concat_none rfl, ← htypes]
      simp [Assembly.add, Assembly.addElements, Assembly.content]
    | data offset bytes =>
      rw [signatures_concat_none rfl, ← htypes]
      simp [Assembly.add, Assembly.addData, Assembly.content]

/-! ### Counts -/

namespace Assembly

/-- There are few items in a short section if each of them has at least `n` bytes. -/
theorem isWord_mul_length {α : Type} {n : Nat} {id : SectionId} {encode : α → List UInt8}
    {xs : List α} (hn : ∀ x, n ≤ (encode x).length)
    (hshort : ∀ s ∈ itemSection id encode xs, IsWord s.2.length) : IsWord (n * xs.length) := by
  cases xs with
  | nil => exact (by decide : 0 < 0x1_0000_0000)
  | cons x xs =>
    have hword := List.forall_mem_singleton.mp hshort
    exact Nat.lt_of_le_of_lt (Reads.mul_length_le_encodeVector hn _) hword

/-- Signatures can be numbered with 32 bits. -/
theorem isWord_types {a : Assembly} (hshort : ∀ s ∈ a.sections, IsWord s.2.length) :
    IsWord a.types.length := by
  unfold sections at hshort
  simp only [List.forall_mem_append] at hshort
  obtain ⟨⟨⟨⟨⟨⟨⟨⟨⟨⟨htypes, -⟩, -⟩, -⟩, -⟩, -⟩, -⟩, -⟩, -⟩, -⟩, -⟩ := hshort
  have hone : ∀ t, 1 ≤ (encodeFuncType t).length := fun t => Nat.succ_le_succ (Nat.zero_le _)
  have hword := isWord_mul_length hone htypes
  omega

/-- So can functions, those that are imported and those of the module's own together. -/
theorem isWord_functions {a : Assembly} (hshort : ∀ s ∈ a.sections, IsWord s.2.length) :
    IsWord (a.imports.length + a.funcs.length) := by
  unfold sections at hshort
  simp only [List.forall_mem_append] at hshort
  obtain ⟨⟨⟨⟨⟨⟨⟨⟨⟨⟨-, himports⟩, -⟩, -⟩, -⟩, -⟩, -⟩, -⟩, -⟩, hcode⟩, -⟩ := hshort
  have hpos : ∀ n, 0 < (Leb128.encodeUnsigned n).length := fun n =>
    List.length_pos_iff.mpr (Reads.encodeUnsigned_ne_nil n)
  -- two bytes each are enough for the sum
  have himport : ∀ i, 2 ≤ (encodeImport i).length := by
    intro i
    have := hpos i.type
    unfold encodeImport
    rw [List.length_append, List.length_cons]
    omega
  have hfunc : ∀ f, 2 ≤ (encodeFunc f).length := by
    intro f
    unfold encodeFunc encodeBytes
    rw [List.length_append]
    generalize hpayload : encodeVector _ f.locals ++ f.body ++ [0x0B] = payload
    have hne : 0 < payload.length := by
      rw [← hpayload, List.length_append, List.length_singleton]
      exact Nat.succ_pos _
    have := hpos payload.length
    omega
  have hfew := isWord_mul_length himport himports
  have hfew' := isWord_mul_length hfunc hcode
  omega

end Assembly

/-! ### The numbers that are given out -/

namespace Assembly

/-- The signature of a function, looked up in the assembly. -/
theorem funcType?_content (a : Assembly) (k : Nat) :
    a.content.funcType? k
      = ((a.imports.map AssembledImport.type ++ a.funcs.map AssembledFunc.type)[k]?).bind
          fun i => a.types[i]? := by
  have himported : a.content.imported ImportKind.func? = a.imports.map AssembledImport.type := by
    unfold Module.imported content
    rw [List.filterMap_map]
    exact List.filterMap_eq_map_iff_forall_eq_some.mpr fun _ _ => rfl
  unfold Module.funcType? Module.funcTypeIndex? Module.funcTypeIndices
  rw [himported]
  rfl

/-- What stays as it is when more is added: the numbers of signatures, imports and functions. -/
structure Extends (a a' : Assembly) : Prop where
  types : a.types <+: a'.types
  imports : a.imports <+: a'.imports
  funcs : a.funcs <+: a'.funcs

namespace Extends

theorem refl (a : Assembly) : Extends a a :=
  ⟨List.prefix_refl _, List.prefix_refl _, List.prefix_refl _⟩

theorem trans {a a' a'' : Assembly} (h : Extends a a') (h' : Extends a' a'') : Extends a a'' :=
  ⟨h.types.trans h'.types, h.imports.trans h'.imports, h.funcs.trans h'.funcs⟩

theorem addType (a : Assembly) (t : FuncType) : Extends a (a.addType t).2 := by
  unfold Assembly.addType
  split
  · exact refl a
  · exact ⟨List.prefix_append _ _, List.prefix_refl _, List.prefix_refl _⟩

end Extends

/-- One more part leaves the numbers as they are. -/
theorem extends_add (a : Assembly) (p : Part) : Extends a (a.add p).2 := by
  cases p with
  | type t => exact .addType a t
  | importFunc source name t =>
    exact (Extends.addType a t).trans
      ⟨List.prefix_refl _, List.prefix_append _ _, List.prefix_refl _⟩
  | func t locals body =>
    exact (Extends.addType a t).trans
      ⟨List.prefix_refl _, List.prefix_refl _, List.prefix_append _ _⟩
  | _ => exact ⟨List.prefix_refl _, List.prefix_refl _, List.prefix_refl _⟩

/-- Only imports are added to the imports. -/
theorem imports_add {a : Assembly} {p : Part} (hp : ¬ p.IsImport) :
    (a.add p).2.imports = a.imports := by
  have haddType : ∀ t, (a.addType t).2.imports = a.imports := by
    intro t
    unfold addType
    split
    · rfl
    · rfl
  cases p with
  | importFunc source name t => exact absurd ⟨source, name, t, rfl⟩ hp
  | type t => exact haddType t
  | func t locals body => exact haddType t
  | _ => rfl

/-- Any number of further parts. -/
theorem extends_foldl (a : Assembly) (ps : List Part) :
    Extends a (ps.foldl (fun a p => (a.add p).2) a) := by
  induction ps generalizing a with
  | nil => exact .refl a
  | cons p ps ih => exact (extends_add a p).trans (ih _)

theorem imports_foldl {a : Assembly} {ps : List Part} (hps : ∀ p ∈ ps, ¬ p.IsImport) :
    (ps.foldl (fun a p => (a.add p).2) a).imports = a.imports := by
  induction ps generalizing a with
  | nil => rfl
  | cons p ps ih =>
    obtain ⟨hp, hps⟩ := List.forall_mem_cons.mp hps
    exact (ih hps).trans (imports_add hp)

/-- A signature that was just added stands at the index that was given out. -/
theorem getElem?_addType (a : Assembly) (t : FuncType) :
    (a.addType t).2.types[(a.addType t).1]? = some t := by
  unfold addType
  split
  next i hi =>
    obtain ⟨hlt, heq, -⟩ := List.idxOf?_eq_some_iff.mp hi
    exact List.getElem?_eq_some_iff.mpr ⟨hlt, heq⟩
  next => exact List.getElem?_concat_length

/-- What stands in a list stands in all that begin with it. -/
theorem getElem?_of_prefix {α : Type} {xs ys : List α} {i : Nat} {x : α} (h : xs <+: ys)
    (hx : xs[i]? = some x) : ys[i]? = some x := by
  obtain ⟨hlt, rfl⟩ := List.getElem?_eq_some_iff.mp hx
  exact List.prefix_iff_getElem?.mp h i hlt

/-- An **import** keeps the number that was given out, and has the signature it was asked for. -/
theorem funcType?_importFunc {a a' : Assembly} {source name : String} {t : FuncType}
    (h : Extends (a.add (.importFunc source name t)).2 a') :
    ∃ k, (a.add (.importFunc source name t)).1 = some k ∧ k < a'.imports.length ∧
      a'.content.funcType? k = some t := by
  have htype : a'.types[(a.addType t).1]? = some t :=
    getElem?_of_prefix h.types (getElem?_addType a t)
  have himport : a'.imports[(a.addType t).2.imports.length]?
      = some { source, name, type := (a.addType t).1 } :=
    getElem?_of_prefix h.imports List.getElem?_concat_length
  obtain ⟨hlt, heq⟩ := List.getElem?_eq_some_iff.mp himport
  refine ⟨(a.addType t).2.imports.length, rfl, hlt, ?_⟩
  rw [funcType?_content, List.getElem?_append_left (by rwa [List.length_map]), List.getElem?_map,
    himport]
  exact htype

/-- A **function** of the module's own does so as long as there are no more imports. -/
theorem funcType?_func {a a' : Assembly} {t : FuncType} {locals : List ValType} {body : List UInt8}
    (h : Extends (a.add (.func t locals body)).2 a')
    (himports : a'.imports = (a.add (.func t locals body)).2.imports) :
    ∃ k, (a.add (.func t locals body)).1 = some k ∧
      k < a'.imports.length + a'.funcs.length ∧ a'.content.funcType? k = some t := by
  have htype : a'.types[(a.addType t).1]? = some t :=
    getElem?_of_prefix h.types (getElem?_addType a t)
  have hfunc : a'.funcs[(a.addType t).2.funcs.length]?
      = some { type := (a.addType t).1, locals, body } :=
    getElem?_of_prefix h.funcs List.getElem?_concat_length
  have hlength : a'.imports.length = (a.addType t).2.imports.length := congrArg List.length himports
  obtain ⟨hlt, heq⟩ := List.getElem?_eq_some_iff.mp hfunc
  refine ⟨(a.addType t).2.imports.length + (a.addType t).2.funcs.length, rfl, by omega, ?_⟩
  have hright : (a'.imports.map AssembledImport.type).length ≤
      (a.addType t).2.imports.length + (a.addType t).2.funcs.length := by
    rw [List.length_map]
    omega
  rw [funcType?_content, List.getElem?_append_right hright, List.length_map, hlength,
    Nat.add_sub_cancel_left, List.getElem?_map, hfunc]
  exact htype

end Assembly

/-- All imports come before the first function. -/
def ImportsFirst (ps : List Part) : Prop := ps.Pairwise fun p q => p.IsFunc → ¬ q.IsImport

/-- **The number of a function** that was given out is one of 32 bits, and has the signature that
the function was asked for with, if all imports come first. -/
theorem funcType?_declared {ps before after : List Part} {p : Part} {t : FuncType}
    (hshort : ∀ s ∈ (assemble ps).sections, IsWord s.2.length) (hfirst : ImportsFirst ps)
    (hps : ps = before ++ p :: after) (hp : p.IsImport ∨ p.IsFunc) (ht : p.signature? = some t) :
    ∃ k, ((assemble before).add p).1 = some k ∧ IsWord k ∧ (declared ps).funcType? k = some t := by
  have hassemble : assemble ps
      = after.foldl (fun a p => (a.add p).2) ((assemble before).add p).2 := by
    rw [hps]
    exact List.foldl_append
  have hextends : Assembly.Extends ((assemble before).add p).2 (assemble ps) := by
    rw [hassemble]
    exact Assembly.extends_foldl _ _
  have hcount := Assembly.isWord_functions hshort
  rw [← content_assemble]
  rcases hp with ⟨source, name, t', rfl⟩ | ⟨t', locals, body, rfl⟩
  · cases ht
    obtain ⟨k, hk, hlt, htype⟩ := Assembly.funcType?_importFunc hextends
    exact ⟨k, hk, by omega, htype⟩
  · cases ht
    have hafter : ∀ q ∈ after, ¬ q.IsImport := by
      unfold ImportsFirst at hfirst
      rw [hps, List.pairwise_append, List.pairwise_cons] at hfirst
      exact fun q hq => hfirst.2.1.1 q hq ⟨t, locals, body, rfl⟩
    have himports : (assemble ps).imports
        = ((assemble before).add (.func t locals body)).2.imports := by
      rw [hassemble]
      exact Assembly.imports_foldl hafter
    obtain ⟨k, hk, hlt, htype⟩ := Assembly.funcType?_func hextends himports
    exact ⟨k, hk, by omega, htype⟩

/-! ### Written and read -/

/-- The numbers that were asked for are in range, and those of signatures are numbers of some. -/
structure Assembly.Consistent (a : Assembly) : Prop where
  imports : ∀ i ∈ a.imports, i.type < a.types.length
  funcs : ∀ f ∈ a.funcs, f.type < a.types.length
  table : ∀ l ∈ a.table, l.InRange
  memory : ∀ l ∈ a.memory, l.InRange
  globals : ∀ g ∈ a.globals, g.init.InRange
  exports : ∀ e ∈ a.exports, IsWord e.kind.index
  start : ∀ func ∈ a.start, IsWord func
  elements : ∀ s ∈ a.elements, ∀ func ∈ s.2, IsWord func

namespace Assembly.Consistent

/-- A signature is added. The others keep their numbers, and the new one has one of its own. -/
theorem addType {a : Assembly} (h : a.Consistent) (t : FuncType) :
    (a.addType t).2.Consistent ∧ (a.addType t).1 < (a.addType t).2.types.length := by
  obtain ⟨hlt, -⟩ := List.getElem?_eq_some_iff.mp (Assembly.getElem?_addType a t)
  refine ⟨?_, hlt⟩
  unfold Assembly.addType
  split
  · exact h
  · have hlonger : a.types.length ≤ (a.types ++ [t]).length := by
      rw [List.length_append]
      exact Nat.le_add_right _ _
    exact { h with
      imports := fun i hi => Nat.lt_of_lt_of_le (h.imports i hi) hlonger
      funcs := fun f hf => Nat.lt_of_lt_of_le (h.funcs f hf) hlonger }

/-- One more part. -/
theorem add {a : Assembly} {p : Part} (h : a.Consistent) (hp : p.InRange) :
    (a.add p).2.Consistent := by
  have hmore : ∀ {α : Type} {q : α → Prop} {xs : List α} {x : α}, (∀ y ∈ xs, q y) → q x →
      ∀ y ∈ xs ++ [x], q y := fun hxs hx =>
    List.forall_mem_append.mpr ⟨hxs, List.forall_mem_singleton.mpr hx⟩
  have hset : ∀ {α : Type} {q : α → Prop} {x : α}, q x → ∀ y ∈ some x, q y := by
    intro α q x hx y hy
    cases hy
    exact hx
  cases p with
  | type t => exact (h.addType t).1
  | importFunc source name t =>
    obtain ⟨htype, hlt⟩ := h.addType t
    exact { htype with imports := hmore htype.imports hlt }
  | func t locals body =>
    obtain ⟨htype, hlt⟩ := h.addType t
    exact { htype with funcs := hmore htype.funcs hlt }
  | memory limits => exact { h with memory := hset hp }
  | table limits => exact { h with table := hset hp }
  | global g => exact { h with globals := hmore h.globals hp }
  | exportFunc name index => exact { h with exports := hmore h.exports hp }
  | exportMemory name => exact { h with exports := hmore h.exports (show IsWord 0 by decide) }
  | start index => exact { h with start := hset hp }
  | elements offset funcs => exact { h with elements := hmore h.elements hp.2 }
  | data offset bytes => exact { h with }

/-- Any number of parts. -/
theorem assemble {ps : List Part} (hrange : ∀ p ∈ ps, p.InRange) :
    (MeteredSandbox.assemble ps).Consistent := by
  induction ps using List.reverseRecOn with
  | nil => constructor <;> exact fun _ h => nomatch h
  | append_singleton ps p ih =>
    obtain ⟨hps, hp⟩ := List.forall_mem_append.mp hrange
    rw [assemble_concat]
    exact (ih hps).add (List.forall_mem_singleton.mp hp)

/-- The number of a signature is small when the section of the signatures is. -/
theorem inRange {a : Assembly} (h : a.Consistent) (hshort : ∀ s ∈ a.sections, IsWord s.2.length) :
    a.InRange := by
  have htypes := Assembly.isWord_types hshort
  exact { h with
    imports := fun i hi => Nat.lt_trans (h.imports i hi) htypes
    funcs := fun f hf => Nat.lt_trans (h.funcs f hf) htypes }

end Assembly.Consistent

/-- **Assembling, writing and reading** give the module that the parts describe. The offsets of
segments are the numbers that were asked for, and the numbers given out for functions lead to their
signatures. -/
theorem parse_assemble {ps : List Part} (hrange : ∀ p ∈ ps, p.InRange)
    (hshort : ∀ s ∈ (assemble ps).sections, IsWord s.2.length) :
    Module.parse (assemble ps).build = .ok (declared ps) ∧
    (∀ s ∈ ps.filterMap Part.elements?,
      (Assembly.elementSegment s).offset.evalOffset [] = .ok s.1) ∧
    (∀ s ∈ ps.filterMap Part.data?, (Assembly.dataSegment s).offset.evalOffset [] = .ok s.1) ∧
    (ImportsFirst ps → ∀ before p after t, ps = before ++ p :: after → p.IsImport ∨ p.IsFunc →
      p.signature? = some t → ∃ k, ((assemble before).add p).1 = some k ∧ IsWord k ∧
        (declared ps).funcType? k = some t) := by
  have hoffset : ∀ n, IsWord n →
      (ConstExpr.const (.i32 (.ofNat 32 n))).evalOffset [] = .ok n := by
    intro n hn
    exact congrArg Except.ok (Nat.mod_eq_of_lt hn)
  refine ⟨?_, ?_, ?_, ?_⟩
  · rw [← content_assemble]
    exact Assembly.parse_build ((Assembly.Consistent.assemble hrange).inRange hshort) hshort
  · intro s hs
    obtain ⟨p, hp, hsegment⟩ := List.mem_filterMap.mp hs
    have hp := hrange p hp
    cases p with
    | elements offset funcs =>
      cases hsegment
      exact hoffset _ hp.1
    | _ => cases hsegment
  · intro s hs
    obtain ⟨p, hp, hsegment⟩ := List.mem_filterMap.mp hs
    have hp := hrange p hp
    cases p with
    | data offset bytes =>
      cases hsegment
      exact hoffset _ hp
    | _ => cases hsegment
  · intro hfirst before p after t hps hp ht
    exact funcType?_declared hshort hfirst hps hp ht

/-- An import, a function that gives seven, a memory with two bytes in it, and an export. -/
def sevenParts : List Part :=
  [ .importFunc "host" "abort" { params := [.i32], results := [] }
  , .func { params := [], results := [.i32] } [.i64] [0x41, 0x07]
  , .memory { min := 1, max := some 2 }
  , .exportFunc "seven" 1
  , .data 16 [0x68, 0x69] ]

/-- These parts are in range and make short sections, so they are read back, and the number of the
function leads to its signature. -/
theorem sevenParts_parse_assemble :
    (∀ p ∈ sevenParts, p.InRange) ∧ (∀ s ∈ (assemble sevenParts).sections, IsWord s.2.length) ∧
    ImportsFirst sevenParts ∧
    Module.parse (assemble sevenParts).build = .ok (declared sevenParts) ∧
    (declared sevenParts).funcType? 1 = some { params := [], results := [.i32] } := by
  have hlimits : Limits.InRange { min := 1, max := some 2 } :=
    ⟨by decide, fun max hmax => by cases hmax; decide⟩
  have hrange : ∀ p ∈ sevenParts, p.InRange := by
    simp [sevenParts, Part.InRange, hlimits]
  have hshort : ∀ s ∈ (assemble sevenParts).sections, IsWord s.2.length := by
    decide +kernel
  have hfirst : ImportsFirst sevenParts := by
    simp [sevenParts, ImportsFirst, Part.IsImport, Part.IsFunc]
  obtain ⟨hparse, -, -, hnumbers⟩ := parse_assemble hrange hshort
  obtain ⟨k, hk, -, htype⟩ := hnumbers hfirst [.importFunc "host" "abort" _] _ _ _ rfl
    (.inr ⟨_, _, _, rfl⟩) rfl
  obtain rfl : 1 = k := Option.some.inj hk
  exact ⟨hrange, hshort, hfirst, hparse, htype⟩

end MeteredSandbox
