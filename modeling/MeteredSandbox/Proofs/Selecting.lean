import Mathlib
import MeteredSandbox.Proofs.Collecting
import MeteredSandbox.Proofs.Entries
import MeteredSandbox.Proofs.WellFormed

/-!
# Selector tables

The entry points of a program are found by their names, and several names may spell one number.
What a name **denotes** is said here without the functions that read it: a numeral is a list of
digits and its value is that of the digits to base ten, a sign may come before it, and the number
must fit 32 bits (`Selector.Denotes`). The export of a function whose name is the mark and a text
that denotes `n` is then an entry of `n` (`Export.IsEntry`).

Collecting goes through the exports and stops at the first one that it cannot take. It gets to the
end exactly if no entry takes anything and no two of them have the same number
(`Program.collectEntryPoints_eq_ok_iff`), by induction on the exports for any list of points found
before them, and then the points are those of the exports, in their order. What an admitted program
can be asked by a selector is therefore a relation on the exports of its module
(`Catalog.selector_table`).
-/

namespace MeteredSandbox

/-! ### Numerals -/

namespace Selector

/-- A **numeral** spells a number by one or more decimal digits, the most significant first. -/
structure Numeral (digits : List Char) (n : Nat) : Prop where
  nonempty : digits ≠ []
  decimal : ∀ c ∈ digits, '0' ≤ c ∧ c ≤ '9'
  value : n = Nat.ofDigits 10 (digits.reverse.map fun c => c.toNat - '0'.toNat)

/-- A numeral with an optional sign. -/
inductive Signed : List Char → Int → Prop
  | plain {digits : List Char} {n : Nat} (h : Numeral digits n) : Signed digits n
  | plus {digits : List Char} {n : Nat} (h : Numeral digits n) : Signed ('+' :: digits) n
  | minus {digits : List Char} {n : Nat} (h : Numeral digits n) : Signed ('-' :: digits) (-n)

/-- A text **denotes** a selector: it is a numeral with an optional sign, and the number has 32
bits. -/
structure Denotes (text : List Char) (n : Int) : Prop where
  signed : Signed text n
  least : -0x8000_0000 ≤ n
  most : n < 0x8000_0000

/-- Digit by digit, a number grows to the value of its digits. -/
theorem foldl_eq_ofDigits (digits : List Char) :
    digits.foldl (fun n c => 10 * n + (c.toNat - 48)) 0
      = Nat.ofDigits 10 (digits.reverse.map fun c => c.toNat - '0'.toNat) := by
  rw [Nat.ofDigits_eq_foldr, List.foldr_map, List.foldr_reverse]
  congr 1
  funext n c
  exact Nat.add_comm _ _

theorem isDigit_iff {c : Char} : c.isDigit = true ↔ '0' ≤ c ∧ c ≤ '9' := by
  unfold Char.isDigit
  rw [Bool.and_eq_true, decide_eq_true_iff, decide_eq_true_iff]
  rfl

theorem decimal?_eq_some_iff {digits : List Char} {n : Nat} :
    decimal? digits = some n ↔ Numeral digits n := by
  unfold decimal?
  rw [Option.ite_none_right_eq_some, List.all_eq_true, foldl_eq_ofDigits, Option.some.injEq]
  simp only [isDigit_iff]
  constructor
  · rintro ⟨⟨hnonempty, hdecimal⟩, hvalue⟩
    exact ⟨hnonempty, hdecimal, hvalue.symm⟩
  · rintro ⟨hnonempty, hdecimal, hvalue⟩
    exact ⟨⟨hnonempty, hdecimal⟩, hvalue.symm⟩

/-- What a minus sign does to the digits after it. -/
theorem signedDecimal?_minus (digits : List Char) :
    signedDecimal? ('-' :: digits) = (decimal? digits).map fun n : Nat => -(n : Int) := by
  rw [signedDecimal?]
  cases decimal? digits with
  | none => rfl
  | some n => rfl

theorem signedDecimal?_eq_some_iff {text : List Char} {n : Int} :
    signedDecimal? text = some n ↔ Signed text n := by
  constructor
  · intro h
    by_cases hminus : ∃ digits, text = '-' :: digits
    · obtain ⟨digits, rfl⟩ := hminus
      rw [signedDecimal?_minus] at h
      obtain ⟨value, hvalue, rfl⟩ := Option.map_eq_some_iff.mp h
      exact .minus (decimal?_eq_some_iff.mp hvalue)
    · unfold signedDecimal? at h
      split at h
      next digits => exact absurd ⟨digits, rfl⟩ hminus
      next digits =>
        obtain ⟨value, hvalue, rfl⟩ := Option.map_eq_some_iff.mp h
        exact .plus (decimal?_eq_some_iff.mp hvalue)
      next =>
        obtain ⟨value, hvalue, rfl⟩ := Option.map_eq_some_iff.mp h
        exact .plain (decimal?_eq_some_iff.mp hvalue)
  · intro h
    cases h with
    | plus h => exact Option.map_eq_some_iff.mpr ⟨_, decimal?_eq_some_iff.mpr h, rfl⟩
    | minus h =>
      rw [signedDecimal?_minus]
      exact Option.map_eq_some_iff.mpr ⟨_, decimal?_eq_some_iff.mpr h, rfl⟩
    | plain h =>
      unfold signedDecimal?
      -- a numeral does not start with a sign, which is no digit
      split
      next => exact absurd (h.decimal '-' List.mem_cons_self).1 (by decide)
      next => exact absurd (h.decimal '+' List.mem_cons_self).1 (by decide)
      next => exact Option.map_eq_some_iff.mpr ⟨_, decimal?_eq_some_iff.mpr h, rfl⟩

theorem parse?_eq_some_iff {text : List Char} {n : Int} :
    parse? text = some n ↔ Denotes text n := by
  unfold parse?
  rw [Option.filter_eq_some_iff, signedDecimal?_eq_some_iff, decide_eq_true_iff]
  exact ⟨fun ⟨hsigned, hleast, hmost⟩ => ⟨hsigned, hleast, hmost⟩,
    fun ⟨hsigned, hleast, hmost⟩ => ⟨hsigned, hleast, hmost⟩⟩

/-! ### Names -/

theorem afterMark?_eq_some_iff {mark text rest : List Char} :
    afterMark? mark text = some rest ↔ text = mark ++ rest := by
  fun_induction afterMark? mark text with
  | case1 text => exact Option.some.injEq text rest ▸ Iff.rfl
  | case2 m mark text ih => rw [ih, List.cons_append, List.cons.injEq, and_iff_right rfl]
  | case3 m mark c text hne =>
    refine iff_of_false nofun fun h => ?_
    exact hne (List.cons.inj h).1.symm
  | case4 m mark => exact iff_of_false nofun nofun

theorem ofName?_eq_some_iff {mark name : String} {n : Int} :
    ofName? mark name = some n ↔ ∃ text, name.toList = mark.toList ++ text ∧ Denotes text n := by
  unfold ofName?
  simp only [Option.bind_eq_some_iff, afterMark?_eq_some_iff, parse?_eq_some_iff]

end Selector

namespace Export

/-- The export of a function is an **entry** of `n` if it is named by the mark and a text that
denotes `n`. -/
def IsEntry (mark : String) (n : Int) (func : Nat) (e : Export) : Prop :=
  e.kind = .func func ∧ ∃ text, e.name.toList = mark.toList ++ text ∧ Selector.Denotes text n

/-- The entry point that an export makes. -/
def point? (mark : String) (e : Export) : Option EntryPoint :=
  match e.kind, Selector.ofName? mark e.name with
  | .func func, some selector => some { selector, name := e.name, func }
  | _, _ => none

theorem point?_eq_some_iff {mark : String} {e : Export} {point : EntryPoint} :
    e.point? mark = some point ↔
      e.IsEntry mark point.selector point.func ∧ point.name = e.name := by
  unfold IsEntry
  rw [← Selector.ofName?_eq_some_iff]
  unfold point?
  split
  next func selector hkind hname =>
    rw [hkind, hname]
    obtain ⟨selector', name, func'⟩ := point
    simp only [Option.some.injEq, EntryPoint.mk.injEq, ExportKind.func.injEq]
    tauto
  next hother =>
    refine iff_of_false nofun ?_
    rintro ⟨⟨hkind, hname⟩, -⟩
    exact hother _ _ hkind hname

/-- The selector and the function of an entry make its entry point. -/
theorem IsEntry.point? {mark : String} {n : Int} {func : Nat} {e : Export}
    (h : e.IsEntry mark n func) : e.point? mark = some ⟨n, e.name, func⟩ :=
  point?_eq_some_iff.mpr ⟨h, rfl⟩

end Export

namespace Module

/-- A module exports the function `func` as an entry of `n`. -/
def ExportsEntry (m : Module) (mark : String) (n : Int) (func : Nat) : Prop :=
  ∃ e ∈ m.exports, e.IsEntry mark n func

/-- The entries of a module **fit** a selector table. -/
structure EntriesFit (m : Module) (mark : String) : Prop where
  /-- No function that is exported as an entry takes anything. -/
  nullary : ∀ n func type, m.ExportsEntry mark n func → m.funcType? func = some type →
    type.params = []
  /-- No two exports are entries of the same number. -/
  distinct : m.exports.Pairwise fun e e' =>
    ∀ n func func', e.IsEntry mark n func → ¬ e'.IsEntry mark n func'

/-- The entry points that the exports of a module make. -/
def points (m : Module) (mark : String) : List EntryPoint :=
  m.exports.filterMap (Export.point? mark)

variable {m : Module} {mark : String}

theorem exportsEntry_iff {n : Int} {func : Nat} : m.ExportsEntry mark n func ↔
    ∃ point ∈ m.points mark, point.selector = n ∧ point.func = func := by
  unfold ExportsEntry points
  constructor
  · rintro ⟨e, he, hentry⟩
    exact ⟨_, List.mem_filterMap.mpr ⟨e, he, hentry.point?⟩, rfl, rfl⟩
  · rintro ⟨point, hpoint, rfl, rfl⟩
    obtain ⟨e, he, hmake⟩ := List.mem_filterMap.mp hpoint
    exact ⟨e, he, (Export.point?_eq_some_iff.mp hmake).1⟩

/-- Exports are entries of different numbers exactly if the selectors of their points differ. -/
theorem nodup_selectors_iff : ((m.points mark).map EntryPoint.selector).Nodup ↔
    m.exports.Pairwise fun e e' =>
      ∀ n func func', e.IsEntry mark n func → ¬ e'.IsEntry mark n func' := by
  unfold points List.Nodup
  rw [List.pairwise_map, List.pairwise_filterMap]
  refine List.Pairwise.iff ?_
  intro e e'
  constructor
  · intro h n func func' hentry hentry'
    exact h _ hentry.point? _ hentry'.point? rfl
  · intro h point hpoint point' hpoint' hsame
    obtain ⟨hentry, -⟩ := Export.point?_eq_some_iff.mp hpoint
    obtain ⟨hentry', -⟩ := Export.point?_eq_some_iff.mp hpoint'
    rw [← hsame] at hentry'
    exact h _ _ _ hentry hentry'

end Module

/-! ### Collecting -/

namespace Program

section Collecting

variable {p : Program} {mark : String} {found points : List EntryPoint} {e : Export}
  {rest : List Export}

/-- An export that makes no entry point is passed over. -/
theorem collectEntryPoints_of_none (h : e.point? mark = none) :
    p.collectEntryPoints mark found (e :: rest) = p.collectEntryPoints mark found rest := by
  rw [collectEntryPoints]
  split
  next func selector hkind hname =>
    unfold Export.point? at h
    rw [hkind, hname] at h
    cases h
  next => rfl

variable (hfew : ∀ func type, p.funcType? func = some type → type.results.length ≤ 1)
include hfew

/-- One that makes an entry point is taken exactly if it takes nothing and its selector is new. -/
theorem collectEntryPoints_of_some {point : EntryPoint} (h : e.point? mark = some point) :
    p.collectEntryPoints mark found (e :: rest) = .ok points ↔
      p.TakesNothing point.func ∧ point.selector ∉ found.map EntryPoint.selector ∧
        p.collectEntryPoints mark (found ++ [point]) rest = .ok points := by
  obtain ⟨selector, name, func⟩ := point
  obtain ⟨⟨hkind, hname⟩, rfl⟩ := Export.point?_eq_some_iff.mp h
  dsimp only at hkind hname
  rw [collectEntryPoints, hkind, Selector.ofName?_eq_some_iff.mpr hname]
  dsimp only
  cases htype : p.funcType? func with
  | none =>
    refine iff_of_false nofun ?_
    rintro ⟨⟨type, htype', -⟩, -⟩
    rw [htype] at htype'
    cases htype'
  | some type =>
    have htakes : p.TakesNothing func ↔ ¬ (type.params ≠ [] ∨ 1 < type.results.length) := by
      unfold TakesNothing
      rw [htype, not_or, not_not, and_iff_left (Nat.not_lt.mpr (hfew func type htype))]
      simp only [Option.some.injEq, exists_eq_left']
    dsimp only
    rw [htakes, ← find?_key_eq_none_iff]
    by_cases hbad : type.params ≠ [] ∨ 1 < type.results.length
    · rw [if_pos hbad]
      exact iff_of_false nofun fun h => h.1 hbad
    · rw [if_neg hbad, and_iff_right hbad]
      cases found.find? fun point => point.selector = selector with
      | some first => exact iff_of_false nofun nofun
      | none => exact (and_iff_right rfl).symm

/-- **What collecting comes to**, where no function returns more than one value: all entry points
take nothing, and their selectors differ from each other and from those found before. -/
theorem collectEntryPoints_eq_ok_iff {exports : List Export} :
    p.collectEntryPoints mark found exports = .ok points ↔
      (∀ point ∈ exports.filterMap (Export.point? mark), p.TakesNothing point.func) ∧
        ((exports.filterMap (Export.point? mark)).map EntryPoint.selector).Nodup ∧
          (∀ point ∈ exports.filterMap (Export.point? mark),
            point.selector ∉ found.map EntryPoint.selector) ∧
            points = found ++ exports.filterMap (Export.point? mark) := by
  induction exports generalizing found with
  | nil => simp [collectEntryPoints, eq_comm]
  | cons e rest ih =>
    cases hpoint : e.point? mark with
    | none => rw [collectEntryPoints_of_none hpoint, List.filterMap_cons_none hpoint, ih]
    | some point =>
      rw [collectEntryPoints_of_some hfew hpoint, List.filterMap_cons_some hpoint, ih,
        List.forall_mem_cons, List.forall_mem_cons, List.map_cons, List.nodup_cons,
        List.append_assoc, List.singleton_append]
      -- a selector that comes later is neither among those found nor the one just added
      have hlater : (∀ later ∈ rest.filterMap (Export.point? mark),
          later.selector ∉ (found ++ [point]).map EntryPoint.selector) ↔
            point.selector ∉ (rest.filterMap (Export.point? mark)).map EntryPoint.selector ∧
              ∀ later ∈ rest.filterMap (Export.point? mark),
                later.selector ∉ found.map EntryPoint.selector := by
        simp only [List.map_append, List.map_singleton, List.mem_append, List.mem_singleton,
          not_or, forall_and, and_comm]
        refine and_congr_left' ?_
        rw [List.mem_map, not_exists]
        exact forall_congr' fun later => not_and.symm
      rw [hlater]
      tauto

end Collecting

section Compiled

variable {m : Module} {p : Program} {mark : String} (h : ofModule m = .ok p)
include h

/-- An entry has a signature, since exports are in range. -/
theorem exists_funcType?_of_exportsEntry {n : Int} {func : Nat}
    (hentry : m.ExportsEntry mark n func) : ∃ type, m.funcType? func = some type := by
  obtain ⟨hvalid, -⟩ := ofModule_eq_ok h
  obtain ⟨-, hfuncs, -, -, hexports, -⟩ := Module.validate_eq_ok_iff.mp hvalid
  obtain ⟨e, he, hkind, -⟩ := hentry
  obtain ⟨-, -, hrange⟩ := Module.checkExports_eq_ok_iff.mp hexports
  have hfunc := hrange e he
  rw [hkind] at hfunc
  exact Module.exists_funcType? hfuncs hfunc

theorem forall_takesNothing_iff : (∀ point ∈ m.points mark, p.TakesNothing point.func) ↔
    ∀ n func type, m.ExportsEntry mark n func → m.funcType? func = some type →
      type.params = [] := by
  constructor
  · intro hall n func type hentry htype
    obtain ⟨point, hpoint, -, rfl⟩ := Module.exportsEntry_iff.mp hentry
    obtain ⟨type', htype', hparams⟩ := hall point hpoint
    rw [funcType?_eq h, htype] at htype'
    cases htype'
    exact hparams
  · intro hall point hpoint
    have hentry := Module.exportsEntry_iff.mpr ⟨point, hpoint, rfl, rfl⟩
    obtain ⟨type, htype⟩ := exists_funcType?_of_exportsEntry h hentry
    exact ⟨type, (funcType?_eq h point.func).trans htype, hall _ _ type hentry htype⟩

/-- **The entry points of a program** are collected exactly if the entries of its module fit, and
then they are those of the exports. -/
theorem entryPoints_eq_ok_iff {points : List EntryPoint} :
    p.entryPoints mark = .ok points ↔ m.EntriesFit mark ∧ points = m.points mark := by
  obtain ⟨hvalid, hsource, -⟩ := ofModule_eq_ok h
  obtain ⟨htypes, -⟩ := Module.validate_eq_ok_iff.mp hvalid
  have hfew : ∀ func type, p.funcType? func = some type → type.results.length ≤ 1 := by
    intro func type htype
    rw [funcType?_eq h] at htype
    exact Module.length_results_le htypes htype
  unfold entryPoints
  rw [collectEntryPoints_eq_ok_iff hfew, hsource, List.nil_append]
  change (∀ point ∈ m.points mark, p.TakesNothing point.func) ∧
    ((m.points mark).map EntryPoint.selector).Nodup ∧ _ ∧ points = m.points mark ↔ _
  rw [forall_takesNothing_iff h, Module.nodup_selectors_iff, List.map_nil]
  constructor
  · rintro ⟨hparams, hdistinct, -, hpoints⟩
    exact ⟨⟨hparams, hdistinct⟩, hpoints⟩
  · rintro ⟨⟨hparams, hdistinct⟩, hpoints⟩
    exact ⟨hparams, hdistinct, fun _ _ => List.not_mem_nil, hpoints⟩

end Compiled

end Program

/-! ### Tables -/

namespace CatalogEntry

variable {e : CatalogEntry}

/-- Under a selector there is the function of the one point that has it. -/
theorem entry?_eq_some_iff (h : (e.points.map EntryPoint.selector).Nodup) {n : Int} {func : Nat} :
    e.entry? n = some func ↔ ∃ point ∈ e.points, point.selector = n ∧ point.func = func := by
  unfold entry?
  rw [Option.map_eq_some_iff]
  simp only [find?_key_eq_some_iff h, and_assoc]

/-- Selectors are listed in ascending order, each of them once. -/
theorem pairwise_selectors (h : (e.points.map EntryPoint.selector).Nodup) :
    e.selectors.Pairwise (· < ·) := by
  unfold selectors
  have hsorted := List.pairwise_mergeSort' (· ≤ ·) (e.points.map EntryPoint.selector)
  have hnodup := (List.mergeSort_perm (e.points.map EntryPoint.selector) (· ≤ ·)).nodup_iff.mpr h
  exact (hsorted.and hnodup).imp fun ⟨hle, hne⟩ => lt_of_le_of_ne hle hne

theorem mem_selectors_iff {n : Int} :
    n ∈ e.selectors ↔ ∃ point ∈ e.points, point.selector = n := by
  unfold selectors
  rw [(List.mergeSort_perm _ _).mem_iff, List.mem_map]

/-- **The table** that is made of the points of a module whose entries fit. -/
theorem table_of_points {m : Module} {mark : String} (hfit : m.EntriesFit mark)
    (hpoints : e.points = m.points mark) :
    (∀ n func, e.entry? n = some func ↔ m.ExportsEntry mark n func) ∧
      e.selectors.Pairwise (· < ·) ∧
      ∀ n, n ∈ e.selectors ↔ ∃ func, m.ExportsEntry mark n func := by
  have hnodup : (e.points.map EntryPoint.selector).Nodup := by
    rw [hpoints]
    exact Module.nodup_selectors_iff.mpr hfit.distinct
  refine ⟨fun n func => ?_, pairwise_selectors hnodup, fun n => ?_⟩
  · rw [entry?_eq_some_iff hnodup, hpoints, Module.exportsEntry_iff]
  · rw [mem_selectors_iff, hpoints]
    simp only [Module.exportsEntry_iff]
    constructor
    · rintro ⟨point, hpoint, rfl⟩
      exact ⟨_, point, hpoint, rfl, rfl⟩
    · rintro ⟨func, point, hpoint, hselector, -⟩
      exact ⟨point, hpoint, hselector⟩

end CatalogEntry

/-! ### Admission -/

namespace Policy

variable {p : Policy} {m m' : Module} {bytes : List UInt8}

/-- A program that passes everything else is accepted exactly if its entries fit. -/
theorem accept_eq_ok_iff {program : Program} (hparse : Module.parse bytes = .ok m)
    (hadjust : p.adjust m = .ok () m') (hprogram : Program.ofModule m' = .ok program)
    {e : CatalogEntry} : p.accept bytes = .ok e ↔ m'.EntriesFit p.entryMark ∧
      e = { digest := .of bytes, program, points := m'.points p.entryMark
            start := program.exportedFunc? p.startName } := by
  have hadjusted : p.adjusted bytes = .ok m' := by
    unfold adjusted
    rw [hparse]
    dsimp only [Except.mapError, Bind.bind, Except.bind]
    rw [hadjust]
    rfl
  have hpoints := @Program.entryPoints_eq_ok_iff m' program p.entryMark hprogram
  unfold accept
  rw [hadjusted]
  dsimp only [Bind.bind, Except.bind]
  rw [hprogram]
  dsimp only [Except.mapError]
  cases hcollect : program.entryPoints p.entryMark with
  | error flaw =>
    refine iff_of_false nofun ?_
    rintro ⟨hfit, -⟩
    rw [hpoints.mpr ⟨hfit, rfl⟩] at hcollect
    cases hcollect
  | ok points =>
    obtain ⟨hfit, rfl⟩ := hpoints.mp hcollect
    rw [and_iff_right hfit]
    constructor
    · rintro ⟨⟩
      rfl
    · rintro rfl
      rfl

/-- Under a policy that makes sense, the name of the start function is not marked. -/
theorem not_prefix_of_check (h : p.check = .ok ()) :
    ¬ p.entryMark.toList <+: p.startName.toList := by
  unfold check at h
  split at h
  next => cases h
  next =>
    split at h
    next => cases h
    next hapart => exact fun hmarked => hapart (List.isPrefixOf_iff_prefix.mpr hmarked)

/-- Under such a policy, the export of the start function is no entry. -/
theorem exportsEntry_of_check (hcheck : p.check = .ok ()) (hadjust : p.adjust m = .ok () m')
    {n : Int} {func : Nat} :
    m'.ExportsEntry p.entryMark n func ↔ m.ExportsEntry p.entryMark n func := by
  obtain ⟨rfl, -⟩ := adjust_eq_ok hadjust
  constructor
  · rintro ⟨e, he, hentry⟩
    rcases List.mem_append.mp he with he | he
    · exact ⟨e, he, hentry⟩
    · obtain ⟨-, text, hname, -⟩ := hentry
      obtain ⟨func', -, rfl⟩ := Option.map_eq_some_iff.mp (Option.mem_toList.mp he)
      exact absurd ⟨text, hname.symm⟩ (not_prefix_of_check hcheck)
  · rintro ⟨e, he, hentry⟩
    exact ⟨e, List.mem_append_left _ he, hentry⟩

end Policy

namespace Catalog

namespace ConsistsOf

variable {policy : Policy} {done : List (List UInt8)} {c : Catalog} {bytes : List UInt8}
  (h : c.ConsistsOf policy done) (htold : Told (done ++ [bytes]))
include h htold

/-- A program that is admitted was accepted, and what it is found as is what the policy makes of
it. -/
theorem exists_accept_of_insert {d : Digest} {c' : Catalog} (hinsert : insert bytes c = .ok d c') :
    ∃ e, policy.accept bytes = .ok e ∧ c'.get? d = some e := by
  have hlast : bytes ∈ done ++ [bytes] := List.mem_append_right _ List.mem_cons_self
  obtain ⟨hanswer, hnext⟩ := h.attempt bytes fun b hb =>
    htold b (List.mem_append_left _ hb) bytes hlast
  rw [attempt_of_ok hinsert] at hanswer hnext
  have hfound := hnext.get?_of htold hlast
  obtain ⟨rfl, -⟩ := insert_eq_ok hinsert
  unfold Policy.answer at hanswer
  cases haccept : policy.accept bytes with
  | error e =>
    rw [haccept] at hanswer
    cases hanswer
  | ok e =>
    rw [haccept] at hfound
    exact ⟨e, rfl, hfound⟩

/-- Admission is acceptance by the policy. -/
theorem insert_iff_accept :
    (∃ d c', insert bytes c = .ok d c') ↔ ∃ e, policy.accept bytes = .ok e := by
  constructor
  · rintro ⟨d, c', hinsert⟩
    obtain ⟨e, haccept, -⟩ := h.exists_accept_of_insert htold hinsert
    exact ⟨e, haccept⟩
  · rintro ⟨e, haccept⟩
    rcases insert_cases c bytes with ⟨e', -, hinsert⟩ | ⟨e', -, -, hinsert⟩ | ⟨e', -, hrefuse, -⟩
    · exact ⟨_, _, hinsert⟩
    · exact ⟨_, _, hinsert⟩
    · rw [h.policy_eq, haccept] at hrefuse
      cases hrefuse

end ConsistsOf

/-- **The selector table is the set of entry exports.** Let no two different programs that have been
tried have the same digest, and let `program` be what a program compiles to after it has been
adjusted to `m'`. It is admitted exactly if the entries of `m'` fit. If it is, the function under a
selector is the one that `m'` exports as an entry of that number, the selectors are the numbers of
all entries in ascending order, and the start function is that of the module `m` as it was parsed.
Under a policy that makes sense, `m'` has the entries of `m` and no other: the export of the start
function is none. -/
theorem selector_table {policy : Policy} {programs : List (List UInt8)} {bytes : List UInt8}
    {m m' : Module} {program : Program} (htold : Told (programs ++ [bytes]))
    (hparse : Module.parse bytes = .ok m) (hadjust : policy.adjust m = .ok () m')
    (hprogram : Program.ofModule m' = .ok program) :
    let c : Catalog := (insertAll { policy } programs).2
    ((∃ d c', insert bytes c = .ok d c') ↔ m'.EntriesFit policy.entryMark) ∧
      (∀ d c', insert bytes c = .ok d c' → ∃ e, c'.get? d = some e ∧ e.program = program ∧
        (∀ n func, e.entry? n = some func ↔ m'.ExportsEntry policy.entryMark n func) ∧
        e.selectors.Pairwise (· < ·) ∧
        (∀ n, n ∈ e.selectors ↔ ∃ func, m'.ExportsEntry policy.entryMark n func) ∧
        e.start = m.start) ∧
      (policy.check = .ok () → ∀ n func,
        m'.ExportsEntry policy.entryMark n func ↔ m.ExportsEntry policy.entryMark n func) := by
  intro c
  have hbefore : Told ([] ++ programs) := fun a ha b hb =>
    htold a (List.mem_append_left _ ha) b (List.mem_append_left _ hb)
  obtain ⟨-, hc⟩ := (ConsistsOf.fresh policy).insertAll hbefore
  have haccept := @Policy.accept_eq_ok_iff policy m m' bytes program hparse hadjust hprogram
  refine ⟨?_, ?_, fun hcheck n func => Policy.exportsEntry_of_check hcheck hadjust⟩
  · rw [hc.insert_iff_accept htold]
    simp only [haccept, exists_and_left, exists_eq, and_true]
  · intro d c' hinsert
    obtain ⟨e, he, hfound⟩ := hc.exists_accept_of_insert htold hinsert
    obtain ⟨m₀, hparse₀, -, hstart, -⟩ := Policy.accept_eq_ok he
    obtain rfl : m = m₀ := Except.ok.inj (hparse.symm.trans hparse₀)
    obtain ⟨hfit, hentry⟩ := haccept.mp he
    have hpoints : e.points = m'.points policy.entryMark := by rw [hentry]
    obtain ⟨hunder, hsorted, hlisted⟩ := CatalogEntry.table_of_points hfit hpoints
    exact ⟨e, hfound, by rw [hentry], hunder, hsorted, hlisted, hstart⟩

/-- The bytes of a module with two functions that do nothing, `entry_+07` and the start function. -/
def rosterBytes : List UInt8 :=
  [0x00, 0x61, 0x73, 0x6d, 0x01, 0x00, 0x00, 0x00, 0x01, 0x04, 0x01, 0x60, 0x00, 0x00, 0x03, 0x03,
    0x02, 0x00, 0x00, 0x07, 0x0d, 0x01, 0x09, 0x65, 0x6e, 0x74, 0x72, 0x79, 0x5f, 0x2b, 0x30, 0x37,
    0x00, 0x00, 0x08, 0x01, 0x01, 0x0a, 0x07, 0x02, 0x02, 0x00, 0x0b, 0x02, 0x00, 0x0b]

/-- The module that they spell. -/
def rosterModule : Module where
  types := [{ params := [], results := [] }]
  funcs := [0, 0]
  exports := [{ name := "entry_+07", kind := .func 0 }]
  start := some 1
  codes := [{ locals := [], body := [0x0b] }, { locals := [], body := [0x0b] }]

/-- The module that is compiled, with an export for the start function. -/
def rosterAdjusted : Module := rosterModule.prepared 128 4096 "guest_start"

private theorem parse_rosterBytes : Module.parse rosterBytes = .ok rosterModule := by
  have hsections : RawSection.all ⟨8, rosterBytes.drop 8⟩ = (
      [{ id := .types, payloadOffset := 10, payload := [0x01, 0x60, 0x00, 0x00] },
        { id := .functions, payloadOffset := 16, payload := [0x02, 0x00, 0x00] },
        { id := .exports, payloadOffset := 21, payload := [0x01, 0x09, 0x65, 0x6e, 0x74, 0x72,
            0x79, 0x5f, 0x2b, 0x30, 0x37, 0x00, 0x00] },
        { id := .start, payloadOffset := 36, payload := [0x01] },
        { id := .code, payloadOffset := 39, payload := [0x02, 0x02, 0x00, 0x0b, 0x02, 0x00,
            0x0b] }],
      none) := by cbv
  exact Module.parse_of_sections rfl hsections rfl rfl

/-- The program is admitted, and the one selector it has is 7, which its name spells with a sign and
a leading zero. -/
theorem roster_selector_table :
    Told ([] ++ [rosterBytes]) ∧ Module.parse rosterBytes = .ok rosterModule ∧
      Policy.adjust {} rosterModule = .ok () rosterAdjusted ∧
      (∃ program, Program.ofModule rosterAdjusted = .ok program) ∧
      rosterAdjusted.EntriesFit "entry_" ∧
      ∃ d c' e, insert rosterBytes { policy := {} } = .ok d c' ∧ c'.get? d = some e ∧
        e.entry? 7 = some 0 ∧ e.entry? (-7) = none ∧ (∀ n, n ∈ e.selectors ↔ n = 7) ∧
        e.start = some 1 := by
  have htold : Told ([] ++ [rosterBytes]) := by
    intro a ha b hb _
    rw [List.mem_singleton.mp ha, List.mem_singleton.mp hb]
  have hadjust : Policy.adjust {} rosterModule = .ok () rosterAdjusted := rfl
  have hvalid : rosterAdjusted.validate = .ok () := rfl
  have hbodies : rosterAdjusted.compileBodies 0 rosterModule.codes
      = .ok [{ locals := #[], code := #[.endMark] }, { locals := #[], code := #[.endMark] }] := by
    cbv
  have hprogram := Program.ofModule_of_bodies hvalid hbodies
  obtain ⟨hiff, htable, -⟩ := selector_table htold parse_rosterBytes hadjust hprogram
  have hpoints : rosterAdjusted.points "entry_" = [⟨7, "entry_+07", 0⟩] := by cbv
  have hentry : ∀ n func, rosterAdjusted.ExportsEntry "entry_" n func ↔ n = 7 ∧ func = 0 := by
    intro n func
    rw [Module.exportsEntry_iff, hpoints]
    simp only [List.mem_singleton, exists_eq_left, eq_comm]
  have hfit : rosterAdjusted.EntriesFit "entry_" := by
    refine ⟨?_, Module.nodup_selectors_iff.mp ?_⟩
    · intro n func type hexports htype
      obtain ⟨rfl, rfl⟩ := (hentry n func).mp hexports
      cases htype
      rfl
    · rw [hpoints]
      exact List.nodup_singleton 7
  obtain ⟨d, c', hinsert⟩ := hiff.mpr hfit
  obtain ⟨e, hfound, -, htable, -, hselectors, hstart⟩ := htable d c' hinsert
  have hnone : e.entry? (-7) = none := by
    refine Option.eq_none_iff_forall_ne_some.mpr fun func hfunc => ?_
    exact absurd ((hentry (-7) func).mp ((htable (-7) func).mp hfunc)).1 (by decide)
  refine ⟨htold, parse_rosterBytes, hadjust, ⟨_, hprogram⟩, hfit, d, c', e, hinsert, hfound,
    (htable 7 0).mpr ((hentry 7 0).mpr ⟨rfl, rfl⟩), hnone, fun n => ?_, hstart⟩
  rw [hselectors]
  constructor
  · rintro ⟨func, hn⟩
    exact ((hentry n func).mp hn).1
  · rintro rfl
    exact ⟨0, (hentry 7 0).mpr ⟨rfl, rfl⟩⟩

end Catalog

end MeteredSandbox
