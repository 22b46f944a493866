import Mathlib
import MeteredSandbox.Proofs.Admission

/-!
# Catalogs without a history

Programs are admitted one after another, and an admission looks at what is in the catalog already.
Yet the order in which they come makes no difference, nor does it matter how often each of them
comes (`Catalog.insertAll_perm`).

What makes it so is that a catalog **consists** of its programs (`Catalog.ConsistsOf`): it has the
entry of each program that the policy accepts, once, and no other. Inserting one more program keeps
this. A program that is refused leaves nothing behind, and a program whose digest is found is the
one that was accepted under it, as long as no two programs have the same digest. In either case the
answer is what the policy alone makes of the program. Two catalogs that consist of the same programs
have the same entries up to their order, and neither the look-up nor the sorted list of digests
shows the order.
-/

namespace MeteredSandbox

/-! ### The order of digests -/

/-- Digests are told apart by their numbers. -/
theorem Digest.toNat_injective : Function.Injective Digest.toNat := by
  rintro ⟨xs, hxs⟩ ⟨ys, hys⟩ h
  have hlength : xs.reverse.length = ys.reverse.length := by
    rw [List.length_reverse, List.length_reverse, hxs, hys]
  have hreverse : xs.reverse = ys.reverse := by
    rw [← LittleEndian.ofNat_toNat xs.reverse, ← LittleEndian.ofNat_toNat ys.reverse, hlength]
    exact congrArg _ h
  exact Digest.mk.injEq .. ▸ List.reverse_injective hreverse

/-! ### Looking up and listing -/

section Lookup

variable {α κ : Type} [DecidableEq κ] {key : α → κ} {xs : List α} {k : κ}

/-- What is looked up by a key is there and has that key. -/
theorem of_find?_key {x : α} (h : xs.find? (fun y => key y = k) = some x) : x ∈ xs ∧ key x = k := by
  have hkey := List.find?_some h
  exact ⟨List.mem_of_find?_eq_some h, of_decide_eq_true hkey⟩

/-- Nothing is found for a key exactly if nothing has it. -/
theorem find?_key_eq_none_iff : xs.find? (fun y => key y = k) = none ↔ k ∉ xs.map key := by
  rw [List.find?_eq_none, List.mem_map, not_exists]
  refine forall_congr' fun x => ?_
  rw [decide_eq_true_iff, not_and]

/-- Where keys are different, look-up finds exactly what has the key. -/
theorem find?_key_eq_some_iff (h : (xs.map key).Nodup) {x : α} :
    xs.find? (fun y => key y = k) = some x ↔ x ∈ xs ∧ key x = k := by
  refine ⟨of_find?_key, ?_⟩
  rintro ⟨hmem, rfl⟩
  cases hfound : xs.find? fun y => key y = key x with
  | none => exact absurd (List.mem_map_of_mem hmem) (find?_key_eq_none_iff.mp hfound)
  | some x' =>
    obtain ⟨hmem', hkey⟩ := of_find?_key hfound
    rw [List.inj_on_of_nodup_map h hmem' hmem hkey]

end Lookup

namespace Catalog

/-- No two entries have the same digest. -/
def Distinct (c : Catalog) : Prop := (c.entries.map CatalogEntry.digest).Nodup

section Listing

variable {c c' : Catalog}

theorem of_get?_eq_some {d : Digest} {e : CatalogEntry} (h : c.get? d = some e) :
    e ∈ c.entries ∧ e.digest = d :=
  of_find?_key h

/-- In a catalog of distinct entries, look-up finds exactly what is there. -/
theorem get?_eq_some_iff (h : c.Distinct) {d : Digest} {e : CatalogEntry} :
    c.get? d = some e ↔ e ∈ c.entries ∧ e.digest = d :=
  find?_key_eq_some_iff h

/-- **The order of the entries does not show** in what is looked up. -/
theorem get?_perm (h : c.Distinct) (h' : c'.Distinct) (hperm : c.entries.Perm c'.entries)
    (d : Digest) : c.get? d = c'.get? d := by
  apply Option.ext
  intro e
  rw [get?_eq_some_iff h, get?_eq_some_iff h', hperm.mem_iff]

/-- Nor does it show in the list of digests, which is sorted. -/
theorem digests_perm (hperm : c.entries.Perm c'.entries) : c.digests = c'.digests := by
  have hle : ∀ a b : Digest, decide (a.toNat ≤ b.toNat) = true ↔ a.toNat ≤ b.toNat :=
    fun a b => decide_eq_true_iff
  have htrans : ∀ a b d : Digest, decide (a.toNat ≤ b.toNat) = true →
      decide (b.toNat ≤ d.toNat) = true → decide (a.toNat ≤ d.toNat) = true := by
    simp only [hle]
    exact fun a b d => Nat.le_trans
  have htotal : ∀ a b : Digest,
      (decide (a.toNat ≤ b.toNat) || decide (b.toNat ≤ a.toNat)) = true := by
    intro a b
    rw [Bool.or_eq_true, hle, hle]
    exact Nat.le_total _ _
  have hsame : c.digests.Perm c'.digests :=
    (List.mergeSort_perm _ _).trans ((hperm.map _).trans (List.mergeSort_perm _ _).symm)
  refine hsame.eq_of_pairwise ?_ (List.pairwise_mergeSort htrans htotal _)
    (List.pairwise_mergeSort htrans htotal _)
  intro a b _ _ hab hba
  exact Digest.toNat_injective (Nat.le_antisymm ((hle a b).mp hab) ((hle b a).mp hba))

end Listing

end Catalog

/-! ### Consisting of programs -/

/-- What a policy answers to a program: its digest, or why it is refused. -/
def Policy.answer (p : Policy) (bytes : List UInt8) : Except AdmissionError Digest :=
  (p.accept bytes).map CatalogEntry.digest

namespace Catalog

/-- A catalog **consists** of some programs under a policy: it has an entry for each of them that
the policy accepts, and no other. -/
structure ConsistsOf (policy : Policy) (programs : List (List UInt8)) (c : Catalog) : Prop where
  policy_eq : c.policy = policy
  distinct : c.Distinct
  mem_iff : ∀ e, e ∈ c.entries ↔ ∃ bytes ∈ programs, policy.accept bytes = .ok e

/-- No two different programs of a list have the same digest. -/
def Told (programs : List (List UInt8)) : Prop :=
  ∀ a ∈ programs, ∀ b ∈ programs, Digest.of a = Digest.of b → a = b

/-- Asks for the admission of one program: the answer, and the catalog that is left. -/
def attempt (c : Catalog) (bytes : List UInt8) : Except AdmissionError Digest × Catalog :=
  match insert bytes c with
  | .ok d c' => (.ok d, c')
  | .error e c' => (.error e, c')

/-- Asks for the admission of programs one after another: the answers in the same order, and the
catalog that is left. -/
def insertAll (c : Catalog) : List (List UInt8) → List (Except AdmissionError Digest) × Catalog
  | [] => ([], c)
  | bytes :: rest =>
    let (answer, c') := c.attempt bytes
    let (answers, c'') := c'.insertAll rest
    (answer :: answers, c'')

section Attempts

variable {c : Catalog} {bytes : List UInt8}

/-- **What an insertion can come to**: the digest is there already, the policy accepts the program
and its entry is added, or the policy refuses it. -/
theorem insert_cases (c : Catalog) (bytes : List UInt8) :
    (∃ e, c.get? (.of bytes) = some e ∧ insert bytes c = .ok (.of bytes) c) ∨
      (∃ e, c.get? (.of bytes) = none ∧ c.policy.accept bytes = .ok e ∧
        insert bytes c = .ok (.of bytes) { c with entries := c.entries ++ [e] }) ∨
      ∃ e, c.get? (.of bytes) = none ∧ c.policy.accept bytes = .error e ∧
        insert bytes c = .error e c := by
  cases hget : c.get? (.of bytes) with
  | some e =>
    refine .inl ⟨e, rfl, ?_⟩
    unfold insert
    rw [hget]
  | none =>
    cases haccept : c.policy.accept bytes with
    | ok e => exact .inr (.inl ⟨e, rfl, rfl, insert_of_accept hget haccept⟩)
    | error e => exact .inr (.inr ⟨e, rfl, rfl, insert_of_refuse hget haccept⟩)

/-- A program that is refused leaves nothing behind. -/
theorem insert_eq_error {e : AdmissionError} {c' : Catalog} (h : insert bytes c = .error e c') :
    c' = c := by
  rcases insert_cases c bytes with ⟨e', -, h'⟩ | ⟨e', -, -, h'⟩ | ⟨e', -, -, h'⟩
  · rw [h'] at h
    cases h
  · rw [h'] at h
    cases h
  · rw [h'] at h
    cases h
    rfl

/-- A program that is admitted is found under its digest. -/
theorem insert_eq_ok {d : Digest} {c' : Catalog} (h : insert bytes c = .ok d c') :
    d = .of bytes ∧ ∃ e, c'.get? (.of bytes) = some e := by
  rcases insert_cases c bytes with ⟨e, hfound, h'⟩ | ⟨e, hnew, haccept, h'⟩ | ⟨e, -, -, h'⟩
  · rw [h'] at h
    cases h
    exact ⟨rfl, e, hfound⟩
  · rw [h'] at h
    cases h
    obtain ⟨-, -, hdigest, -⟩ := Policy.accept_eq_ok haccept
    refine ⟨rfl, e, ?_⟩
    unfold get? at hnew ⊢
    rw [List.find?_append, hnew, Option.none_or, List.find?_cons, decide_eq_true hdigest]
  · rw [h'] at h
    cases h

/-- A program whose digest is found is not looked at again. -/
theorem insert_of_found {e : CatalogEntry} (h : c.get? (.of bytes) = some e) :
    insert bytes c = .ok (.of bytes) c := by
  unfold insert
  rw [h]

theorem attempt_of_ok {d : Digest} {c' : Catalog} (h : insert bytes c = .ok d c') :
    c.attempt bytes = (.ok d, c') := by
  unfold attempt
  rw [h]

theorem attempt_of_error {e : AdmissionError} {c' : Catalog} (h : insert bytes c = .error e c') :
    c.attempt bytes = (.error e, c') := by
  unfold attempt
  rw [h]

/-- Nothing that is in a catalog gets lost when one program more is tried. -/
theorem get?_attempt {d : Digest} {e : CatalogEntry} (h : c.get? d = some e) :
    (c.attempt bytes).2.get? d = some e := by
  rcases insert_cases c bytes with ⟨e', -, h'⟩ | ⟨e', -, -, h'⟩ | ⟨e', -, -, h'⟩
  · rw [attempt_of_ok h']
    exact h
  · rw [attempt_of_ok h']
    unfold get? at h ⊢
    rw [List.find?_append, h, Option.some_or]
  · rw [attempt_of_error h']
    exact h

/-- Nor when many are tried. -/
theorem get?_insertAll {d : Digest} {e : CatalogEntry} (h : c.get? d = some e)
    (programs : List (List UInt8)) : (c.insertAll programs).2.get? d = some e := by
  induction programs generalizing c with
  | nil => exact h
  | cons bytes rest ih => exact ih (get?_attempt h)

end Attempts

namespace ConsistsOf

variable {policy : Policy} {done : List (List UInt8)} {c : Catalog}

/-- A fresh catalog consists of nothing. -/
theorem fresh (policy : Policy) : ConsistsOf policy [] { policy } where
  policy_eq := rfl
  distinct := List.nodup_nil
  mem_iff e := by
    constructor
    · exact fun h => absurd h List.not_mem_nil
    · rintro ⟨bytes, hmem, -⟩
      exact absurd hmem List.not_mem_nil

/-- Only the programs that are accepted count. -/
theorem concat_of_refuse (h : c.ConsistsOf policy done) {bytes : List UInt8} {e : AdmissionError}
    (hrefuse : policy.accept bytes = .error e) : c.ConsistsOf policy (done ++ [bytes]) where
  policy_eq := h.policy_eq
  distinct := h.distinct
  mem_iff entry := by
    simp [h.mem_iff, hrefuse, or_and_right, exists_or]

/-- A program that comes again does not count either. -/
theorem concat_of_mem (h : c.ConsistsOf policy done) {bytes : List UInt8} (hmem : bytes ∈ done) :
    c.ConsistsOf policy (done ++ [bytes]) where
  policy_eq := h.policy_eq
  distinct := h.distinct
  mem_iff entry := by
    rw [h.mem_iff]
    constructor
    · rintro ⟨b, hb, haccept⟩
      exact ⟨b, List.mem_append_left _ hb, haccept⟩
    · rintro ⟨b, hb, haccept⟩
      rcases List.mem_append.mp hb with hb | hb
      · exact ⟨b, hb, haccept⟩
      · rw [List.mem_singleton.mp hb] at haccept
        exact ⟨bytes, hmem, haccept⟩

/-- A new program that is accepted adds its entry. -/
theorem concat_of_accept (h : c.ConsistsOf policy done) {bytes : List UInt8} {e : CatalogEntry}
    (hnew : c.get? (.of bytes) = none) (haccept : policy.accept bytes = .ok e) :
    ConsistsOf policy (done ++ [bytes]) { c with entries := c.entries ++ [e] } where
  policy_eq := h.policy_eq
  distinct := by
    obtain ⟨-, -, hdigest, -⟩ := Policy.accept_eq_ok haccept
    have hfresh : e.digest ∉ c.entries.map CatalogEntry.digest := by
      intro hmem
      obtain ⟨e', hmem', hsame⟩ := List.mem_map.mp hmem
      have hfound := (get?_eq_some_iff h.distinct).mpr ⟨hmem', hsame⟩
      rw [hdigest, hnew] at hfound
      cases hfound
    unfold Distinct
    rw [List.map_append]
    exact List.nodup_append.mpr ⟨h.distinct, List.nodup_singleton _, by
      rintro a ha b hb rfl
      rw [List.map_singleton, List.mem_singleton] at hb
      exact hfresh (hb ▸ ha)⟩
  mem_iff entry := by
    simp only [List.mem_append, List.mem_singleton, h.mem_iff]
    constructor
    · rintro (⟨b, hb, hb'⟩ | rfl)
      · exact ⟨b, .inl hb, hb'⟩
      · exact ⟨bytes, .inr rfl, haccept⟩
    · rintro ⟨b, hb | rfl, hb'⟩
      · exact .inl ⟨b, hb, hb'⟩
      · rw [haccept] at hb'
        cases hb'
        exact .inr rfl

/-- **One program more.** The answer is that of the policy, whatever the catalog has seen, and the
catalog consists of one program more. -/
theorem attempt (h : c.ConsistsOf policy done) (bytes : List UInt8)
    (htold : ∀ b ∈ done, Digest.of b = Digest.of bytes → b = bytes) :
    (c.attempt bytes).1 = policy.answer bytes ∧
      (c.attempt bytes).2.ConsistsOf policy (done ++ [bytes]) := by
  unfold Policy.answer
  rcases insert_cases c bytes with
    ⟨e, hfound, hinsert⟩ | ⟨e, hnew, haccept, hinsert⟩ | ⟨e, hnew, hrefuse, hinsert⟩
  · -- what is found was accepted under this digest, and only these bytes have it
    obtain ⟨hmem, hdigest⟩ := of_get?_eq_some hfound
    obtain ⟨b, hb, haccept⟩ := (h.mem_iff e).mp hmem
    obtain ⟨-, -, hdigest', -⟩ := Policy.accept_eq_ok haccept
    obtain rfl : b = bytes := htold b hb (hdigest'.symm.trans hdigest)
    rw [attempt_of_ok hinsert, haccept]
    exact ⟨congrArg Except.ok hdigest.symm, h.concat_of_mem hb⟩
  · rw [h.policy_eq] at haccept
    obtain ⟨-, -, hdigest, -⟩ := Policy.accept_eq_ok haccept
    rw [attempt_of_ok hinsert, haccept]
    exact ⟨congrArg Except.ok hdigest.symm, h.concat_of_accept hnew haccept⟩
  · rw [h.policy_eq] at hrefuse
    rw [attempt_of_error hinsert, hrefuse]
    exact ⟨rfl, h.concat_of_refuse hrefuse⟩

/-- **Many programs more**, by induction on the programs that are still to come. -/
theorem insertAll (h : c.ConsistsOf policy done) {programs : List (List UInt8)}
    (htold : Told (done ++ programs)) :
    (c.insertAll programs).1 = programs.map policy.answer ∧
      (c.insertAll programs).2.ConsistsOf policy (done ++ programs) := by
  induction programs generalizing c done with
  | nil => exact ⟨rfl, by rwa [List.append_nil]⟩
  | cons bytes rest ih =>
    obtain ⟨hanswer, hnext⟩ := h.attempt bytes fun b hb =>
      htold b (List.mem_append_left _ hb) bytes (List.mem_append_right _ List.mem_cons_self)
    rw [List.append_cons] at htold ⊢
    obtain ⟨hanswers, hlast⟩ := ih hnext htold
    refine ⟨?_, hlast⟩
    rw [List.map_cons, ← hanswer, ← hanswers]
    rfl

/-- The same programs in another order make the same entries. -/
theorem perm {done' : List (List UInt8)} {c' : Catalog} (h : c.ConsistsOf policy done)
    (h' : c'.ConsistsOf policy done') (hperm : done.Perm done') :
    c.entries.Perm c'.entries := by
  refine (List.perm_ext_iff_of_nodup h.distinct.of_map h'.distinct.of_map).mpr fun e => ?_
  rw [h.mem_iff, h'.mem_iff]
  constructor
  · rintro ⟨bytes, hmem, haccept⟩
    exact ⟨bytes, hperm.mem_iff.mp hmem, haccept⟩
  · rintro ⟨bytes, hmem, haccept⟩
    exact ⟨bytes, hperm.mem_iff.mpr hmem, haccept⟩

/-- Under the digest of a program there is the entry that the policy makes of it, if it does. -/
theorem get?_of (h : c.ConsistsOf policy done) (htold : Told done) {bytes : List UInt8}
    (hmem : bytes ∈ done) : c.get? (.of bytes) = (policy.accept bytes).toOption := by
  apply Option.ext
  intro e
  rw [get?_eq_some_iff h.distinct, h.mem_iff]
  constructor
  · rintro ⟨⟨b, hb, haccept⟩, hdigest⟩
    obtain ⟨-, -, hdigest', -⟩ := Policy.accept_eq_ok haccept
    obtain rfl : b = bytes := htold b hb bytes hmem (hdigest'.symm.trans hdigest)
    rw [haccept]
    rfl
  · intro haccept
    cases hresult : policy.accept bytes with
    | error e' =>
      rw [hresult] at haccept
      cases haccept
    | ok e' =>
      rw [hresult] at haccept
      cases haccept
      obtain ⟨-, -, hdigest, -⟩ := Policy.accept_eq_ok hresult
      exact ⟨⟨bytes, hmem, hresult⟩, hdigest⟩

end ConsistsOf

/-- **A catalog does not depend on its history.** Let no two different programs of a list have the
same digest. Inserted into a fresh catalog in two orders, the programs have the same answers, each
the one that the policy gives to the program by itself; and the two catalogs have the same digests,
with the same entries under them, which are those that the policy makes of the programs. Besides, a
refused insertion leaves a catalog as it was, and a program that was admitted once is answered with
its digest ever after, which changes nothing. -/
theorem insertAll_perm {policy : Policy} {xs ys : List (List UInt8)} (hperm : xs.Perm ys)
    (htold : Told xs) :
    let inOrder : Catalog := (insertAll { policy } xs).2
    let reordered : Catalog := (insertAll { policy } ys).2
    (insertAll { policy } xs).1 = xs.map policy.answer ∧
      (insertAll { policy } ys).1 = ys.map policy.answer ∧
      inOrder.digests = reordered.digests ∧
      (∀ d, inOrder.get? d = reordered.get? d) ∧
      (∀ bytes ∈ xs, inOrder.get? (.of bytes) = (policy.accept bytes).toOption) ∧
      (∀ (c c' : Catalog) (bytes : List UInt8) (e : AdmissionError),
        insert bytes c = .error e c' → c' = c) ∧
      ∀ (c c' : Catalog) (bytes : List UInt8) (d : Digest), insert bytes c = .ok d c' →
        ∀ programs, insert bytes (c'.insertAll programs).2 = .ok d (c'.insertAll programs).2 := by
  have htold' : Told ys := fun a ha b hb =>
    htold a (hperm.mem_iff.mpr ha) b (hperm.mem_iff.mpr hb)
  obtain ⟨hanswers, hxs⟩ := (ConsistsOf.fresh policy).insertAll htold
  obtain ⟨hanswers', hys⟩ := (ConsistsOf.fresh policy).insertAll htold'
  have hentries := hxs.perm hys hperm
  refine ⟨hanswers, hanswers', digests_perm hentries, get?_perm hxs.distinct hys.distinct hentries,
    fun bytes hmem => hxs.get?_of htold hmem, fun c c' bytes e => insert_eq_error, ?_⟩
  intro c c' bytes d hinsert programs
  obtain ⟨rfl, e, hfound⟩ := insert_eq_ok hinsert
  exact insert_of_found (get?_insertAll hfound programs)

/-- A program that comes twice and one that is refused, in two orders. -/
theorem demanding_insertAll_perm :
    let xs := [demandingBytes, [0x00], demandingBytes]
    let ys := [[0x00], demandingBytes, demandingBytes]
    let refusal : AdmissionError := .compile (.read (.unexpectedEnd 0))
    xs.Perm ys ∧ Told xs ∧
      (insertAll { policy := {} } xs).1
        = [.ok (.of demandingBytes), .error refusal, .ok (.of demandingBytes)] ∧
      (insertAll { policy := {} } ys).1
        = [.error refusal, .ok (.of demandingBytes), .ok (.of demandingBytes)] ∧
      (insertAll { policy := {} } xs).2.digests = (insertAll { policy := {} } ys).2.digests ∧
      (insertAll { policy := {} } ys).2.get? (.of demandingBytes) = some demandingEntry := by
  intro xs ys refusal
  have hperm : xs.Perm ys := List.Perm.swap _ _ _
  have hdiffer : (Digest.of demandingBytes).bytes ≠ (Digest.of [0x00]).bytes := by decide +kernel
  have heither : ∀ a ∈ xs, a = demandingBytes ∨ a = [0x00] := by
    intro a ha
    simp only [xs, List.mem_cons, List.not_mem_nil, or_false] at ha
    rcases ha with rfl | rfl | rfl
    · exact .inl rfl
    · exact .inr rfl
    · exact .inl rfl
  have htold : Told xs := by
    intro a ha b hb hsame
    rcases heither a ha with rfl | rfl <;> rcases heither b hb with rfl | rfl
    · rfl
    · exact absurd (congrArg Digest.bytes hsame) hdiffer
    · exact absurd (congrArg Digest.bytes hsame) hdiffer.symm
    · rfl
  obtain ⟨hanswers, hanswers', hdigests, hsame, hentry, -⟩ :=
    @insertAll_perm {} xs ys hperm htold
  have hadmitted : Policy.answer {} demandingBytes = .ok (.of demandingBytes) := by
    unfold Policy.answer
    rw [accept_demandingBytes]
    rfl
  have hrefused : Policy.answer {} [0x00] = .error refusal := rfl
  refine ⟨hperm, htold, ?_, ?_, hdigests, ?_⟩
  · rw [hanswers, List.map_cons, List.map_cons, List.map_cons, List.map_nil, hadmitted, hrefused]
  · rw [hanswers', List.map_cons, List.map_cons, List.map_cons, List.map_nil, hadmitted, hrefused]
  · rw [← hsame, hentry demandingBytes List.mem_cons_self, accept_demandingBytes]
    rfl

end Catalog

end MeteredSandbox
