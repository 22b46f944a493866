import MeteredSandbox.Bytes.Field

/-!
# Sections

After its preamble a guest binary is a run of sections: a byte that says what the section holds, the
length of its payload, and the payload. `RawSection.all` cuts a byte string into sections without
looking inside them; what a payload holds is for `Module.Parse`.
-/

namespace MeteredSandbox

/-- What a section holds, in the order in which sections may follow one another. Custom sections may
stand anywhere. -/
inductive SectionId where
  | custom
  | types
  | imports
  | functions
  | tables
  | memories
  | globals
  | exports
  | start
  | elements
  | code
  | data
  deriving DecidableEq

namespace SectionId

/-- The byte that stands for the section. -/
def number : SectionId → Nat
  | custom => 0
  | types => 1
  | imports => 2
  | functions => 3
  | tables => 4
  | memories => 5
  | globals => 6
  | exports => 7
  | start => 8
  | elements => 9
  | code => 10
  | data => 11

/-- All kinds of section, by number. -/
def all : List SectionId :=
  [custom, types, imports, functions, tables, memories, globals, exports, start, elements, code,
    data]

/-- The kind of section that a byte stands for. -/
def ofByte? (b : UInt8) : Option SectionId := all[b.toNat]?

theorem all_getElem?_number (s : SectionId) : all[s.number]? = some s := by
  cases s <;> rfl

/-- The name of the kind of section. -/
def name : SectionId → String
  | custom => "Custom"
  | types => "Type"
  | imports => "Import"
  | functions => "Function"
  | tables => "Table"
  | memories => "Memory"
  | globals => "Global"
  | exports => "Export"
  | start => "Start"
  | elements => "Element"
  | code => "Code"
  | data => "Data"

end SectionId

/-- What stands in front of a payload. -/
structure SectionHeader where
  id : SectionId
  payloadLength : Nat
  /-- The offset of the payload's first byte. -/
  payloadOffset : Nat
  deriving DecidableEq

/-- A section whose payload has not been looked into. -/
structure RawSection where
  id : SectionId
  payloadOffset : Nat
  payload : List UInt8
  deriving DecidableEq

namespace Reader

/-- The kind of the next section. -/
def sectionId : Reader SectionId := do
  let start ← offset
  let b ← byte
  match SectionId.ofByte? b with
  | some id => return id
  | none => throw (.malformed start .sectionId)

/-- The kind of the next section and the length of its payload. -/
def sectionHeader : Reader SectionHeader := do
  let id ← sectionId
  let payloadLength ← index
  let payloadOffset ← offset
  return { id, payloadLength, payloadOffset }

/-- The next section. -/
def rawSection : Reader RawSection := do
  let header ← sectionHeader
  let payload ← bytes header.payloadLength
  return { id := header.id, payloadOffset := header.payloadOffset, payload }

/-- A section takes at least one byte. -/
theorem rawSection_shorter {c c' : Cursor} {s : RawSection} (h : rawSection c = .ok s c') :
    c'.rest.length < c.rest.length := by
  have after : ∀ id, Forward (do
      let payloadLength ← index
      let payloadOffset ← offset
      let payload ← bytes payloadLength
      return { id, payloadOffset, payload : RawSection }) := fun _ =>
    Forward.bind Forward.index fun _ => Forward.bind Forward.offset fun _ =>
      Forward.bind (Forward.bytes _) fun _ => Forward.pure _
  simp only [rawSection, sectionHeader, sectionId, bind_assoc, pure_bind] at h
  change EStateM.bind offset _ c = _ at h
  simp only [EStateM.bind, offset] at h
  change EStateM.bind byte _ c = _ at h
  unfold EStateM.bind at h
  split at h
  · next b c₁ hb =>
    have hb := byte_eq_ok hb
    dsimp only at h
    split at h
    · next id _ =>
      have := (after id).rest_length_le h
      simp only [hb.1, List.length_cons]
      omega
    · cases h
  · cases h

end Reader

namespace RawSection

/-- The sections from the cursor on, and the error that ends them, if one does. -/
def all (c : Cursor) : List RawSection × Option ReadError :=
  if c.isAtEnd then ([], none)
  else
    match h : Reader.rawSection c with
    | .error e _ => ([], some e)
    | .ok s c' =>
      have : c'.rest.length < c.rest.length := Reader.rawSection_shorter h
      let (more, broken) := all c'
      (s :: more, broken)
termination_by c.rest.length

end RawSection

end MeteredSandbox
