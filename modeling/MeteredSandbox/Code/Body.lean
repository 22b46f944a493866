import MeteredSandbox.Code.Nesting

/-!
# Decoding function bodies

A body decodes when its words are properly bracketed and the end that closes the body is the last of
its bytes. The result is the flat form of the sequence that the words spell.
-/

namespace MeteredSandbox

/-- Why a function body is refused, and where. -/
structure DecodeError where
  func : Nat
  offset : Nat
  flaw : BodyFlaw
  deriving DecidableEq

/-- The message of a decode error. -/
def DecodeError.message (e : DecodeError) : String :=
  s!"function {e.func}: malformed body at byte {e.offset}: " ++ e.flaw.text

namespace Seq

/-- The sequence that the bytes spell, or the place where they go wrong. -/
def decode (bytes : List UInt8) : Except (Nat × BodyFlaw) Seq :=
  let (words, (stop, flaw)) := Token.scan (.start bytes)
  match Nesting.feedAll .initial words with
  | .stray offset => .error (offset, .strayElse)
  | .unfinished => .error (stop, flaw)
  | .whole body left =>
    let next := (left.head?.map Prod.fst).getD stop
    if next = bytes.length then .ok body else .error (next, .trailingBytes)

end Seq

/-- The instructions of the function `func`, whose bytes are `bytes`. -/
def decodeBody (func : Nat) (bytes : List UInt8) : Except DecodeError (List Instr) :=
  match Seq.decode bytes with
  | .ok body => .ok body.code
  | .error (offset, flaw) => .error { func, offset, flaw }

end MeteredSandbox
