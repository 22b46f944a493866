import MeteredSandbox.Digest.Tree
import MeteredSandbox.Text.Escape

/-!
# Digests

A program is known by the digest of its bytes. Digests are written as 64 hexadecimal digits.
-/

namespace MeteredSandbox

/-- The digest of a program. -/
structure Digest where
  bytes : List UInt8
  length_bytes : bytes.length = 32
  deriving DecidableEq

namespace Digest

/-- The digest of some bytes. -/
def of (bytes : List UInt8) : Digest := ⟨Blake3.hash bytes, Blake3.length_hash bytes⟩

/-- The digest in hexadecimal digits. -/
def hex (d : Digest) : String := Hex.encode d.bytes

/-- The first eight digits, which are enough for people. -/
def short (d : Digest) : String := Hex.encode (d.bytes.take 4)

/-- The digest as shown to a developer. -/
def debugText (d : Digest) : String := "ContentHash(" ++ d.short ++ ")"

/-- The digest as a number, its first byte the most significant. Digests are put in this order. -/
def toNat (d : Digest) : Nat := LittleEndian.toNat d.bytes.reverse

/-- Why a text is no digest. -/
inductive ParseError where
  /-- It has this many bytes. -/
  | length (size : Nat)
  /-- This byte of it is no digit. -/
  | invalidDigit (byte : UInt8) (position : Nat)
  deriving DecidableEq

/-- The message of a parse error. A byte is shown as the character of its code. -/
def ParseError.message : ParseError → String
  | length size => s!"digest must be 64 hex characters, got {size}"
  | invalidDigit byte position =>
    "digest is not valid hex: Invalid character " ++ Text.quotedChar (Char.ofNat byte.toNat)
      ++ s!" at position {position}"

/-- The digest that a text of 64 digits, in either case, spells. -/
def parse (text : String) : Except ParseError Digest :=
  let codes := text.toUTF8.toList
  if codes.length = 64 then
    match Hex.decode codes with
    | .ok bytes => if h : bytes.length = 32 then .ok ⟨bytes, h⟩ else .error (.length codes.length)
    | .error (.invalidDigit byte position) => .error (.invalidDigit byte position)
    | .error .oddLength => .error (.length codes.length)
  else .error (.length codes.length)

end Digest

end MeteredSandbox
