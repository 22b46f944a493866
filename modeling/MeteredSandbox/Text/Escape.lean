import MeteredSandbox.Text.Hex
import MeteredSandbox.Text.Unprintable

/-!
# Quoted text

Names from a guest binary may hold any character, so messages show them between quotes, with a
backslash before the quote and the backslash, short forms for the common controls, and a number in
braces for every other character that would not show.
-/

namespace MeteredSandbox.Text

/-- How `c` is written between two marks `quote`. -/
def escape (quote c : Char) : List Char :=
  if c = quote || c = '\\' then ['\\', c]
  else if c = '\x00' then ['\\', '0']
  else if c = '\t' then ['\\', 't']
  else if c = '\n' then ['\\', 'n']
  else if c = '\r' then ['\\', 'r']
  else if c.toNat < 32 || c.toNat = 127 || isUnprintable c then
    ['\\', 'u', '\x7b'] ++ Hex.ofNat c.toNat ++ ['\x7d']
  else [c]

/-- The text between double quotes. -/
def quoted (text : String) : String :=
  String.ofList ('"' :: text.toList.flatMap (escape '"') ++ ['"'])

/-- The character between single quotes. -/
def quotedChar (c : Char) : String :=
  String.ofList ('\x27' :: escape '\x27' c ++ ['\x27'])

end MeteredSandbox.Text
