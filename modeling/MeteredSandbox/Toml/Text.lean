import MeteredSandbox.Text.Hex
import MeteredSandbox.Text.Scan

/-!
# TOML texts

Blanks, line ends and comments, and the four ways to write a text: between double quotes with
escapes, between single quotes as it stands, and both of these over several lines between three
quotes.
-/

namespace MeteredSandbox.Toml

/-- A space or a tab. -/
def isBlank (c : Char) : Bool := c = ' ' || c = '\t'

/-- A character that may stand in a comment: a tab, or one that is not a control. -/
def isPrintable (c : Char) : Bool := c = '\t' || (32 ≤ c.toNat && c.toNat ≠ 127)

/-- Reads blanks. -/
def blanks : Scan Unit := discard (Scan.run isBlank)

/-- Reads a line feed, or a carriage return and a line feed. -/
def newline : Scan Unit := Scan.literal ['\n'] <|> Scan.literal ['\r', '\n']

/-- Reads a comment, up to the end of its line. -/
def comment : Scan Unit := do
  Scan.literal ['#']
  discard (Scan.run isPrintable)

/-- Reads the rest of a line on which nothing more is expected. -/
def lineRest : Scan Unit := do
  blanks
  discard (Scan.optional comment)
  newline <|> Scan.atEnd

/-- Reads blanks, line ends and comments. -/
def gap : Scan Unit :=
  discard (Scan.many (discard (Scan.run1 isBlank) <|> newline <|> (comment *> newline)))

/-- The number that some digits spell. -/
def digitsValue (base : Nat) (digits : List Char) : Nat :=
  digits.foldl (fun n c => base * n + (Hex.digit? (UInt8.ofNat c.toNat)).getD 0) 0

/-- An ASCII hexadecimal digit. -/
def isHexDigit (c : Char) : Bool :=
  c.isDigit || ('a' ≤ c && c ≤ 'f') || ('A' ≤ c && c ≤ 'F')

/-- Reads exactly `count` characters of a class. -/
def exactly (count : Nat) (isMember : Char → Bool) : Scan (List Char) :=
  match count with
  | 0 => pure []
  | count + 1 => do
    let c ← Scan.char isMember
    let cs ← exactly count isMember
    return c :: cs

/-- Reads the number of a character in `count` hexadecimal digits. -/
def codePoint (count : Nat) : Scan Char := do
  let code := digitsValue 16 (← exactly count isHexDigit)
  guard code.isValidChar
  return Char.ofNat code

/-- Reads what follows the backslash of an escape. -/
def escaped : Scan Char := do
  match ← Scan.char fun _ => true with
  | 'b' => return '\x08'
  | 't' => return '\t'
  | 'n' => return '\n'
  | 'f' => return '\x0c'
  | 'r' => return '\r'
  | '"' => return '"'
  | '\\' => return '\\'
  | 'u' => codePoint 4
  | 'U' => codePoint 8
  | _ => failure

/-- A character that needs no escape between double quotes. -/
def isPlain (c : Char) : Bool := isPrintable c && c ≠ '"' && c ≠ '\\'

/-- A character that may stand between single quotes. -/
def isVerbatim (c : Char) : Bool := isPrintable c && c ≠ '\x27'

/-- Reads an escape. -/
def escape : Scan (List Char) := do
  Scan.literal ['\\']
  let c ← escaped
  return [c]

/-- Reads a text between double quotes. -/
def quotedText : Scan String := do
  Scan.literal ['"']
  let parts ← Scan.many (Scan.run1 isPlain <|> escape)
  Scan.literal ['"']
  return String.ofList parts.flatten

/-- Reads a text between single quotes. -/
def verbatimText : Scan String := do
  Scan.literal ['\x27']
  let content ← Scan.run isVerbatim
  Scan.literal ['\x27']
  return String.ofList content

/-- Reads a backslash at the end of a line, with all blanks and line ends that follow. -/
def continuation : Scan (List Char) := do
  Scan.literal ['\\']
  blanks
  newline
  discard (Scan.many (discard (Scan.run1 isBlank) <|> newline))
  return []

/-- Reads one or two quotes that stand inside a text of several lines. -/
def innerQuotes (quote : Char) : Scan (List Char) := do
  let quotes ← Scan.run1 (· = quote)
  guard (quotes.length < 3)
  return quotes

/-- Reads the three quotes that end a text of several lines, and up to two before them that belong
to the text. -/
def closingQuotes (quote : Char) : Scan (List Char) := do
  let quotes ← Scan.run (· = quote)
  guard (3 ≤ quotes.length ∧ quotes.length ≤ 5)
  return quotes.drop 3

/-- Reads a text of several lines between three quotes, given how to read a piece of one line. A
line end right after the opening quotes is no part of it, and every line end counts as a line
feed. -/
def longText (quote : Char) (piece : Scan (List Char)) : Scan String := do
  Scan.literal [quote, quote, quote]
  discard (Scan.optional newline)
  let parts ← Scan.many (piece <|> (newline *> pure ['\n']) <|> innerQuotes quote)
  let last ← closingQuotes quote
  return String.ofList (parts.flatten ++ last)

/-- Reads a text in any of the four ways. -/
def text : Scan String :=
  longText '"' (Scan.run1 isPlain <|> continuation <|> escape) <|> quotedText
    <|> longText '\x27' (Scan.run1 isVerbatim) <|> verbatimText

end MeteredSandbox.Toml
