import MeteredSandbox.Toml.Item
import MeteredSandbox.Toml.Number

/-!
# TOML documents

A document is a list of statements, each on a line of its own: a key with its value, or the header
of the table that the following keys go into. `Toml.read` gives the root table, or nothing for a
text that is no document.
-/

namespace MeteredSandbox.Toml

/-- A bound on the parts of a dotted key, and on the nesting of values: both stay below it. -/
def maxDepth : Nat := 80

/-- A character of a key without quotes. -/
def isBare (c : Char) : Bool := c.isAlphanum || c = '_' || c = '-'

/-- Reads one part of a key. -/
def keyPart : Scan String :=
  quotedText <|> verbatimText <|> String.ofList <$> Scan.run1 isBare

/-- Reads a key, the parts of which are joined by dots. -/
def key : Scan Key := do
  let parts ← Scan.separated1 (Scan.literal ['.']) (blanks *> keyPart <* blanks)
  guard (parts.length < maxDepth)
  match parts.getLast? with
  | some last => return { path := parts.dropLast, last }
  | none => failure

/-- Reads a value that contains no other. -/
def scalar : Scan Item :=
  .text <$> text
    <|> (date *> pure .date)
    <|> (float *> pure .float)
    <|> .integer <$> integer
    <|> (Scan.literal ['t', 'r', 'u', 'e'] *> pure (.boolean true))
    <|> (Scan.literal ['f', 'a', 'l', 's', 'e'] *> pure (.boolean false))

/-- Reads a list in brackets, given how to read an element. It may take several lines, and have a
comma after the last element. -/
def list (element : Scan Item) : Scan Item := do
  Scan.literal ['[']
  let items ← Scan.optional do
    let items ← Scan.separated1 (Scan.literal [',']) (gap *> element <* gap)
    discard (Scan.optional (Scan.literal [',']))
    return items
  gap
  Scan.literal [']']
  return .list (items.getD [])

/-- Reads a key and its value. -/
def pair (value : Scan Item) : Scan (Key × Item) := do
  let k ← key
  Scan.literal ['=']
  blanks
  let v ← value
  blanks
  return (k, v)

/-- Reads a table in braces, given how to read a value. -/
def braced (value : Scan Item) : Scan Item := do
  Scan.literal ['\x7b']
  let pairs ← Scan.optional (Scan.separated1 (Scan.literal [',']) (pair value))
  blanks
  Scan.literal ['\x7d']
  let entries ← (pairs.getD []).foldlM (fun (entries : Entries) (k, v) =>
    (entries.addPair k v .header : Option Entries)) []
  return .table .closed entries

/-- Reads a value in which others are nested at most `depth` deep. -/
def value : (depth : Nat) → Scan Item
  | 0 => scalar
  | depth + 1 => scalar <|> list (value depth) <|> braced (value depth)

/-- What stands on a line. -/
inductive Statement where
  | blank
  | pair (key : Key) (value : Item)
  | table (key : Key)
  | element (key : Key)

namespace Statement

/-- Reads a statement, with its line end. -/
def scan : Scan Statement :=
  (newline *> pure .blank)
    <|> (comment *> lineRest *> pure .blank)
    <|> (do
      Scan.literal ['[', '[']
      let k ← key
      Scan.literal [']', ']']
      lineRest
      return .element k)
    <|> (do
      Scan.literal ['[']
      let k ← key
      Scan.literal [']']
      lineRest
      return .table k)
    <|> (do
      let (k, v) ← Toml.pair (value (maxDepth - 1))
      lineRest
      return .pair k v)

end Statement

/-- Reads all statements of a text, which may start with a byte order mark. -/
def statements : Scan (List Statement) := do
  discard (Scan.optional (Scan.literal ['\uFEFF']))
  let all ← Scan.many (blanks *> Statement.scan)
  blanks
  Scan.atEnd
  return all

/-- A document as far as it has been read. -/
structure Document where
  root : Entries := []
  /-- The table that keys go into. -/
  current : List String := []

namespace Document

/-- Adds a statement, if it fits what came before. -/
def add (d : Document) : Statement → Option Document
  | .blank => some d
  | .pair key value => do
    let root ← d.root.within .implied (fun origin entries => entries.addPair key value origin)
      d.current .header
    return { d with root }
  | .table key => do
    let root ← d.root.addTable key
    return { root, current := key.path ++ [key.last] }
  | .element key => do
    let root ← d.root.addElement key
    return { root, current := key.path ++ [key.last] }

end Document

/-- The root table of the document that a text spells. -/
def read (text : String) : Option Entries := do
  let (all, _) ← statements text.toList
  let document ← all.foldlM Document.add {}
  return document.root

end MeteredSandbox.Toml
