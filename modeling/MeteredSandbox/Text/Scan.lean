/-!
# Scanning text

A `Scan` reads something at the front of a text, or fails and reads nothing. `a <|> b` reads as `b`
where `a` fails.
-/

namespace MeteredSandbox

/-- Reads something at the front of a text. -/
abbrev Scan := StateT (List Char) Option

namespace Scan

variable {α : Type}

/-- Reads a character of a class. -/
def char (isMember : Char → Bool) : Scan Char
  | [] => none
  | c :: rest => if isMember c then some (c, rest) else none

/-- Reads the longest run of characters of a class. -/
def run (isMember : Char → Bool) : Scan (List Char) := fun s =>
  some (s.takeWhile isMember, s.dropWhile isMember)

/-- Reads the longest run of characters of a class, which must not be empty. -/
def run1 (isMember : Char → Bool) : Scan (List Char) := do
  let cs ← run isMember
  guard (cs ≠ [])
  return cs

/-- Reads the given characters. -/
def literal : List Char → Scan Unit
  | [] => pure ()
  | c :: cs => do
    discard (char (· = c))
    literal cs

/-- Reads nothing, at the end of the text. -/
def atEnd : Scan Unit := fun s => if s.isEmpty then some ((), s) else none

/-- Reads what `item` reads, if it can. -/
def optional (item : Scan α) : Scan (Option α) := some <$> item <|> pure none

/-- Reads as many items as there are, but no more than `bound` is long. -/
def manyWithin (item : Scan α) : (bound : List Char) → Scan (List α)
  | [] => pure []
  | _ :: bound => (do
      let a ← item
      let rest ← manyWithin item bound
      return a :: rest) <|> pure []

/-- Reads as many items as there are. Each is expected to read a character at least, so there are no
more of them than characters. -/
def many (item : Scan α) : Scan (List α) := fun s => manyWithin item s s

/-- Reads one or more items with a separator between any two. -/
def separated1 (separator : Scan Unit) (item : Scan α) : Scan (List α) := do
  let first ← item
  let rest ← many (separator *> item)
  return first :: rest

end Scan

end MeteredSandbox
