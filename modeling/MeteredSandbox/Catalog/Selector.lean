import MeteredSandbox.Program

/-!
# Selectors

An export named with the entry mark and a number is an **entry point**, and the number is its
selector. Numbers are decimal and of 32 bits; a sign and leading zeros are allowed, so that several
names may have the same selector.
-/

namespace MeteredSandbox

/-- The number that some digits spell, of which there must be one at least. -/
def decimal? (digits : List Char) : Option Nat :=
  if digits ≠ [] ∧ digits.all Char.isDigit then
    some (digits.foldl (fun n c => 10 * n + (c.toNat - 48)) 0)
  else none

/-- The number that digits with an optional sign spell. -/
def signedDecimal? : List Char → Option Int
  | '-' :: digits => (decimal? digits).map fun n => -(n : Int)
  | '+' :: digits => (decimal? digits).map Int.ofNat
  | digits => (decimal? digits).map Int.ofNat

/-- The selector that a text spells. -/
def Selector.parse? (text : List Char) : Option Int :=
  (signedDecimal? text).filter fun n => -0x8000_0000 ≤ n ∧ n < 0x8000_0000

/-- The rest of a text that starts with the given mark. -/
def afterMark? : (mark text : List Char) → Option (List Char)
  | [], text => some text
  | m :: mark, c :: text => if m = c then afterMark? mark text else none
  | _ :: _, [] => none

/-- The selector of a name, if it is the name of an entry point. -/
def Selector.ofName? (mark name : String) : Option Int :=
  (afterMark? mark.toList name.toList).bind Selector.parse?

/-- A function that an embedder may call by its selector. -/
structure EntryPoint where
  selector : Int
  name : String
  func : Nat
  deriving DecidableEq

/-- Why the entry points of a program are unacceptable. -/
inductive EntryPointError where
  | noFunction (func : Nat)
  | signature (name : String) (type : FuncType)
  | duplicate (selector : Int) (first second : String)
  deriving DecidableEq

/-- The entry points among some exports, after those found so far. Entry points take nothing, and
there is only one for each selector. -/
def Program.collectEntryPoints (p : Program) (mark : String) (found : List EntryPoint) :
    List Export → Except EntryPointError (List EntryPoint)
  | [] => .ok found
  | e :: rest =>
    match e.kind, Selector.ofName? mark e.name with
    | .func func, some selector =>
      match p.funcType? func with
      | none => .error (.noFunction func)
      | some type =>
        if type.params ≠ [] ∨ 1 < type.results.length then .error (.signature e.name type)
        else
          match found.find? fun point => point.selector = selector with
          | some first => .error (.duplicate selector first.name e.name)
          | none => p.collectEntryPoints mark (found ++ [{ selector, name := e.name, func }]) rest
    | _, _ => p.collectEntryPoints mark found rest

/-- The entry points of a program, in the order of its exports. -/
def Program.entryPoints (p : Program) (mark : String) :
    Except EntryPointError (List EntryPoint) :=
  p.collectEntryPoints mark [] p.source.exports

end MeteredSandbox
