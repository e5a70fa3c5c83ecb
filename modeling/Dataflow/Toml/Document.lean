import Dataflow.Toml.Item
import Dataflow.Toml.Moment
import Dataflow.Toml.Number
import Dataflow.Toml.Text

/-!
# TOML documents

`parse?` reads a document as a table of named items. A document is a sequence of lines: each
is empty, or has a header, or has a key and its item; a comment may end it. An item in
brackets, braces or quotes can extend over several lines.
-/

namespace Dataflow.Toml

open Reader

/-- Whether the character can be part of a key without quotes. -/
def isBareKey (c : Char) : Bool := c.isAlphanum || c == '-' || c == '_'

/-- Whether the character can be part of a number, a truth value, a date or a time. -/
def isScalar (c : Char) : Bool := isBareKey c || c == '+' || c == '.' || c == ':'

/-- How deep arrays and inline tables can be nested. -/
def maxDepth : Nat := 80

/-- How many parts a key can have. -/
def maxKeyParts : Nat := 80

/-- Takes one part of a key. -/
def keyPart : Reader String := do
  match (← rest) with
  | '"' :: _ | '\'' :: _ => lineText
  | _ =>
      let name ← takeWhile isBareKey
      if name.isEmpty then failure else return .ofList name

/-- Takes a key: parts with dots between them, at most as many as given. -/
def keyPath : Nat → Reader (List String)
  | 0 => failure
  | count + 1 => do
      blanks
      let part ← keyPart
      blanks
      if ← char? '.' then return part :: (← keyPath count) else return [part]

/-- Takes a key. -/
def key : Reader (List String) := keyPath maxKeyParts

/-- Takes the time after a date, if a blank and then a digit follow the date. -/
def timeAfterDate (token : List Char) : Reader (List Char) := do
  match (← rest) with
  | ' ' :: c :: _ =>
      if c.isDigit && afterDate? token == some [] then
        char ' '
        return token ++ ' ' :: (← takeWhile isScalar)
      else return token
  | _ => return token

/-- The item that a token without quotes stands for. -/
def scalarOf? (token : List Char) : Option Item :=
  if token = ['t', 'r', 'u', 'e'] then some (.boolean true)
  else if token = ['f', 'a', 'l', 's', 'e'] then some (.boolean false)
  else
    match integer? token with
    | some n => some (.integer n)
    | none =>
      match float? token with
      | some x => some (.float x)
      | none => if isMoment token then some (.moment (.ofList token)) else none

/-- Takes a number, a truth value, a date or a time. -/
def scalar : Reader Item := do
  let token ← timeAfterDate (← takeWhile isScalar)
  match scalarOf? token with
  | some item => return item
  | none => failure

/-- Takes the items of an array up to the closing bracket, at most as many as given. -/
def arrayItems (item : Reader Item) : Nat → Reader (List Item)
  | 0 => failure
  | count + 1 => do
      space
      if ← char? ']' then return []
      let first ← item
      space
      if ← char? ',' then return first :: (← arrayItems item count)
      char ']'
      return [first]

/-- Takes a key, the equals sign and an item, with a gap before and after the sign. -/
def assignment (gap : Reader Unit) (item : Reader Item) : Reader (List String × Item) := do
  let path ← key
  gap
  char '='
  gap
  return (path, ← item)

/-- Takes the assignments of an inline table up to the closing brace, at most as many as given,
and adds them to the entries. -/
def inlineEntries (item : Reader Item) : Nat → Entries → Reader Entries
  | 0, _ => failure
  | count + 1, entries => do
      space
      if ← char? '\x7d' then return entries
      let (path, value) ← assignment space item
      match entries.insertAt path value with
      | none => failure
      | some entries =>
          space
          if ← char? ',' then inlineEntries item count entries
          else
            char '\x7d'
            return entries

/-- Takes an item that is no array and no inline table. -/
def plainItem : Reader Item := do
  match (← rest) with
  | '"' :: _ | '\'' :: _ => return .text (← text)
  | _ => scalar

/-- Takes an item with arrays and inline tables nested at most as deep as given. -/
def item : Nat → Reader Item
  | 0 => plainItem
  | depth + 1 => do
      match (← rest) with
      | '[' :: _ =>
          char '['
          return .array (← arrayItems (item depth) ((← rest).length + 1))
      | '\x7b' :: _ =>
          char '\x7b'
          return .table .inline (← inlineEntries (item depth) ((← rest).length + 1) [])
      | _ => plainItem

/-- What has been read of a document: the items so far, and the path of the table that keys go
to. -/
structure Progress where
  entries : Entries
  path : List String

/-- Takes a header. -/
def header (p : Progress) : Reader Progress := do
  char '['
  if ← char? '[' then
    let path ← key
    char ']'
    char ']'
    match p.entries.openElement path with
    | some entries => return ⟨entries, path⟩
    | none => failure
  else
    let path ← key
    char ']'
    match p.entries.openTable path with
    | some entries => return ⟨entries, path⟩
    | none => failure

/-- Takes a key with its item. -/
def entry (p : Progress) : Reader Progress := do
  let (path, value) ← assignment blanks (item maxDepth)
  match p.entries.alterAt (fun inner => inner.insertAt path value) p.path with
  | some entries => return { p with entries }
  | none => failure

/-- Takes one line. -/
def line (p : Progress) : Reader Progress := do
  blanks
  let p ←
    match (← rest) with
    | [] | '#' :: _ | '\n' :: _ | '\r' :: _ => pure p
    | '[' :: _ => header p
    | _ => entry p
  blanks
  comment
  endOfLine
  return p

/-- Takes all lines, at most as many as given. -/
def lines : Nat → Progress → Reader Entries
  | 0, _ => failure
  | count + 1, p => do
      let p ← line p
      if (← rest).isEmpty then return p.entries else lines count p

/-- The characters of a document, a byte-order mark in front left out. -/
def characters (document : String) : List Char :=
  match document.toList with
  | '\ufeff' :: cs => cs
  | cs => cs

/-- The items of a document. -/
def parse? (document : String) : Option Entries :=
  let cs := characters document
  ((lines (cs.length + 1) ⟨[], []⟩).run cs).map (·.1)

end Dataflow.Toml
