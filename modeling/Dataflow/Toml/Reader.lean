/-!
# Reading characters

A `Reader` takes characters from the front of a text and gives what they stand for, or
fails. Blanks are spaces and tabulators; a line ends with a line feed, before which a
carriage return may stand.
-/

namespace Dataflow.Toml

/-- Takes characters from the front of a text. -/
abbrev Reader := StateT (List Char) Option

/-- Whether the character is a blank. -/
def isBlank (c : Char) : Bool := c == ' ' || c == '\t'

/-- Whether the character is a control character that no text may hold as it is. -/
def isControl (c : Char) : Bool := (c.toNat < 0x20 && c ≠ '\t') || c.toNat = 0x7f

/-- The text without the blanks, comments and ends of lines at its start, which is part of a
comment if `inComment`. -/
def dropSpace (inComment : Bool) : List Char → List Char
  | [] => []
  | '\r' :: '\n' :: rest => dropSpace false rest
  | '\n' :: rest => dropSpace false rest
  | c :: rest =>
      if inComment && !isControl c then dropSpace true rest
      else if c == '#' then dropSpace true rest
      else if isBlank c then dropSpace inComment rest
      else c :: rest

namespace Reader

/-- The characters that are left. -/
def rest : Reader (List Char) := get

/-- Takes the characters in front of which `p` holds. -/
def takeWhile (p : Char → Bool) : Reader (List Char) := fun cs =>
  some (cs.takeWhile p, cs.dropWhile p)

/-- Takes blanks. -/
def blanks : Reader Unit := do
  let _ ← takeWhile isBlank

/-- Takes the given character. -/
def char (expected : Char) : Reader Unit
  | c :: cs => if c = expected then some ((), cs) else none
  | [] => none

/-- Takes the given character if it comes next, and tells whether it did. -/
def char? (expected : Char) : Reader Bool
  | c :: cs => if c = expected then some (true, cs) else some (false, c :: cs)
  | [] => some (false, [])

/-- Takes a comment if one comes next. -/
def comment : Reader Unit := do
  if ← char? '#' then
    let _ ← takeWhile fun c => !isControl c

/-- Takes the end of a line if it comes next, and tells whether it did. -/
def lineEnd? : Reader Bool
  | '\n' :: cs => some (true, cs)
  | '\r' :: '\n' :: cs => some (true, cs)
  | cs => some (false, cs)

/-- Takes the end of a line, or finds the end of the text. -/
def endOfLine : Reader Unit := do
  unless ← lineEnd? do
    unless (← rest).isEmpty do
      failure

/-- Takes blanks, comments and ends of lines. -/
def space : Reader Unit := fun cs => some ((), dropSpace false cs)

end Reader

end Dataflow.Toml
