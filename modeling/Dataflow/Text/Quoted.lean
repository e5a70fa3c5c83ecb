import Dataflow.Text.Unprintable

/-!
# Quoted text

`quote` writes text on one line between double quotes. A quote and a backslash get a
backslash in front; tabulator, line feed, carriage return and the null character have a
letter each; every other character that does not print is written by its code point. No
character of the result but the last is an unescaped quote, so quoted text shows where it
ends.
-/

namespace Dataflow.Text

/-- The characters that stand for `c` inside quotes. -/
def escape (c : Char) : List Char :=
  match c with
  | '"' => ['\\', '"']
  | '\\' => ['\\', '\\']
  | '\t' => ['\\', 't']
  | '\n' => ['\\', 'n']
  | '\r' => ['\\', 'r']
  | '\x00' => ['\\', '0']
  | c =>
    if isUnprintable c then ['\\', 'u', '\x7b'] ++ Nat.toDigits 16 c.toNat ++ ['\x7d']
    else [c]

/-- The text between double quotes, on one line. -/
def quote (s : String) : String :=
  .ofList ('"' :: s.toList.flatMap escape ++ ['"'])

end Dataflow.Text
