import Dataflow.Toml.Digit
import Dataflow.Toml.Reader

/-!
# Text in TOML

Text stands between quotes or between apostrophes, on one line or, with three of them, on
several. Between quotes a backslash begins an escape; between apostrophes every character
stands for itself. In text on several lines a line end at the start is dropped, and between
quotes a backslash at the end of a line drops everything up to the next visible character.
-/

namespace Dataflow.Toml

/-- The character that an escape of one letter stands for. -/
def letterEscape? : Char → Option Char
  | 'b' => some '\x08'
  | 'e' => some '\x1b'
  | 't' => some '\t'
  | 'n' => some '\n'
  | 'f' => some '\x0c'
  | 'r' => some '\r'
  | '"' => some '"'
  | '\\' => some '\\'
  | _ => none

/-- The character with the code point that hexadecimal digits make. -/
def codePoint? (digits : List Char) : Option Char := do
  let n ← digits.foldlM (fun n c => (digitOf? 16 c).map (16 * n + ·)) 0
  if n.isValidChar then some (Char.ofNat n) else none

/-- The character that an escape stands for, and what comes after. The backslash has been
taken. -/
def escape? : List Char → Option (Char × List Char)
  | 'x' :: a :: b :: rest => (codePoint? [a, b]).map (·, rest)
  | 'u' :: a :: b :: c :: d :: rest => (codePoint? [a, b, c, d]).map (·, rest)
  | 'U' :: a :: b :: c :: d :: e :: f :: g :: h :: rest =>
      (codePoint? [a, b, c, d, e, f, g, h]).map (·, rest)
  | c :: rest => (letterEscape? c).map (·, rest)
  | [] => none

/-- An escape takes a character at least. -/
theorem length_escape? {cs rest : List Char} {c : Char} (h : escape? cs = some (c, rest)) :
    rest.length < cs.length := by
  unfold escape? at h
  split at h <;> simp only [Option.map_eq_some_iff, Prod.mk.injEq, reduceCtorEq] at h
  all_goals
    obtain ⟨_, -, -, rfl⟩ := h
    simp only [List.length_cons]
    omega

/-- Whether nothing but blanks stands before the end of the line. -/
def isBlankToLineEnd (cs : List Char) : Bool :=
  match cs.dropWhile isBlank with
  | '\n' :: _ | '\r' :: '\n' :: _ => true
  | _ => false

/-- The text without the blanks and line ends at its start. -/
def dropInvisible : List Char → List Char
  | '\r' :: '\n' :: rest => dropInvisible rest
  | c :: rest => if isBlank c || c == '\n' then dropInvisible rest else c :: rest
  | [] => []

/-- Dropping blanks and line ends adds nothing. -/
theorem length_dropInvisible_le (cs : List Char) : (dropInvisible cs).length ≤ cs.length := by
  fun_induction dropInvisible cs with
  | case1 rest ih =>
    simp only [List.length_cons]
    omega
  | case2 c rest _ _ ih =>
    simp only [List.length_cons]
    omega
  | case3 => exact Nat.le_refl _
  | case4 => exact Nat.le_refl _

/-- The text up to a quote, and what comes after the quote. -/
def quoted? (cs : List Char) : Option (List Char × List Char) :=
  match cs with
  | [] => none
  | '"' :: rest => some ([], rest)
  | '\\' :: rest =>
      match _h : escape? rest with
      | none => none
      | some (c, rest) => (quoted? rest).map fun (text, after) => (c :: text, after)
  | c :: rest =>
      if isControl c then none
      else (quoted? rest).map fun (text, after) => (c :: text, after)
termination_by cs.length
decreasing_by
  · have := length_escape? _h
    simp only [List.length_cons]
    omega
  · simp

/-- The text up to an apostrophe, and what comes after it. -/
def literal? : List Char → Option (List Char × List Char)
  | [] => none
  | c :: rest =>
      if c = '\'' then some ([], rest)
      else if isControl c then none
      else (literal? rest).map fun (text, after) => (c :: text, after)

/-- The text up to three quotes, and what comes after them; up to two more quotes in front of
them belong to the text. -/
def quotedLines? (cs : List Char) : Option (List Char × List Char) :=
  match cs with
  | [] => none
  | '"' :: '"' :: '"' :: '"' :: '"' :: rest => some (['"', '"'], rest)
  | '"' :: '"' :: '"' :: '"' :: rest => some (['"'], rest)
  | '"' :: '"' :: '"' :: rest => some ([], rest)
  | '\\' :: rest =>
      if isBlankToLineEnd rest then quotedLines? (dropInvisible rest)
      else
        match _h : escape? rest with
        | none => none
        | some (c, rest) => (quotedLines? rest).map fun (text, after) => (c :: text, after)
  | '\r' :: '\n' :: rest => (quotedLines? rest).map fun (text, after) => ('\n' :: text, after)
  | c :: rest =>
      if isControl c && c ≠ '\n' then none
      else (quotedLines? rest).map fun (text, after) => (c :: text, after)
termination_by cs.length
decreasing_by
  · have := length_dropInvisible_le rest
    simp only [List.length_cons]
    omega
  · have := length_escape? _h
    simp only [List.length_cons]
    omega
  · simp only [List.length_cons]
    omega
  · simp

/-- The text up to three apostrophes, and what comes after them; up to two more apostrophes in
front of them belong to the text. -/
def literalLines? : List Char → Option (List Char × List Char)
  | [] => none
  | '\'' :: '\'' :: '\'' :: '\'' :: '\'' :: rest => some (['\'', '\''], rest)
  | '\'' :: '\'' :: '\'' :: '\'' :: rest => some (['\''], rest)
  | '\'' :: '\'' :: '\'' :: rest => some ([], rest)
  | '\r' :: '\n' :: rest => (literalLines? rest).map fun (text, after) => ('\n' :: text, after)
  | c :: rest =>
      if isControl c && c ≠ '\n' then none
      else (literalLines? rest).map fun (text, after) => (c :: text, after)

/-- The text without a line end at its start. -/
def dropLineEnd : List Char → List Char
  | '\n' :: rest => rest
  | '\r' :: '\n' :: rest => rest
  | cs => cs

/-- Takes text on one line. -/
def lineText : Reader String := fun cs =>
  match cs with
  | '"' :: rest => (quoted? rest).map fun (text, after) => (.ofList text, after)
  | '\'' :: rest => (literal? rest).map fun (text, after) => (.ofList text, after)
  | _ => none

/-- Takes text on one line or on several. -/
def text : Reader String := fun cs =>
  match cs with
  | '"' :: '"' :: '"' :: rest =>
      (quotedLines? (dropLineEnd rest)).map fun (text, after) => (.ofList text, after)
  | '\'' :: '\'' :: '\'' :: rest =>
      (literalLines? (dropLineEnd rest)).map fun (text, after) => (.ofList text, after)
  | cs => lineText cs

end Dataflow.Toml
