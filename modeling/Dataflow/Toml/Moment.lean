/-!
# Dates and times in TOML

`isMoment` holds of a date, a time of day, or a date followed by a time and, if wanted, by
its offset. The parts have fixed widths, and each is within its range.
-/

namespace Dataflow.Toml

/-- The number that some decimal digits make, and what comes after them. -/
def fixedDigits? (count : Nat) (cs : List Char) : Option (Nat × List Char) :=
  let digits := cs.take count
  if digits.length = count && digits.all Char.isDigit then
    some (digits.foldl (fun n c => 10 * n + (c.toNat - '0'.toNat)) 0, cs.drop count)
  else none

/-- What comes after a character. -/
def after? (expected : Char) : List Char → Option (List Char)
  | c :: rest => if c = expected then some rest else none
  | [] => none

/-- How many days a month has. -/
def daysIn (year month : Nat) : Nat :=
  match month with
  | 2 => if year % 4 = 0 && (year % 100 ≠ 0 || year % 400 = 0) then 29 else 28
  | 4 | 6 | 9 | 11 => 30
  | _ => 31

/-- What comes after a date. -/
def afterDate? (cs : List Char) : Option (List Char) := do
  let (year, cs) ← fixedDigits? 4 cs
  let (month, cs) ← fixedDigits? 2 (← after? '-' cs)
  let (day, cs) ← fixedDigits? 2 (← after? '-' cs)
  if 1 ≤ month && month ≤ 12 && 1 ≤ day && day ≤ daysIn year month then some cs else none

/-- What comes after hours and minutes. -/
def afterClock? (cs : List Char) : Option (List Char) := do
  let (hour, cs) ← fixedDigits? 2 cs
  let (minute, cs) ← fixedDigits? 2 (← after? ':' cs)
  if hour ≤ 23 && minute ≤ 59 then some cs else none

/-- What comes after seconds, which may have a fraction. -/
def afterSeconds? (cs : List Char) : Option (List Char) := do
  let (second, cs) ← fixedDigits? 2 cs
  if 60 < second then none
  else
    match cs with
    | '.' :: fraction =>
        if (fraction.takeWhile Char.isDigit).isEmpty then none
        else some (fraction.dropWhile Char.isDigit)
    | cs => some cs

/-- What comes after a time of day, which may do without seconds. -/
def afterTime? (cs : List Char) : Option (List Char) := do
  match (← afterClock? cs) with
  | ':' :: cs => afterSeconds? cs
  | cs => some cs

/-- Whether the text is an offset, or nothing. -/
def isOffset : List Char → Bool
  | [] => true
  | ['Z'] | ['z'] => true
  | '+' :: cs | '-' :: cs => afterClock? cs == some []
  | _ => false

/-- Whether the text is a date, a time, or both. -/
def isMoment (cs : List Char) : Bool :=
  match afterDate? cs with
  | some [] => true
  | some (separator :: time) =>
      (separator = 'T' || separator = 't' || separator = ' ') &&
        (afterTime? time).any isOffset
  | none => afterTime? cs == some []

end Dataflow.Toml
