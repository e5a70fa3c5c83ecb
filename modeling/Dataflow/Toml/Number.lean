import Dataflow.Binary.Double
import Dataflow.Toml.Digit

/-!
# Numbers in TOML

A number is a token without blanks. A decimal number has no zeros in front; other bases have
a mark in front and no sign. Numbers with a point or an exponent, and the words for infinity
and for what is no number, are read as the nearest number of 64 bits; one too great for that
is refused.
-/

namespace Dataflow.Toml

open Binary (Format)

/-- A decimal number without zeros in front. -/
def decimal? : List Char → Option Nat
  | '0' :: _ :: _ => none
  | cs => digits? 10 cs

/-- The sign in front, and what it stands before. -/
def splitSign : List Char → Bool × List Char
  | '-' :: rest => (true, rest)
  | '+' :: rest => (false, rest)
  | cs => (false, cs)

/-- The whole numbers that some width of up to 128 bits can hold. -/
def inIntegerRange (n : Int) : Bool := -(1 <<< 127 : Nat) ≤ n && n < (1 <<< 128 : Nat)

/-- A whole number. -/
def integer? (cs : List Char) : Option Int :=
  let value? : Option Int :=
    match cs with
    | '0' :: 'x' :: rest => (digits? 16 rest).map Int.ofNat
    | '0' :: 'o' :: rest => (digits? 8 rest).map Int.ofNat
    | '0' :: 'b' :: rest => (digits? 2 rest).map Int.ofNat
    | cs =>
        let (negative, rest) := splitSign cs
        (decimal? rest).map fun n => if negative then -(n : Int) else n
  value?.filter inIntegerRange

/-- Magnitude bits of the number of 64 bits nearest to `digits * 10 ^ place`. Numbers that are
certain to be too small or too great are decided by their length. -/
def nearestDecimal (digits : Nat) (place : Int) : Nat :=
  let length : Int := (Nat.toDigits 10 digits).length
  if digits = 0 || length + place < -400 then 0
  else if 400 < length + place then Format.double.infinity
  else Format.double.nearestRatio (digits * Nat.pow 10 place.toNat) (Nat.pow 10 (-place).toNat)

/-- A number with a point or an exponent, its sign and the words left out: the digits as one
number, and the power of ten that the last one counts. -/
def scientific? (cs : List Char) : Option (Nat × Int) := do
  let mantissa := cs.takeWhile fun c => c ≠ 'e' && c ≠ 'E'
  let place ←
    match cs.dropWhile fun c => c ≠ 'e' && c ≠ 'E' with
    | [] => if mantissa.contains '.' then some 0 else none
    | _ :: power =>
        let (negative, rest) := splitSign power
        (digits? 10 rest).map fun n => if negative then -(n : Int) else (n : Int)
  let whole := mantissa.takeWhile (· ≠ '.')
  let _ ← decimal? whole
  match mantissa.dropWhile (· ≠ '.') with
  | [] => return (← digits? 10 whole, place)
  | _ :: fraction =>
      let _ ← digits? 10 fraction
      let places := (fraction.filter (· ≠ '_')).length
      return (← digits? 10 (whole ++ fraction), place - (places : Int))

/-- A number that is not whole by its form. -/
def float? (cs : List Char) : Option Float :=
  let (negative, rest) := splitSign cs
  if rest = ['n', 'a', 'n'] then some Binary.Double.notANumber
  else if rest = ['i', 'n', 'f'] then
    some (Binary.Double.ofMagnitude negative Format.double.infinity)
  else do
    let (digits, place) ← scientific? rest
    let bits := nearestDecimal digits place
    if bits < Format.double.infinity then some (Binary.Double.ofMagnitude negative bits)
    else none

end Dataflow.Toml
