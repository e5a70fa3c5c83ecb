/-!
# Digits in TOML

Digits of a base make a number, and single underscores between them set them apart.
-/

namespace Dataflow.Toml

/-- The value of a digit. -/
def digitValue? (c : Char) : Option Nat :=
  if '0' ≤ c && c ≤ '9' then some (c.toNat - '0'.toNat)
  else if 'a' ≤ c && c ≤ 'f' then some (c.toNat - 'a'.toNat + 10)
  else if 'A' ≤ c && c ≤ 'F' then some (c.toNat - 'A'.toNat + 10)
  else none

/-- The value of a digit of a base. -/
def digitOf? (base : Nat) (c : Char) : Option Nat :=
  (digitValue? c).filter (· < base)

/-- The number that digits after `value` make, each underscore being between two digits. -/
def digitsAfter? (base value : Nat) : List Char → Option Nat
  | [] => some value
  | '_' :: c :: rest => do digitsAfter? base (base * value + (← digitOf? base c)) rest
  | c :: rest => do digitsAfter? base (base * value + (← digitOf? base c)) rest

/-- The number that one or more digits make. -/
def digits? (base : Nat) : List Char → Option Nat
  | [] => none
  | c :: rest => do digitsAfter? base (← digitOf? base c) rest

end Dataflow.Toml
