import Dataflow.Config.Basic
import Dataflow.Decimal.Positional
import Dataflow.Toml.Document

/-!
# Configuration text

A configuration is written as a TOML document of two or three lines and read from any
document. Each of the three keys may be absent, and keys that mean nothing here are passed
over. A rate is read as a number of 64 bits first and then rounded to one of 32, and a whole
number is taken for the rate as well.
-/

namespace Dataflow

/-- Why a text is no configuration: it is no document, or a known key has no fitting item. -/
inductive ConfigError where
  | parse
deriving DecidableEq, Repr

/-- The wording of an error, up to the description of the fault. -/
def ConfigError.message : ConfigError → String
  | .parse => "invalid runtime config: "

/-- How a mode is written. -/
def ThrottleMode.word : ThrottleMode → String
  | .reset => "reset"
  | .carryRemainder => "carry_remainder"

/-- The mode that a word stands for. -/
def ThrottleMode.ofWord? : String → Option ThrottleMode
  | "reset" => some .reset
  | "carry_remainder" => some .carryRemainder
  | _ => none

namespace Config

/-- The key of the rate. -/
def rateKey : String := "updates_per_second"

/-- The key of the mode. -/
def throttleKey : String := "throttle"

/-- The key of the seed. -/
def seedKey : String := "seed"

/-- The rate that an item stands for. -/
def rateOf? : Toml.Item → Option Float32
  | .float x => some (Binary.Double.narrow x)
  | .integer n =>
    if Int64.minValue.toInt ≤ n && n < UInt64.size then some (Binary.Single.ofInt n) else none
  | _ => none

/-- The mode that an item stands for: its word, or a table with the word as its only name, under
which nothing is listed. -/
def throttleOf? : Toml.Item → Option ThrottleMode
  | .text s => ThrottleMode.ofWord? s
  | .table _ [(word, .array [])] | .table _ [(word, .table _ [])] => ThrottleMode.ofWord? word
  | _ => none

/-- The seed that an item stands for. -/
def seedOf? : Toml.Item → Option UInt64
  | .integer n => if 0 ≤ n && n < UInt64.size then some (.ofInt n) else none
  | _ => none

/-- The configuration that a table stands for; what it lacks is as in the default. -/
def ofEntries? (entries : Toml.Entries) : Option Config := do
  let rate ← (entries.lookup rateKey).elim (some default.rate) rateOf?
  let throttle ← (entries.lookup throttleKey).elim (some default.throttle) throttleOf?
  let seed ← (entries.lookup seedKey).elim (some default.seed) fun i => (seedOf? i).map some
  return ⟨rate, throttle, seed⟩

/-- Reads a configuration. -/
def ofText (document : String) : Except ConfigError Config :=
  match (Toml.parse? document).bind ofEntries? with
  | some c => .ok c
  | none => .error .parse

/-- Writes a configuration. -/
def text (c : Config) : String :=
  rateKey ++ " = " ++ Binary.Single.text .document c.rate ++ "\n" ++
    throttleKey ++ " = \"" ++ c.throttle.word ++ "\"\n" ++
    c.seed.elim "" fun n => seedKey ++ " = " ++ toString n ++ "\n"

end Config

end Dataflow
