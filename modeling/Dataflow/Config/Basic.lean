import Dataflow.Random.Source

/-!
# Configuration of a run

A configuration says how often the graph is to be evaluated, what happens to time that has
accumulated once it is, and where random numbers start. `Config.advance` is the throttle: it
adds a delta to the accumulated time and decides whether an evaluation is due.
-/

namespace Dataflow

/-- What happens to the accumulated time when an evaluation is due: it is dropped (`reset`), or one
interval is taken from it and the rest is kept (`carryRemainder`). -/
inductive ThrottleMode where
  | reset
  | carryRemainder
deriving DecidableEq, Repr

/-- The configuration of a run: the evaluations per second, what happens to the accumulated time
when one is due, and the seed of the random source. There is an interval between evaluations only if
the rate is positive and finite, and without a seed the start of the random source is left to the
host. -/
structure Config where
  rate : Float32
  throttle : ThrottleMode
  seed : Option UInt64

namespace Config

/-- Three evaluations per second, time dropped, no seed. -/
def default : Config := ⟨.ofBits 0x40400000, .reset, none⟩

/-- Whether two configurations are equal, rates being compared as numbers. -/
protected def beq (a b : Config) : Bool :=
  a.rate == b.rate && a.throttle == b.throttle && a.seed == b.seed

/-- Configurations are compared by `Config.beq`. -/
instance : BEq Config := ⟨Config.beq⟩

/-- The least time between two evaluations. -/
def interval (c : Config) : Float32 :=
  if c.rate.isFinite && 0 < c.rate then 1 / c.rate else 0

/-- The time that is left once an evaluation is due. -/
def leftover (c : Config) (accumulated : Float32) : Float32 :=
  match c.throttle with
  | .reset => 0
  | .carryRemainder => if 0 < c.interval then accumulated - c.interval else 0

/-- Whether an evaluation is due once the accumulated time has grown by `delta`, and the
accumulated time then. A delta that is not finite changes nothing. -/
def advance (c : Config) (accumulated delta : Float32) : Bool × Float32 :=
  if !delta.isFinite then (false, accumulated)
  else
    let total := accumulated + delta
    if total < c.interval then (false, total) else (true, c.leftover total)

/-- The start of the random source: that of the seed, or the one the host provides. -/
def source (c : Config) (entropy : Random.Source) : Random.Source :=
  c.seed.elim entropy .ofSeed

end Config

end Dataflow
