import Dataflow.Proofs.Config.Conservation
import Dataflow.Proofs.Program.Liveness
import Dataflow.Proofs.Runner.Ticks

/-!
# How often ticks evaluate a graph

A runner that carries time over evaluates its graph once for each interval that has passed
(`Runner.carrying_conserves`). A runner that drops time evaluates it at most as often
(`Runner.dropping_lags`), as long as no sum and no difference of times is rounded.
-/

namespace Dataflow.Runner

open Binary.Single
open Request (deltas ticks)

/-- Of a runner that carries time over, as long as it has a graph, no delta is below zero and
nothing is rounded, the deltas add up to one interval for each tick that has evaluated the graph and
to the accumulated time, which is not below zero. If no delta is above the interval, the accumulated
time is below it, and the ticks that have evaluated the graph are as many as whole intervals have
passed. -/
theorem carrying_conserves (p : Program) (config : Config) (entropy : Random.Source)
    (requests : List Request) (hthrottle : config.throttle = .carryRemainder)
    (positive : 0 < config.interval) (hne : p.instructions ≠ [])
    (hrequests : ∀ request ∈ requests, request.Furnished)
    (nonneg : ∀ delta ∈ deltas requests, ¬ delta < 0)
    (hexact : config.Throughout config.AdvancesExactly 0 (deltas requests)) :
    timePassed (deltas requests) =
      value config.interval * (start p config entropy).fired requests +
        value ((start p config entropy).served requests).accumulated ∧
    ((start p config entropy).served requests).accumulated.isFinite ∧
    0 ≤ value ((start p config entropy).served requests).accumulated ∧
    ((∀ delta ∈ deltas requests, ¬ config.interval < delta) →
      ((start p config entropy).served requests).accumulated < config.interval ∧
      (start p config entropy).fired requests =
        ⌊timePassed (deltas requests) / value config.interval⌋₊) := by
  have hcarries : config.Carries := ⟨hthrottle, positive⟩
  have hpositive : 0 < value config.interval := by
    rw [← value_zero, ← lt_iff_value_lt not_isNaN_zero config.interval_nonneg.1]
    exact positive
  have hconserved := hcarries.elapse hexact
  have hnonneg := hcarries.elapse_nonneg hexact value_zero.ge nonneg
  have hfinite := Config.isFinite_elapse (by decide) hexact
  rw [value_zero, zero_add] at hconserved
  rw [(served_start p config entropy requests).2, fired_start hne config entropy hrequests]
  refine ⟨hconserved, hfinite, hnonneg, fun hle => ⟨?_, ?_⟩⟩
  · rw [lt_iff_value_lt (not_isNaN_of_isFinite hfinite) config.interval_nonneg.1]
    exact hcarries.elapse_lt hexact (value_zero.trans_lt hpositive) hle
  · have hfloor := hcarries.firings_eq_floor hexact value_zero.ge (value_zero.trans_lt hpositive)
      nonneg hle
    rwa [value_zero, zero_add] at hfloor

/-- Four evaluations per second. -/
def quarterly (throttle : ThrottleMode) : Config := ⟨4, throttle, none⟩

/-- Ticks that add up to half a second, with an evaluation and a load in between. -/
def halfSecond : List Request :=
  [.act (.tick 0.125), .act .evaluate, .act (.tick 0.25), .load Graph.overgrownProgram,
    .act (.tick 0.125)]

/-- A runner that carries time over does so while a graph is loaded. -/
theorem overgrown_conserves :
    let r := start Graph.overgrownProgram (quarterly .carryRemainder) (.ofSeed 1)
    timePassed (deltas halfSecond) = value (quarterly .carryRemainder).interval *
        r.fired halfSecond + value (r.served halfSecond).accumulated ∧
      (r.served halfSecond).accumulated < (quarterly .carryRemainder).interval := by
  obtain ⟨hconserved, -, -, hbelow⟩ := carrying_conserves Graph.overgrownProgram
    (quarterly .carryRemainder) (.ofSeed 1) halfSecond rfl (by decide) (by exact nofun) (by decide)
    (by decide) (by decide +kernel)
  exact ⟨hconserved, (hbelow (by decide)).1⟩

/-- Whatever they are asked for alike, a runner that drops time has evaluated its graph at most as
often as one with the same interval that carries it over. Its accumulated time is below the
interval, and from one tick that evaluates the graph to a later one an interval passes at least for
the later one and for each in between. -/
theorem dropping_lags (p : Program) (config config' : Config) (entropy entropy' : Random.Source)
    (requests : List Request) (hthrottle : config.throttle = .reset)
    (hthrottle' : config'.throttle = .carryRemainder)
    (hinterval : config'.interval = config.interval) (positive : 0 < config.interval)
    (hne : p.instructions ≠ [])
    (hrequests : ∀ request ∈ requests, request.Furnished)
    (hexact : config.Throughout config.AdvancesExactly 0 (deltas requests))
    (hexact' : config'.Throughout config'.AdvancesExactly 0 (deltas requests)) :
    ((start p config entropy).served requests).evaluations ≤
        ((start p config' entropy').served requests).evaluations ∧
    ((start p config entropy).served requests).accumulated < config.interval ∧
    ∀ before delta between delta',
      requests = before ++ .act (.tick delta) :: (between ++ [.act (.tick delta')]) →
      (((start p config entropy).served before).tick delta).1 = true →
      (((start p config entropy).served (before ++ .act (.tick delta) :: between)).tick
        delta').1 = true →
      value config.interval *
          (((start p config entropy).served (before ++ [.act (.tick delta)])).fired between + 1) ≤
        timePassed (deltas (between ++ [.act (.tick delta')])) := by
  have hdrops : ¬ config.Carries := by
    rintro ⟨hcarry, -⟩
    rw [hthrottle] at hcarry
    cases hcarry
  have hcarries' : config'.Carries := ⟨hthrottle', hinterval.symm ▸ positive⟩
  refine ⟨?_, ?_, ?_⟩
  · have hfirings := Config.firings_le hdrops hcarries' hinterval hexact hexact' 0 (by simp)
    rw [evaluations_served hne hrequests, evaluations_served hne hrequests,
      fired_start hne config entropy hrequests, fired_start hne config' entropy' hrequests]
    exact Nat.add_le_add_left (Nat.add_le_add_right hfirings _) _
  · rw [(served_start p config entropy requests).2]
    exact Config.elapse_lt hdrops positive positive _
  · rintro before delta between delta' rfl hdue hdue'
    have hbefore : ∀ request ∈ before, request.Furnished := fun request hmem =>
      hrequests request (List.mem_append_left _ hmem)
    have hbetween : ∀ request ∈ between, request.Furnished := fun request hmem =>
      hrequests request (List.mem_append_right _ (List.mem_cons_of_mem _
        (List.mem_append_left _ hmem)))
    have hfirst : ∀ request ∈ before ++ [.act (.tick delta)], request.Furnished :=
      List.forall_mem_append.2 ⟨hbefore, List.forall_mem_singleton.2 trivial⟩
    have hmiddle : ∀ request ∈ before ++ .act (.tick delta) :: between, request.Furnished :=
      List.forall_mem_append.2 ⟨hbefore, List.forall_mem_cons.2 ⟨trivial, hbetween⟩⟩
    rw [tick_served_start hne config entropy hbefore] at hdue
    rw [tick_served_start hne config entropy hmiddle, Request.deltas_append,
      Request.deltas_tick] at hdue'
    rw [Request.deltas_append, Request.deltas_tick, Request.deltas_append] at hexact
    obtain ⟨hconfig, haccumulated⟩ := served_start p config entropy (before ++ [.act (.tick delta)])
    rw [fired_eq (served_instructions_ne_nil hne hfirst) hbetween, hconfig, haccumulated,
      Request.deltas_append, Request.deltas_append]
    exact Config.interval_le_between hdrops hexact hdue hdue'

/-- A runner that drops time evaluates its graph at most as often as one that carries it over. -/
theorem overgrown_lags :
    ((start Graph.overgrownProgram (quarterly .reset) (.ofSeed 1)).served halfSecond).evaluations ≤
      ((start Graph.overgrownProgram (quarterly .carryRemainder) (.ofSeed 1)).served
        halfSecond).evaluations :=
  (dropping_lags Graph.overgrownProgram (quarterly .reset) (quarterly .carryRemainder) (.ofSeed 1)
    (.ofSeed 1) halfSecond rfl rfl rfl (by decide) (by exact nofun) (by decide) (by decide +kernel)
    (by decide +kernel)).1

end Dataflow.Runner
