import Dataflow.Proofs.Config.Overflow
import Dataflow.Proofs.Program.Liveness
import Dataflow.Proofs.Runner.Ticks

/-!
# Deltas that disable a throttle

The accumulated time of a runner is finite unless a delta takes the exact time beyond the limits,
and as long as it is finite the throttle responds (`Runner.accumulated_isFinite_iff`). Without an
interval a tick evaluates the graph unless time is below zero then
(`Runner.unthrottled_evaluates_iff`).
-/

namespace Dataflow.Runner

open Binary.Single
open Request (deltas ticks)

variable {r : Runner}

/-- Some ticks with finite deltas evaluate the graph, and some do not. -/
structure Responds (r : Runner) : Prop where
  fires : ∃ deltas, (∀ delta ∈ deltas, delta.isFinite) ∧ 0 < r.fired (ticks deltas)
  waits : ∃ deltas, (∀ delta ∈ deltas, delta.isFinite) ∧ r.fired (ticks deltas) < deltas.length

/-- A runner with a graph responds if its throttle does. -/
theorem responds_iff (hne : r.instructions ≠ []) :
    r.Responds ↔ r.config.Responds r.accumulated := by
  have hfired (deltas : List Float32) :
      r.fired (ticks deltas) = r.config.firings r.accumulated deltas := by
    rw [fired_eq hne (Request.furnished_ticks deltas), Request.deltas_ticks]
  constructor
  · rintro ⟨⟨firing, hfiring, hpos⟩, ⟨waiting, hwaiting, hlt⟩⟩
    exact ⟨⟨firing, hfiring, hfired firing ▸ hpos⟩, ⟨waiting, hwaiting, hfired waiting ▸ hlt⟩⟩
  · rintro ⟨⟨firing, hfiring, hpos⟩, ⟨waiting, hwaiting, hlt⟩⟩
    exact ⟨⟨firing, hfiring, (hfired firing).symm ▸ hpos⟩,
      ⟨waiting, hwaiting, (hfired waiting).symm ▸ hlt⟩⟩

/-! ## Overflow -/

/-- Whatever a runner was asked for, its accumulated time is finite if and only if each delta left
the exact time within the limits, as all do if time is not carried over and no delta is below zero.
A runner with a graph responds to further ticks if and only if its accumulated time is finite. -/
theorem accumulated_isFinite_iff (p : Program) (config : Config) (entropy : Random.Source)
    (requests : List Request) :
    (((start p config entropy).served requests).accumulated.isFinite ↔
      config.Throughout config.WithinLimits 0 (deltas requests)) ∧
    (¬ config.Carries → (∀ delta ∈ deltas requests, ¬ delta < 0) →
      ((start p config entropy).served requests).accumulated.isFinite) ∧
    (((start p config entropy).served requests).instructions ≠ [] →
      (((start p config entropy).served requests).Responds ↔
        ((start p config entropy).served requests).accumulated.isFinite)) := by
  obtain ⟨hconfig, haccumulated⟩ := (start p config entropy).served_keeps requests
  have hzero : (0 : Float32).isFinite := by decide
  obtain ⟨hfinite, hcases⟩ := config.isFinite_elapse_iff hzero (deltas requests)
  refine ⟨?_, fun hcarries hnonneg => ?_, fun hne => ?_⟩
  · rw [haccumulated]
    exact hfinite
  · rw [haccumulated]
    exact hfinite.2 (Config.withinLimits_of_nonneg hcarries hzero (by decide) hnonneg)
  · rw [responds_iff hne, hconfig, haccumulated]
    exact Config.responds_iff hcases

/-- A runner that drops time is not put out by the greatest deltas. -/
theorem overgrown_responds :
    let r := (start Graph.overgrownProgram .default (.ofSeed 1)).served (ticks [greatest, greatest])
    r.accumulated.isFinite ∧ r.Responds := by
  obtain ⟨-, hfinite, hresponds⟩ := accumulated_isFinite_iff Graph.overgrownProgram .default
    (.ofSeed 1) (ticks [greatest, greatest])
  have haccumulated := hfinite (by decide) (by rw [Request.deltas_ticks]; decide)
  have hne := served_instructions_ne_nil (r := start Graph.overgrownProgram .default (.ofSeed 1))
    (by exact nofun) (Request.furnished_ticks [greatest, greatest])
  exact ⟨haccumulated, (hresponds hne).2 haccumulated⟩

/-- A configuration that carries time over. -/
def carrying : Config := { Config.default with throttle := .carryRemainder }

/-- Two of the greatest deltas take the time that is carried over out of the finite numbers. -/
theorem not_forall_accumulated_isFinite : ¬ ∀ r : Runner, r.Reachable → r.accumulated.isFinite := by
  intro hall
  have hstart : (start Graph.overgrownProgram carrying (.ofSeed 1)).Reachable :=
    .start (.compiled Catalog.built Graph.compile_overgrown) _ _
  have hfinite := hall _ (hstart.served (Request.admissible_ticks [greatest, greatest]))
  rw [(served_keeps _ _).2, Request.deltas_ticks] at hfinite
  exact absurd hfinite (by decide +kernel)

/-! ## No interval -/

/-- Whatever an unthrottled runner was asked for, the time that it has accumulated is nothing or
below zero, and if it has a graph, a tick with a finite delta evaluates the graph if and only if the
accumulated time is finite and not below zero together with the delta. As long as no earlier delta
was below zero, the tick evaluates the graph if and only if its own is not. -/
theorem unthrottled_evaluates_iff (p : Program) {config : Config} (h : config.Unthrottled)
    (entropy : Random.Source) (requests : List Request)
    (hne : ((start p config entropy).served requests).instructions ≠ []) (delta : Float32)
    (hdelta : delta.isFinite) :
    (((start p config entropy).served requests).accumulated = 0 ∨
      ((start p config entropy).served requests).accumulated < 0) ∧
    ((((start p config entropy).served requests).tick delta).1 = true ↔
      ((start p config entropy).served requests).accumulated.isFinite ∧
        0 ≤ value ((start p config entropy).served requests).accumulated + value delta) ∧
    ((∀ earlier ∈ deltas requests, ¬ earlier < 0) →
      ((((start p config entropy).served requests).tick delta).1 = true ↔ ¬ delta < 0)) := by
  obtain ⟨hconfig, haccumulated⟩ := (start p config entropy).served_keeps requests
  have hbehind := Config.elapse_behind h (.inl rfl) (deltas requests)
  have hevaluates := Config.advance_of_unthrottled h hbehind hdelta
  rw [tick_fst hne, hconfig, haccumulated]
  refine ⟨hbehind, hevaluates, fun hnonneg => hevaluates.trans ?_⟩
  rw [Config.elapse_of_nonneg h hnonneg, value_zero, zero_add,
    lt_zero_iff (not_isNaN_of_isFinite hdelta), not_lt]
  exact and_iff_right (by decide)

/-- An unthrottled configuration. -/
def unthrottled : Config := { Config.default with rate := 0 }

/-- A runner without an interval that is one second behind evaluates the graph again once a second
has passed, and not before. -/
theorem overgrown_catches_up :
    let r := (start Graph.overgrownProgram unthrottled (.ofSeed 1)).served (ticks [-1])
    (r.tick 0.5).1 = false ∧ (r.tick 1).1 = true := by
  have hunthrottled : unthrottled.Unthrottled := by decide
  have hne := served_instructions_ne_nil
    (r := start Graph.overgrownProgram unthrottled (.ofSeed 1)) (by exact nofun)
    (Request.furnished_ticks [-1])
  have hbehind : ((start Graph.overgrownProgram unthrottled (.ofSeed 1)).served
      (ticks [-1])).accumulated = -1 := by
    rw [(served_keeps _ _).2, Request.deltas_ticks]
    decide
  have hhalf := (unthrottled_evaluates_iff _ hunthrottled (.ofSeed 1) (ticks [-1]) hne 0.5
    (by decide)).2.1
  have hone := (unthrottled_evaluates_iff _ hunthrottled (.ofSeed 1) (ticks [-1]) hne 1
    (by decide)).2.1
  rw [hbehind, ← not_lt, ← add_lt_zero_iff (by decide) (by decide)] at hhalf hone
  exact ⟨Bool.eq_false_iff.2 fun hdue => (hhalf.1 hdue).2 (by decide), hone.2 (by decide)⟩

/-- Without an interval a delta below zero does not evaluate the graph. -/
theorem not_forall_unthrottled_evaluates : ¬ ∀ r : Runner, r.Reachable → r.config.Unthrottled →
    r.instructions ≠ [] → ∀ delta : Float32, delta.isFinite → (r.tick delta).1 = true := by
  intro hall
  have hstart : (start Graph.overgrownProgram unthrottled (.ofSeed 1)).Reachable :=
    .start (.compiled Catalog.built Graph.compile_overgrown) _ _
  have hevaluated := hall _ hstart (by decide) (by exact nofun) (-1) (by decide)
  rw [tick_fst (by exact nofun)] at hevaluated
  exact absurd hevaluated (by decide)

end Dataflow.Runner
