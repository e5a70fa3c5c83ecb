import Dataflow.Proofs.Program.Computation
import Dataflow.Proofs.Runner.Evaluations

/-!
# Timing

When a graph is evaluated depends on the rate, the throttle mode and the time that passes. What its
evaluations publish and leave behind does not: it is found by evaluating the program with one list
of values of the parameters after another (`Runner.evaluated_eq_replay`). So two runs of a program
have the same evaluations for as long as the parameters have the same values at each
(`Runner.timing_unseen`).
-/

namespace Dataflow

namespace Runner

/-- The runner with other values for its parameters. -/
def withValues (r : Runner) (values : List Value) : Runner :=
  { r with parameters := List.zipWith Parameter.withValue r.parameters values }

/-- What evaluations leave behind, one after another, given the values of the parameters at each. -/
def replay (r : Runner) : List (List Value) → List Evaluation
  | [] => []
  | values :: rest =>
      let next := (r.withValues values).evaluate.2
      next.latest :: next.replay rest

variable {r r' : Runner} {p : Program}

/-- An evaluation does not depend on the values that the parameters have later. -/
theorem getElem?_replay {values values' : List (List Value)} {k : Nat}
    (h : ∀ j ≤ k, values'[j]? = values[j]?) : (r.replay values')[k]? = (r.replay values)[k]? := by
  induction values generalizing r values' k with
  | nil =>
      cases values' with
      | nil => rfl
      | cons first' rest' => cases h 0 k.zero_le
  | cons first rest ih =>
      cases values' with
      | nil => cases h 0 k.zero_le
      | cons first' rest' =>
          obtain rfl : first' = first := Option.some.inj (h 0 k.zero_le)
          cases k with
          | zero => rfl
          | succ k => exact ih fun j hj => h (j + 1) (Nat.succ_le_succ hj)

/-- Runners that resemble each other have the same parameters once these are given values. -/
theorem Resembles.withValues (h : r.Resembles r') (values : List Value) :
    (r.withValues values).Resembles (r'.withValues values) ∧
      (r'.withValues values).parameters = (r.withValues values).parameters := by
  have hparameters : List.zipWith Parameter.withValue r'.parameters values =
      List.zipWith Parameter.withValue r.parameters values := by
    rw [← zipWith_withValue_unset, h.unset_eq, zipWith_withValue_unset]
  exact ⟨⟨h.instructions_eq, congrArg (List.map Parameter.unset) hparameters, h.output_eq,
    h.table_eq, h.memory_eq⟩, hparameters⟩

/-- Runners that resemble each other evaluate alike, given the same values of the parameters. -/
theorem Resembles.replay_eq (h : r.Resembles r') (houtputs : r'.outputs = r.outputs)
    (values : List (List Value)) : r'.replay values = r.replay values := by
  induction values generalizing r r' with
  | nil => rfl
  | cons first rest ih =>
      obtain ⟨hgiven, hparameters⟩ := h.withValues first
      obtain ⟨-, hnext, hpublished⟩ := hgiven.evaluate (by rw [hparameters])
      have hpublished := hpublished (.inl houtputs)
      have hvalues : (r'.withValues first).evaluate.2.parameters.map (·.value) =
          (r.withValues first).evaluate.2.parameters.map (·.value) := by
        rw [parameters_evaluate, parameters_evaluate, hparameters]
      exact congrArg₂ List.cons (hnext.latest_eq hvalues hpublished) (ih hnext hpublished)

/-- A runner stays the same when its parameters are given the values that they have. -/
theorem withValues_self (r : Runner) : r.withValues (r.parameters.map (·.value)) = r := by
  rw [withValues, zipWith_withValue_self]

/-- What the evaluations in the course of a history leave behind is found from the values that the
parameters have at each of them. -/
theorem evaluated_eq_replay (r : Runner) (history : List Action) :
    r.evaluated history = r.replay ((r.evaluated history).map (·.values)) := by
  induction history generalizing r with
  | nil => rfl
  | cons action rest ih =>
      rw [evaluated]
      split
      · rename_i hevaluated
        obtain ⟨accumulated, hperform⟩ := perform_of_evaluated hevaluated
        -- a replay does not see how much time has accumulated
        have hlater : r.Resembles { r with accumulated } := ⟨rfl, rfl, rfl, rfl, rfl⟩
        rw [hperform, ← hlater.replay_eq rfl]
        generalize ({ r with accumulated } : Runner) = due
        have hvalues : due.evaluate.2.latest.values = due.parameters.map (·.value) := by
          rw [latest, parameters_evaluate]
        rw [List.map_cons, replay, hvalues, withValues_self, ← ih]
      · rename_i hquiet
        obtain ⟨hresembles, houtputs⟩ := resembles_perform (Bool.not_eq_true _ ▸ hquiet)
        rw [← hresembles.replay_eq houtputs]
        exact ih _

/-- Two runners of a program that begin with the same random source, whatever their rates and
throttle modes are and whenever they are evaluated, have the same evaluations for as long as the
parameters have the same values at each: the same is published, and the same slots, caches and
random source are left behind. An action that evaluates nothing, such as a change of a parameter or
a tick that is too early, draws nothing and leaves the slots, the caches and what was published. -/
theorem timing_unseen {config config' : Config} {entropy entropy' : Random.Source}
    (hseed : config'.seed = config.seed) (hentropy : config.seed = none → entropy' = entropy)
    (history history' : List Action) :
    (∀ (k : Nat) (e e' : Evaluation),
      ((start p config entropy).evaluated history)[k]? = some e →
      ((start p config' entropy').evaluated history')[k]? = some e' →
      (∀ j ≤ k, (((start p config' entropy').evaluated history')[j]?).map (·.values) =
        (((start p config entropy).evaluated history)[j]?).map (·.values)) → e' = e) ∧
    ∀ (r : Runner) (action : Action), (r.perform action).1 = false →
      (r.perform action).2.memory = r.memory ∧
      (r.perform action).2.instructions = r.instructions ∧
      (r.perform action).2.outputs = r.outputs := by
  have hsource : config'.source entropy' = config.source entropy := by
    unfold Config.source
    rw [hseed]
    cases hc : config.seed with
    | none => exact hentropy hc
    | some seed => rfl
  have hbegin : (start p config entropy).Resembles (start p config' entropy') :=
    ⟨rfl, rfl, rfl, rfl, congrArg (Memory.fresh p.slotCount) hsource⟩
  refine ⟨fun k e e' he he' hvalues => ?_, fun r action hquiet => ?_⟩
  · have hevaluated := evaluated_eq_replay (start p config entropy) history
    have hevaluated' := evaluated_eq_replay (start p config' entropy') history'
    rw [hbegin.replay_eq rfl] at hevaluated'
    have hkth : ((start p config' entropy').evaluated history')[k]? =
        ((start p config entropy).evaluated history)[k]? := by
      rw [hevaluated, hevaluated']
      refine getElem?_replay fun j hj => ?_
      rw [List.getElem?_map, List.getElem?_map, hvalues j hj]
    rw [he, he'] at hkth
    exact Option.some.inj hkth
  · obtain ⟨hresembles, houtputs⟩ := resembles_perform hquiet
    exact ⟨hresembles.memory_eq, hresembles.instructions_eq, houtputs⟩

end Runner

namespace Graph

/-- A graph that gives out a parameter and a random number. -/
def noisy : Graph where
  arena := ⟨#[none, some (1, .parameterRead ⟨7⟩), some (1, .random),
    some (1, Node.output.addInput none)], []⟩
  wires := #[⟨⟨⟨1, 1⟩, 0⟩, ⟨⟨3, 1⟩, 0⟩⟩, ⟨⟨⟨2, 1⟩, 0⟩, ⟨⟨3, 1⟩, 1⟩⟩]
  parameters := [(⟨7⟩, ⟨"gain", .float (.plain 2)⟩)]

/-- The instructions of the graph that gives out a parameter and a random number. -/
def noisyInstructions : List Instruction :=
  [⟨.parameterRead, 17, .parameterRead ⟨7⟩, ⟨1, 1⟩, [], [some ⟨0⟩], [some ⟨1⟩], [.empty]⟩,
    ⟨Catalog.randomFloat, 1, .operation, ⟨2, 1⟩, [], [], [some ⟨2⟩], []⟩,
    ⟨.output, 0, .output, ⟨3, 1⟩, [], [some ⟨1⟩, some ⟨2⟩], [], [.empty, .empty]⟩]

/-- The program of the graph that gives out a parameter and a random number. -/
def noisyProgram : Program :=
  ⟨noisyInstructions, [⟨⟨7⟩, "gain", .float (.plain 2), ⟨0⟩⟩], some 2, 3, Catalog.table,
    ⟨3, 0, 3, 3⟩⟩

/-- Evaluations are due at most three times a second, and a seed is given. -/
def slowPace : Config := { Config.default with seed := some 1 }

/-- Evaluations are due four times a second, and the same seed is given. -/
def quickPace : Config := ⟨4, .carryRemainder, some 1⟩

/-- What the evaluations leave behind in a run in which a parameter is set after a tick that is too
early. -/
def noisySlowly : List Evaluation :=
  (Runner.start noisyProgram slowPace (.ofSeed 1)).evaluated
    [.tick 0.25, .setParameter ⟨7⟩ (.int 3), .tick 1, .tick 0.125, .evaluate]

/-- What the evaluations leave behind in a run in which each tick is due. -/
def noisyQuickly : List Evaluation :=
  (Runner.start noisyProgram quickPace (.ofSeed 2)).evaluated
    [.setParameter ⟨7⟩ (.int 3), .tick 0.25, .tick 0.5]

set_option maxRecDepth 10000 in
/-- Both runs of the graph have two evaluations, and the second ones give out the same random
number. -/
theorem noisy_alike : noisy.compile Catalog.table = .ok noisyProgram ∧
    quickPace.seed = slowPace.seed ∧ noisySlowly.length = 2 ∧ noisyQuickly.length = 2 ∧
    noisyQuickly[1]? = noisySlowly[1]? := by
  have hslowly : noisySlowly.map (·.values) = [[.int 3], [.int 3]] := rfl
  have hquickly : noisyQuickly.map (·.values) = [[.int 3], [.int 3]] := rfl
  have hvalues : ∀ j : Nat,
      (noisyQuickly[j]?).map (·.values) = (noisySlowly[j]?).map (·.values) := by
    intro j
    have hsame := congrArg (·[j]?) (hquickly.trans hslowly.symm)
    simpa only [List.getElem?_map] using hsame
  have hlength : noisySlowly.length = 2 := rfl
  have hlength' : noisyQuickly.length = 2 := rfl
  obtain ⟨e, he⟩ : ∃ e, noisySlowly[1]? = some e :=
    ⟨_, List.getElem?_eq_getElem (by rw [hlength]; decide)⟩
  obtain ⟨e', he'⟩ : ∃ e, noisyQuickly[1]? = some e :=
    ⟨_, List.getElem?_eq_getElem (by rw [hlength']; decide)⟩
  have hseed : quickPace.seed = slowPace.seed := rfl
  have hentropy : slowPace.seed = none → Random.Source.ofSeed 2 = .ofSeed 1 := nofun
  refine ⟨?_, hseed, hlength, hlength', ?_⟩
  · exact compile_eq_ok ⟨3, 1⟩ [⟨1, 1⟩, ⟨2, 1⟩, ⟨3, 1⟩] 7 noisyInstructions
      ⟨[], [1, 2], 3, 1, 3⟩ (by decide) (by decide) (by decide) rfl rfl rfl
  · obtain ⟨halike, -⟩ := Runner.timing_unseen hseed hentropy _ _
    rw [he, he', halike 1 e e' he he' fun j _ => hvalues j]

end Graph

end Dataflow
