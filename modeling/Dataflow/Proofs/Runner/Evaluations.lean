import Dataflow.Proofs.Runner.History

/-!
# The evaluations of a history

`Runner.evaluated` lists what the evaluations in the course of a history leave behind. An action
that evaluates nothing leaves everything as it is but the values of parameters and the time
(`resembles_perform`), and what an evaluation leaves behind depends on the program, the slots, the
random source and the values of the parameters, and on nothing else that a runner keeps
(`Resembles.evaluate`).
-/

namespace Dataflow

/-- What an evaluation leaves behind: the values that the parameters had, what was published, the
slots, the cached inputs of the instructions, and the random source. -/
structure Evaluation where
  values : List Value
  outputs : List Float32
  slots : Array Value
  caches : List (List Value)
  source : Random.Source

/-- The parameter with another value. -/
def Parameter.withValue (q : Parameter) (v : Value) : Parameter := { q with value := v }

/-- The parameter without its value. -/
def Parameter.unset (q : Parameter) : Parameter := q.withValue .empty

/-- The values that parameters are given replace those that they had. -/
theorem zipWith_withValue_unset (parameters : List Parameter) (values : List Value) :
    List.zipWith Parameter.withValue (parameters.map Parameter.unset) values =
      List.zipWith Parameter.withValue parameters values := by
  rw [List.zipWith_map_left]
  rfl

/-- Parameters that are given the values that they had stay the same. -/
theorem zipWith_withValue_self (parameters : List Parameter) :
    List.zipWith Parameter.withValue parameters (parameters.map (·.value)) = parameters := by
  rw [List.zipWith_map_right, List.zipWith_self]
  exact List.map_id parameters

namespace Runner

/-- What the latest evaluation has left behind. -/
def latest (r : Runner) : Evaluation where
  values := r.parameters.map (·.value)
  outputs := r.outputs
  slots := r.memory.slots
  caches := r.instructions.map (·.inputCache)
  source := r.memory.source

/-- What the evaluations in the course of a history leave behind. -/
def evaluated (r : Runner) : List Action → List Evaluation
  | [] => []
  | action :: rest =>
      let next := (r.perform action).2
      if (r.perform action).1 then next.latest :: next.evaluated rest else next.evaluated rest

/-- The runners have the same program, slots and random source, and the parameters are the same up
to their values. -/
structure Resembles (r r' : Runner) : Prop where
  instructions_eq : r'.instructions = r.instructions
  unset_eq : r'.parameters.map Parameter.unset = r.parameters.map Parameter.unset
  output_eq : r'.output = r.output
  table_eq : r'.table = r.table
  memory_eq : r'.memory = r.memory

/-- An instruction gives its inputs to be published. -/
def HasSink (r : Runner) : Prop := ∃ sink, r.output = some sink ∧ sink < r.instructions.length

variable {r r' : Runner}

/-- A runner resembles itself. -/
theorem Resembles.refl (r : Runner) : r.Resembles r := ⟨rfl, rfl, rfl, rfl, rfl⟩

/-- Runners that resemble each other have the same parameters, if these have the same values. -/
theorem Resembles.parameters_eq (h : r.Resembles r')
    (hvalues : r'.parameters.map (·.value) = r.parameters.map (·.value)) :
    r'.parameters = r.parameters := by
  rw [← zipWith_withValue_self r'.parameters, ← zipWith_withValue_unset, h.unset_eq, hvalues,
    zipWith_withValue_unset, zipWith_withValue_self]

/-- Only a runner without instructions does not evaluate, and then nothing changes. -/
theorem evaluate_of_nil (hnil : r.instructions = []) : r.evaluate = (false, r) := by
  rw [evaluate, if_pos (List.isEmpty_iff.2 hnil)]

/-- An evaluation changes no parameter. -/
@[simp] theorem parameters_evaluate : r.evaluate.2.parameters = r.parameters := by
  by_cases hnil : r.instructions = []
  · rw [evaluate_of_nil hnil]
  · rw [evaluate_of_ne_nil hnil]

/-! ## Actions that evaluate nothing -/

/-- An evaluation that does not take place changes nothing. -/
theorem evaluate_eq_self (h : r.evaluate.1 = false) : r.evaluate.2 = r := by
  by_cases hnil : r.instructions = []
  · rw [evaluate_of_nil hnil]
  · rw [evaluate_of_ne_nil hnil] at h
    cases h

/-- A runner of which a parameter is set goes on to resemble itself. -/
theorem resembles_set (r : Runner) (found : Parameter → Bool) (v : Value) : r.Resembles { r with
    parameters := (updateFirst? found (fun q => { q with value := v }) r.parameters).getD
      r.parameters } where
  instructions_eq := rfl
  unset_eq := map_updateFirst? found (fun q => { q with value := v }) (fun _ => rfl) r.parameters
  output_eq := rfl
  table_eq := rfl
  memory_eq := rfl

/-- An action that evaluates nothing changes at most the values of parameters and the time. -/
theorem resembles_perform {action : Action} (h : (r.perform action).1 = false) :
    r.Resembles (r.perform action).2 ∧ (r.perform action).2.outputs = r.outputs := by
  cases action with
  | setParameter id v =>
      rw [perform_setParameter]
      exact ⟨r.resembles_set _ v, rfl⟩
  | setParameterByName name v =>
      rw [perform_setParameterByName]
      exact ⟨r.resembles_set _ v, rfl⟩
  | tick delta =>
      rw [perform_tick] at h ⊢
      split at h
      · rename_i hdue
        rw [if_pos hdue, evaluate_eq_self h]
        exact ⟨⟨rfl, rfl, rfl, rfl, rfl⟩, rfl⟩
      · rename_i hdue
        rw [if_neg hdue]
        exact ⟨⟨rfl, rfl, rfl, rfl, rfl⟩, rfl⟩
  | evaluate =>
      have hsame : (r.perform .evaluate).2 = r := evaluate_eq_self h
      rw [hsame]
      exact ⟨.refl r, rfl⟩

/-- As long as nothing is evaluated, what was published stays. -/
theorem outputs_after (history : List Action) (h : r.evaluated history = []) :
    (r.after history).outputs = r.outputs := by
  induction history generalizing r with
  | nil => rfl
  | cons action rest ih =>
      rw [evaluated] at h
      split at h
      · cases h
      · rename_i hquiet
        exact (ih h).trans (resembles_perform (Bool.not_eq_true _ ▸ hquiet)).2

/-! ## Evaluations -/

/-- An action that evaluates the graph does nothing else but let time pass. -/
theorem perform_of_evaluated {action : Action} (h : (r.perform action).1 = true) :
    ∃ accumulated, r.perform action = Runner.evaluate { r with accumulated } := by
  cases action with
  | setParameter | setParameterByName => cases h
  | tick delta =>
      rw [perform_tick] at h ⊢
      split
      · exact ⟨_, rfl⟩
      · rename_i hdue
        rw [if_neg hdue] at h
        cases h
  | evaluate => exact ⟨r.accumulated, rfl⟩

/-- Runners that resemble each other publish the same, unless what they published before stays. -/
theorem Resembles.published_eq (h : r.Resembles r')
    (houtputs : r'.outputs = r.outputs ∨ r.HasSink) {instructions : List Instruction}
    (hlength : instructions.length = r.instructions.length) :
    r'.published instructions = r.published instructions := by
  unfold published
  rw [h.output_eq]
  rcases houtputs with houtputs | ⟨sink, hsink, hlt⟩
  · rw [houtputs]
  · rw [hsink, Option.bind_some, List.getElem?_eq_getElem (hlength ▸ hlt)]

/-- Runners that resemble each other and of which the parameters have the same values evaluate
alike. They publish the same, unless what they published before stays. -/
theorem Resembles.evaluate (h : r.Resembles r')
    (hvalues : r'.parameters.map (·.value) = r.parameters.map (·.value)) :
    r'.evaluate.1 = r.evaluate.1 ∧ r.evaluate.2.Resembles r'.evaluate.2 ∧
      (r'.outputs = r.outputs ∨ r.HasSink → r'.evaluate.2.outputs = r.evaluate.2.outputs) := by
  have hparameters := h.parameters_eq hvalues
  by_cases hnil : r.instructions = []
  · rw [evaluate_of_nil hnil, evaluate_of_nil (h.instructions_eq.trans hnil)]
    refine ⟨rfl, h, fun houtputs => houtputs.resolve_right ?_⟩
    rintro ⟨sink, -, hlt⟩
    rw [hnil] at hlt
    exact Nat.not_lt_zero sink hlt
  · have hran : executeAll r'.table r'.instructions (r'.memory.putAll r'.parameters) =
        executeAll r.table r.instructions (r.memory.putAll r.parameters) := by
      rw [h.table_eq, h.instructions_eq, h.memory_eq, hparameters]
    rw [evaluate_of_ne_nil hnil, evaluate_of_ne_nil (h.instructions_eq.trans_ne hnil), hran]
    refine ⟨rfl, ⟨rfl, h.unset_eq, h.output_eq, h.table_eq, rfl⟩, fun houtputs => ?_⟩
    exact h.published_eq houtputs (length_executeAll _ _ _)

/-- Runners that resemble each other leave the same behind, if the parameters have the same values
and the same was published. -/
theorem Resembles.latest_eq (h : r.Resembles r')
    (hvalues : r'.parameters.map (·.value) = r.parameters.map (·.value))
    (houtputs : r'.outputs = r.outputs) : r'.latest = r.latest := by
  rw [latest, latest, hvalues, houtputs, h.memory_eq, h.instructions_eq]

end Runner

end Dataflow
