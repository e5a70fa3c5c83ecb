import Dataflow.Proofs.Runner.Evaluations
import Dataflow.Proofs.Runner.Stateless

/-!
# Loading a program

A runner that loads a program answers from then on as a fresh one does, and every evaluation
publishes and leaves behind the same, if both draw from the same random source
(`Graph.load_leaks_nothing`). What operations left in the slots before is gone, whether they write
all of their outputs or not. Time, the number of evaluations and what was published go on.
-/

namespace Dataflow

/-- The action does not depend on the time that has accumulated. -/
def Action.Untimed : Action → Prop
  | .tick _ => False
  | .setParameter _ _ | .setParameterByName _ _ | .evaluate => True

namespace Runner

/-- Why an action is refused, or else whether the graph was evaluated. -/
def reply (r : Runner) : Action → Except RunnerError Bool
  | .setParameter id v => (r.setParameter id v).map fun _ => false
  | .setParameterByName name v => (r.setParameterByName name v).map fun _ => false
  | .tick delta => .ok (r.tick delta).1
  | .evaluate => .ok r.evaluate.1

/-- The replies to actions, one after another. -/
def replies (r : Runner) : List Action → List (Except RunnerError Bool)
  | [] => []
  | action :: rest => r.reply action :: (r.perform action).2.replies rest

/-- The runner with another random source. -/
def drawingFrom (r : Runner) (source : Random.Source) : Runner :=
  { r with memory := { r.memory with source } }

/-- The runners differ at most in their configuration, in time, in what was published and in how
often. The parameters have the same values, and an evaluation replaces what was published. -/
structure Mirrors (r r' : Runner) : Prop where
  resembles : r.Resembles r'
  values_eq : r'.parameters.map (·.value) = r.parameters.map (·.value)
  hasSink : r.HasSink

variable {r r' : Runner}

/-- After an evaluation an instruction still gives its inputs to be published. -/
theorem HasSink.evaluate (h : r.HasSink) : r.evaluate.2.HasSink := by
  obtain ⟨sink, hsink, hlt⟩ := h
  have hne : r.instructions ≠ [] := List.ne_nil_of_length_pos (Nat.zero_lt_of_lt hlt)
  rw [evaluate_of_ne_nil hne]
  exact ⟨sink, hsink, by rwa [length_executeAll]⟩

namespace Mirrors

variable (h : r.Mirrors r')
include h

/-- Runners that mirror each other have the same parameters. -/
theorem parameters_eq : r'.parameters = r.parameters :=
  h.resembles.parameters_eq h.values_eq

/-- Runners that mirror each other give the same reply to an action that time does not matter to. -/
theorem reply_eq {action : Action} (huntimed : action.Untimed) :
    r'.reply action = r.reply action := by
  cases action with
  | setParameter id v =>
      simp only [reply, setParameter, h.parameters_eq]
      split <;> rfl
  | setParameterByName name v =>
      simp only [reply, setParameterByName, h.parameters_eq]
      split <;> rfl
  | tick delta => cases huntimed
  | evaluate => exact congrArg Except.ok (h.resembles.evaluate h.values_eq).1

/-- Runners that mirror each other do so after the same change of their parameters. -/
theorem change (f : List Parameter → List Parameter) :
    Mirrors { r with parameters := f r.parameters } { r' with parameters := f r'.parameters } where
  resembles := {
    instructions_eq := h.resembles.instructions_eq
    unset_eq := by rw [h.parameters_eq]
    output_eq := h.resembles.output_eq
    table_eq := h.resembles.table_eq
    memory_eq := h.resembles.memory_eq }
  values_eq := by rw [h.parameters_eq]
  hasSink := h.hasSink

/-- Runners that mirror each other go on to do so, and an evaluation leaves the same behind. -/
theorem perform {action : Action} (huntimed : action.Untimed) :
    (r'.perform action).1 = (r.perform action).1 ∧
      (r.perform action).2.Mirrors (r'.perform action).2 ∧
      ((r.perform action).1 = true →
        (r'.perform action).2.latest = (r.perform action).2.latest) := by
  cases action with
  | setParameter id v =>
      rw [perform_setParameter, perform_setParameter]
      exact ⟨rfl, h.change fun parameters => (updateFirst? _ _ parameters).getD parameters,
        fun hevaluated => nomatch hevaluated⟩
  | setParameterByName name v =>
      rw [perform_setParameterByName, perform_setParameterByName]
      exact ⟨rfl, h.change fun parameters => (updateFirst? _ _ parameters).getD parameters,
        fun hevaluated => nomatch hevaluated⟩
  | tick delta => cases huntimed
  | evaluate =>
      obtain ⟨hevaluated, hresembles, houtputs⟩ := h.resembles.evaluate h.values_eq
      have hvalues : r'.evaluate.2.parameters.map (·.value) =
          r.evaluate.2.parameters.map (·.value) := by
        rw [parameters_evaluate, parameters_evaluate, h.values_eq]
      exact ⟨hevaluated, ⟨hresembles, hvalues, h.hasSink.evaluate⟩,
        fun _ => hresembles.latest_eq hvalues (houtputs (.inr h.hasSink))⟩

/-- Runners that mirror each other reply alike, and their evaluations leave the same behind. -/
theorem replies_eq {history : List Action} (huntimed : ∀ action ∈ history, action.Untimed) :
    r'.replies history = r.replies history ∧ r'.evaluated history = r.evaluated history := by
  induction history generalizing r r' with
  | nil => exact ⟨rfl, rfl⟩
  | cons action rest ih =>
      obtain ⟨haction, hrest⟩ := List.forall_mem_cons.1 huntimed
      obtain ⟨hevaluated, hmirrors, hlatest⟩ := h.perform haction
      obtain ⟨hreplies, hlater⟩ := ih hmirrors hrest
      refine ⟨congrArg₂ List.cons (h.reply_eq haction) hreplies, ?_⟩
      rw [evaluated, evaluated, hevaluated, hlater]
      split
      · rename_i hdone
        rw [hlatest hdone]
      · rfl

end Mirrors

end Runner

/-- An instruction of a program gives its inputs to be published. -/
theorem Graph.hasSink_load {g : Graph} {table : Table} {p : Program}
    (hp : g.compile table = .ok p) (r : Runner) : (r.load p).HasSink := by
  obtain ⟨feeds, root, order, last, h⟩ := compilation_of_ok hp
  exact ⟨p.instructions.length - 1, h.output_eq,
    Nat.sub_lt (List.length_pos_of_ne_nil h.instructions_ne_nil) Nat.one_pos⟩

/-- A runner that loads the program of a graph keeps the time that has accumulated, the number of
evaluations and, until the next of these, what was published. Whatever it did before, it replies
from then on to actions that time does not matter to as a fresh runner of the program does that
draws from the same random source, and the evaluations of both see the same values, publish the same
and leave the same slots, caches and random source. -/
theorem Graph.load_leaks_nothing {g : Graph} {table : Table} {p : Program}
    (hp : g.compile table = .ok p) (r : Runner) :
    ((r.load p).accumulated = r.accumulated ∧ (r.load p).evaluations = r.evaluations ∧
      ∀ history, (r.load p).evaluated history = [] →
        ((r.load p).after history).outputs = r.outputs) ∧
    ∀ config entropy history, (∀ action ∈ history, action.Untimed) →
      (r.load p).replies history =
        ((Runner.start p config entropy).drawingFrom r.memory.source).replies history ∧
      (r.load p).evaluated history =
        ((Runner.start p config entropy).drawingFrom r.memory.source).evaluated history := by
  refine ⟨⟨rfl, rfl, fun history hquiet => Runner.outputs_after history hquiet⟩, ?_⟩
  intro config entropy history huntimed
  have hmirrors : (r.load p).Mirrors
      ((Runner.start p config entropy).drawingFrom r.memory.source) :=
    ⟨⟨rfl, rfl, rfl, rfl, rfl⟩, rfl, hasSink_load hp r⟩
  obtain ⟨hreplies, hevaluated⟩ := hmirrors.replies_eq huntimed
  exact ⟨hreplies.symm, hevaluated.symm⟩

/-- A graph that counts its evaluations in a slot which nothing fills beforehand starts over when it
is loaded again, and what it published last stays until then. -/
theorem Graph.counting_starts_over :
    (countingStart.evaluate.2.evaluate.2.load countingProgram).outputs = [2] ∧
    (countingStart.evaluate.2.evaluate.2.load countingProgram).replies
      [.evaluate, .setParameter ⟨7⟩ .empty, .evaluate] =
        [.ok true, .error (.unknownParameter ⟨7⟩), .ok true] ∧
    ((countingStart.evaluate.2.evaluate.2.load countingProgram).evaluated
      [.evaluate, .setParameter ⟨7⟩ .empty, .evaluate]).map (·.outputs) = [[1], [2]] := by
  obtain ⟨⟨-, -, hkept⟩, hfresh⟩ := load_leaks_nothing compile_counting
    countingStart.evaluate.2.evaluate.2
  have huntimed : ∀ action ∈ [.evaluate, .setParameter ⟨7⟩ .empty, .evaluate],
      Action.Untimed action := by
    simp [Action.Untimed]
  obtain ⟨hreplies, hevaluated⟩ := hfresh .default (.ofSeed 1) _ huntimed
  rw [hreplies, hevaluated]
  exact ⟨(hkept [] rfl).trans rfl, rfl, rfl⟩

end Dataflow
