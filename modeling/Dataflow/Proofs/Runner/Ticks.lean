import Dataflow.Proofs.Config.Throttle
import Dataflow.Proofs.Runner.Evaluations
import Dataflow.Proofs.Runner.Requests

/-!
# Ticks among other requests

Of all that a host asks of a runner only ticks touch the accumulated time
(`Runner.served_keeps`), and as long as there is a graph a tick evaluates it if the throttle
says so (`Runner.fired_eq`). The evaluations are those by ticks and those that are asked for
(`Runner.evaluations_served`).
-/

namespace Dataflow

namespace Request

/-- The delta of a tick. -/
def delta? : Request → Option Float32
  | .act (.tick delta) => some delta
  | _ => none

/-- Whether an evaluation is asked for. -/
def isEvaluate : Request → Bool
  | .act .evaluate => true
  | _ => false

/-- A program that is to be loaded has instructions. -/
def Furnished : Request → Prop
  | .act _ => True
  | .load p => p.instructions ≠ []

/-- Whether a program that is to be loaded has instructions. -/
instance : DecidablePred Furnished
  | .act _ => isTrue trivial
  | .load _ => decidable_of_iff _ List.isEmpty_eq_false_iff

/-- The deltas of the ticks among requests. -/
def deltas (requests : List Request) : List Float32 :=
  requests.filterMap delta?

/-- Ticks with deltas, one after another. -/
def ticks (deltas : List Float32) : List Request :=
  deltas.map fun delta => .act (.tick delta)

/-- The deltas of ticks are those that they were given. -/
@[simp] theorem deltas_ticks (deltas : List Float32) : Request.deltas (ticks deltas) = deltas := by
  induction deltas with
  | nil => rfl
  | cons delta rest ih => exact congrArg (delta :: ·) ih

/-- Ticks load no program that a host cannot have. -/
theorem admissible_ticks (deltas : List Float32) :
    ∀ request ∈ ticks deltas, request.Admissible := by
  intro request hrequest
  obtain ⟨delta, -, rfl⟩ := List.mem_map.1 hrequest
  trivial

/-- Ticks load no program without instructions. -/
theorem furnished_ticks (deltas : List Float32) : ∀ request ∈ ticks deltas, request.Furnished := by
  intro request hrequest
  obtain ⟨delta, -, rfl⟩ := List.mem_map.1 hrequest
  trivial

/-- A tick comes with its delta. -/
theorem deltas_tick (delta : Float32) (rest : List Request) :
    deltas (.act (.tick delta) :: rest) = delta :: deltas rest := rfl

/-- The deltas of requests before others come first. -/
theorem deltas_append (before after : List Request) :
    deltas (before ++ after) = deltas before ++ deltas after :=
  List.filterMap_append

end Request

namespace Runner

open Request (deltas)

/-- The runner after requests, one after another. -/
def served (r : Runner) (requests : List Request) : Runner :=
  requests.foldl (fun r request => (r.serve request).2) r

/-- How many ticks among requests evaluate the graph. -/
def fired (r : Runner) : List Request → Nat
  | [] => 0
  | request :: rest =>
      (request.delta?.isSome && (r.serve request).1).toNat + (r.serve request).2.fired rest

variable {r : Runner} {requests : List Request} {request : Request}

/-! ## One request -/

/-- An evaluation touches neither the configuration nor the accumulated time. -/
theorem evaluate_keeps (r : Runner) :
    r.evaluate.2.config = r.config ∧ r.evaluate.2.accumulated = r.accumulated := by
  by_cases hnil : r.instructions = []
  · rw [evaluate_of_nil hnil]
    exact ⟨rfl, rfl⟩
  · rw [evaluate_of_ne_nil hnil]
    exact ⟨rfl, rfl⟩

/-- Where there is a graph, it is evaluated. -/
theorem evaluate_counts (hne : r.instructions ≠ []) :
    r.evaluate.1 = true ∧ r.evaluate.2.evaluations = r.evaluations + 1 := by
  rw [evaluate_of_ne_nil hne]
  exact ⟨rfl, rfl⟩

/-- No request touches the configuration, and only a tick the accumulated time. -/
theorem serve_keeps (r : Runner) (request : Request) :
    (r.serve request).2.config = r.config ∧
      (r.serve request).2.accumulated =
        r.config.elapse r.accumulated request.delta?.toList := by
  cases request with
  | load p => exact ⟨rfl, rfl⟩
  | act action =>
      show (r.perform action).2.config = _ ∧ (r.perform action).2.accumulated = _
      cases action with
      | setParameter id v =>
          rw [perform_setParameter]
          exact ⟨rfl, rfl⟩
      | setParameterByName name v =>
          rw [perform_setParameterByName]
          exact ⟨rfl, rfl⟩
      | evaluate => exact r.evaluate_keeps
      | tick delta =>
          rw [perform_tick]
          split
          · exact evaluate_keeps _
          · exact ⟨rfl, rfl⟩

/-- A graph stays as long as only graphs are loaded. -/
theorem serve_instructions_ne_nil (hne : r.instructions ≠ []) (hrequest : request.Furnished) :
    (r.serve request).2.instructions ≠ [] := by
  have hevaluate {r : Runner} (hne : r.instructions ≠ []) : r.evaluate.2.instructions ≠ [] := by
    rw [evaluate_of_ne_nil hne]
    show (executeAll _ _ _).1 ≠ []
    rwa [← List.length_pos_iff, length_executeAll, List.length_pos_iff]
  cases request with
  | load p => exact hrequest
  | act action =>
      show (r.perform action).2.instructions ≠ []
      cases action with
      | setParameter id v =>
          rw [perform_setParameter]
          exact hne
      | setParameterByName name v =>
          rw [perform_setParameterByName]
          exact hne
      | evaluate => exact hevaluate hne
      | tick delta =>
          rw [perform_tick]
          split
          · exact hevaluate hne
          · exact hne

/-- Where there is a graph, a tick evaluates it if the throttle says so. -/
theorem tick_fst (hne : r.instructions ≠ []) (delta : Float32) :
    (r.tick delta).1 = (r.config.advance r.accumulated delta).1 := by
  show (r.perform (.tick delta)).1 = _
  rw [perform_tick]
  cases hdue : (r.config.advance r.accumulated delta).1 with
  | false => rfl
  | true =>
      rw [if_pos rfl]
      exact (evaluate_counts (r := { r with
        accumulated := (r.config.advance r.accumulated delta).2 }) hne).1

/-- Where there is a graph, a request counts as an evaluation if it is a tick that evaluates the
graph or asks for an evaluation. -/
theorem serve_evaluations (hne : r.instructions ≠ []) (request : Request) :
    (r.serve request).2.evaluations = r.evaluations +
      ((request.delta?.isSome && (r.serve request).1).toNat + request.isEvaluate.toNat) := by
  cases request with
  | load p => rfl
  | act action =>
      show (r.perform action).2.evaluations = r.evaluations +
        (((Request.act action).delta?.isSome && (r.perform action).1).toNat + _)
      cases action with
      | setParameter id v =>
          rw [perform_setParameter]
          rfl
      | setParameterByName name v =>
          rw [perform_setParameterByName]
          rfl
      | evaluate => exact (evaluate_counts hne).2
      | tick delta =>
          rw [perform_tick]
          split
          · obtain ⟨hevaluated, hevaluations⟩ := evaluate_counts (r := { r with
              accumulated := (r.config.advance r.accumulated delta).2 }) hne
            rw [hevaluated, hevaluations]
            rfl
          · rfl

/-! ## Requests one after another -/

/-- A runner that can be reached can be reached after requests as well. -/
theorem Reachable.served (h : r.Reachable)
    (hrequests : ∀ request ∈ requests, request.Admissible) : (r.served requests).Reachable := by
  induction requests generalizing r with
  | nil => exact h
  | cons request rest ih =>
      obtain ⟨hfirst, hrest⟩ := List.forall_mem_cons.1 hrequests
      exact ih (h.serve hfirst) hrest

/-- No requests touch the configuration, and only ticks the accumulated time. -/
theorem served_keeps (r : Runner) (requests : List Request) :
    (r.served requests).config = r.config ∧
      (r.served requests).accumulated = r.config.elapse r.accumulated (deltas requests) := by
  induction requests generalizing r with
  | nil => exact ⟨rfl, rfl⟩
  | cons request rest ih =>
      obtain ⟨hconfig, haccumulated⟩ := r.serve_keeps request
      obtain ⟨hconfig', haccumulated'⟩ := ih (r.serve request).2
      refine ⟨hconfig'.trans hconfig, haccumulated'.trans ?_⟩
      rw [hconfig, haccumulated, ← Config.elapse_append]
      congr 1
      show _ = List.filterMap Request.delta? (request :: rest)
      cases hdelta : request.delta? with
      | none =>
          rw [List.filterMap_cons_none hdelta]
          rfl
      | some delta =>
          rw [List.filterMap_cons_some hdelta]
          rfl

/-- A graph stays as long as only graphs are loaded. -/
theorem served_instructions_ne_nil (hne : r.instructions ≠ [])
    (hrequests : ∀ request ∈ requests, request.Furnished) :
    (r.served requests).instructions ≠ [] := by
  induction requests generalizing r with
  | nil => exact hne
  | cons request rest ih =>
      obtain ⟨hfirst, hrest⟩ := List.forall_mem_cons.1 hrequests
      exact ih (serve_instructions_ne_nil hne hfirst) hrest

/-- As long as there is a graph, the ticks that evaluate it are those for which the throttle says
so. -/
theorem fired_eq (hne : r.instructions ≠ [])
    (hrequests : ∀ request ∈ requests, request.Furnished) :
    r.fired requests = r.config.firings r.accumulated (deltas requests) := by
  induction requests generalizing r with
  | nil => rfl
  | cons request rest ih =>
      obtain ⟨hfirst, hrest⟩ := List.forall_mem_cons.1 hrequests
      obtain ⟨hconfig, haccumulated⟩ := r.serve_keeps request
      rw [fired, ih (serve_instructions_ne_nil hne hfirst) hrest, hconfig, haccumulated]
      show _ = r.config.firings r.accumulated (List.filterMap Request.delta? (request :: rest))
      cases request with
      | load p => exact Nat.zero_add _
      | act action =>
          cases action with
          | setParameter | setParameterByName | evaluate => exact Nat.zero_add _
          | tick delta =>
              have htick := tick_fst hne delta
              show (true && (r.tick delta).1).toNat + _ = _
              rw [htick]
              rfl

/-- As long as there is a graph, the evaluations are those by ticks and those that are asked for. -/
theorem evaluations_served (hne : r.instructions ≠ [])
    (hrequests : ∀ request ∈ requests, request.Furnished) :
    (r.served requests).evaluations =
      r.evaluations + (r.fired requests + requests.countP Request.isEvaluate) := by
  induction requests generalizing r with
  | nil => rfl
  | cons request rest ih =>
      obtain ⟨hfirst, hrest⟩ := List.forall_mem_cons.1 hrequests
      show ((r.serve request).2.served rest).evaluations = _
      rw [ih (serve_instructions_ne_nil hne hfirst) hrest, serve_evaluations hne, fired,
        List.countP_cons]
      cases request.isEvaluate
      · simp
        omega
      · simp
        omega

/-! ## From the start -/

variable {p : Program}

/-- After a start a runner keeps its configuration, and time accumulates from nothing. -/
theorem served_start (p : Program) (config : Config) (entropy : Random.Source)
    (requests : List Request) :
    ((start p config entropy).served requests).config = config ∧
      ((start p config entropy).served requests).accumulated =
        config.elapse 0 (deltas requests) :=
  (start p config entropy).served_keeps requests

/-- After a start with a graph, ticks evaluate it when the throttle says so. -/
theorem fired_start (hne : p.instructions ≠ []) (config : Config) (entropy : Random.Source)
    (hrequests : ∀ request ∈ requests, request.Furnished) :
    (start p config entropy).fired requests = config.firings 0 (deltas requests) :=
  fired_eq (r := start p config entropy) hne hrequests

/-- After a start with a graph and other requests, a tick evaluates it if the throttle says so. -/
theorem tick_served_start (hne : p.instructions ≠ []) (config : Config) (entropy : Random.Source)
    (hrequests : ∀ request ∈ requests, request.Furnished) (delta : Float32) :
    (((start p config entropy).served requests).tick delta).1 =
      (config.advance (config.elapse 0 (deltas requests)) delta).1 := by
  obtain ⟨hconfig, haccumulated⟩ := served_start p config entropy requests
  rw [tick_fst (served_instructions_ne_nil hne hrequests), hconfig, haccumulated]

end Runner

end Dataflow
