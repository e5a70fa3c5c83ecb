import Dataflow.Proofs.Program.Refinement
import Dataflow.Runner.Basic

/-!
# Histories of a runner

A runner begins with a program and then performs actions: parameters are set, time passes, the
graph is evaluated. Whatever it has performed, it still holds the program
(`Runner.holds_after`): its instructions are bound as they were, its parameters have the values
that were set last, and there are as many slots as at the start.
-/

namespace Dataflow

/-- What a host does to a runner: it sets the parameter with an identity or the first one with a
name, lets time pass, or evaluates the graph. -/
inductive Action where
  | setParameter (id : ParameterId) (v : Value)
  | setParameterByName (name : String) (v : Value)
  | tick (delta : Float32)
  | evaluate

/-- Declared parameters with a value given to the first one that is meant, if there is one. -/
def assignFirst (meant : ParameterId × ParameterDescription → Bool) (v : Value) :
    List (ParameterId × ParameterDescription) → List (ParameterId × ParameterDescription)
  | [] => []
  | (id, p) :: rest =>
      if meant (id, p) then (id, { p with value := v }) :: rest
      else (id, p) :: assignFirst meant v rest

/-- Declared parameters with the values that they have after an action. -/
def Action.assign (parameters : List (ParameterId × ParameterDescription)) :
    Action → List (ParameterId × ParameterDescription)
  | .setParameter id v => assignFirst (·.1 = id) v parameters
  | .setParameterByName name v => assignFirst (·.2.name = name) v parameters
  | .tick _ | .evaluate => parameters

namespace Runner

/-- Does what the action says, unless it is refused, and tells whether the graph was
evaluated. -/
def perform (r : Runner) : Action → Bool × Runner
  | .setParameter id v => (false, (r.setParameter id v).toOption.getD r)
  | .setParameterByName name v => (false, (r.setParameterByName name v).toOption.getD r)
  | .tick delta => r.tick delta
  | .evaluate => r.evaluate

/-- The runner after actions, one after another. -/
def after (r : Runner) (history : List Action) : Runner :=
  history.foldl (fun r action => (r.perform action).2) r

/-- The runner starts with a program, or has just loaded it. -/
def Begins (r : Runner) (p : Program) : Prop :=
  (∃ config entropy, r = start p config entropy) ∨ ∃ earlier : Runner, r = earlier.load p

end Runner

/-- The first item is changed if it is meant, or else the first one after it. -/
theorem getD_updateFirst?_cons {α : Type} (meant : α → Bool) (f : α → α) (a : α) (rest : List α) :
    (updateFirst? meant f (a :: rest)).getD (a :: rest) =
      if meant a then f a :: rest else a :: (updateFirst? meant f rest).getD rest := by
  rw [updateFirst?]
  split
  · rfl
  · cases updateFirst? meant f rest <;> rfl

/-- Changing the first item that is meant keeps what the change keeps. -/
theorem map_updateFirst? {α β : Type} (meant : α → Bool) (f : α → α) {kept : α → β}
    (hkept : ∀ a, kept (f a) = kept a) (items : List α) :
    ((updateFirst? meant f items).getD items).map kept = items.map kept := by
  induction items with
  | nil => rfl
  | cons a rest ih =>
      rw [getD_updateFirst?_cons]
      split
      · exact congrArg (· :: rest.map kept) (hkept a)
      · exact congrArg (kept a :: ·) ih

/-- Giving a value to a parameter that has a slot gives it to the declared one. -/
theorem getD_updateFirst?_allocate {found : Parameter → Bool}
    {meant : ParameterId × ParameterDescription → Bool}
    (hfound : ∀ id p slot, found ⟨id, p.name, p.value, slot⟩ = meant (id, p)) (v : Value)
    (first : Nat) (parameters : List (ParameterId × ParameterDescription)) :
    (updateFirst? found (fun p => { p with value := v })
        (Parameter.allocate first parameters)).getD (Parameter.allocate first parameters) =
      Parameter.allocate first (assignFirst meant v parameters) := by
  induction parameters generalizing first with
  | nil => rfl
  | cons entry rest ih =>
      obtain ⟨id, p⟩ := entry
      rw [Parameter.allocate_cons, getD_updateFirst?_cons, hfound, ih, assignFirst]
      by_cases hentry : meant (id, p) = true
      · rw [if_pos hentry, if_pos hentry, Parameter.allocate_cons]
      · rw [if_neg hentry, if_neg hentry, Parameter.allocate_cons]

/-- Giving a value to a parameter keeps the identities. -/
theorem map_fst_assignFirst (meant : ParameterId × ParameterDescription → Bool) (v : Value)
    (parameters : List (ParameterId × ParameterDescription)) :
    (assignFirst meant v parameters).map (·.1) = parameters.map (·.1) := by
  induction parameters with
  | nil => rfl
  | cons entry rest ih =>
      rw [assignFirst]
      split
      · rfl
      · exact congrArg (entry.1 :: ·) ih

/-- An action keeps the identities of the parameters. -/
theorem Action.map_fst_assign (action : Action)
    (parameters : List (ParameterId × ParameterDescription)) :
    (assign parameters action).map (·.1) = parameters.map (·.1) := by
  cases action with
  | setParameter id v => exact map_fst_assignFirst _ v parameters
  | setParameterByName name v => exact map_fst_assignFirst _ v parameters
  | tick delta => rfl
  | evaluate => rfl

namespace Memory

variable {m : Memory}

/-- The memory with each parameter put into its slot. -/
def putAll (m : Memory) (parameters : List Parameter) : Memory :=
  parameters.foldl (fun m p => m.write p.slot p.value) m

/-- Putting parameters into their slots makes no slots. -/
@[simp] theorem size_putAll {parameters : List Parameter} :
    (m.putAll parameters).slots.size = m.slots.size := by
  induction parameters generalizing m with
  | nil => rfl
  | cons p rest ih => exact ih.trans size_write

/-- A slot that no parameter has holds what it held. -/
theorem read_putAll_of_not_mem {parameters : List Parameter} {slot : Slot}
    (h : slot ∉ parameters.map (·.slot)) : (m.putAll parameters).read slot = m.read slot := by
  induction parameters generalizing m with
  | nil => rfl
  | cons p rest ih =>
      obtain ⟨hfirst, hrest⟩ := not_or.1 (List.mem_cons.not.1 h)
      exact (ih hrest).trans (read_write_other (Ne.symm hfirst))

/-- The slot of a parameter holds its value. -/
theorem read_putAll {parameters : List Parameter} {p : Parameter}
    (hnodup : (parameters.map (·.slot)).Nodup) (hp : p ∈ parameters)
    (hsize : p.slot.index < m.slots.size) : (m.putAll parameters).read p.slot = p.value := by
  induction parameters generalizing m with
  | nil => cases hp
  | cons q rest ih =>
      obtain ⟨hfirst, hrest⟩ := List.nodup_cons.1 hnodup
      rcases List.mem_cons.1 hp with rfl | hp
      · exact (read_putAll_of_not_mem hfirst).trans (read_write_same hsize)
      · exact ih hrest hp (by rwa [size_write])

end Memory

/-! ## What a runner holds -/

namespace Runner

/-- The runner holds a program of which the parameters have the given values. Its instructions are
bound as in the program, the parameters have the first slots, and there are as many slots as the
program asks for. -/
structure Holds (r : Runner) (p : Program)
    (parameters : List (ParameterId × ParameterDescription)) : Prop where
  instructions : List.Forall₂ Instruction.Alike r.instructions p.instructions
  parameters_eq : r.parameters = Parameter.allocate 0 parameters
  output_eq : r.output = p.output
  table_eq : r.table = p.table
  size_eq : r.memory.slots.size = p.slotCount

variable {r : Runner} {p : Program} {parameters : List (ParameterId × ParameterDescription)}

/-- Setting a parameter changes its value, or nothing. -/
theorem perform_setParameter (id : ParameterId) (v : Value) :
    (r.perform (.setParameter id v)).2 = { r with
      parameters := (updateFirst? (·.id = id) (fun p => { p with value := v })
        r.parameters).getD r.parameters } := by
  show (r.setParameter id v).toOption.getD r = _
  unfold setParameter
  cases updateFirst? (fun p => p.id = id) (fun p => { p with value := v }) r.parameters <;> rfl

/-- Setting a parameter by its name changes its value, or nothing. -/
theorem perform_setParameterByName (name : String) (v : Value) :
    (r.perform (.setParameterByName name v)).2 = { r with
      parameters := (updateFirst? (·.name = name) (fun p => { p with value := v })
        r.parameters).getD r.parameters } := by
  show (r.setParameterByName name v).toOption.getD r = _
  unfold setParameterByName
  cases updateFirst? (fun p => p.name = name) (fun p => { p with value := v }) r.parameters <;> rfl

/-- A tick evaluates the graph, or lets time pass and nothing else. -/
theorem perform_tick (delta : Float32) : r.perform (.tick delta) =
    if (r.config.advance r.accumulated delta).1 then
      { r with accumulated := (r.config.advance r.accumulated delta).2 }.evaluate
    else (false, { r with accumulated := (r.config.advance r.accumulated delta).2 }) := rfl

/-- An evaluation runs the instructions on the slots as they are, with the parameters in theirs. -/
theorem evaluate_of_ne_nil (hne : r.instructions ≠ []) : r.evaluate = (true, { r with
    instructions := (executeAll r.table r.instructions (r.memory.putAll r.parameters)).1
    memory := (executeAll r.table r.instructions (r.memory.putAll r.parameters)).2
    outputs := r.published (executeAll r.table r.instructions (r.memory.putAll r.parameters)).1
    evaluations := r.evaluations + 1 }) := by
  unfold evaluate
  rw [if_neg (by simpa using hne)]
  rfl

/-- A runner that begins with a program holds it. -/
theorem Begins.holds (h : r.Begins p)
    (hparameters : p.parameters = Parameter.allocate 0 parameters) : r.Holds p parameters := by
  have hsame : List.Forall₂ Instruction.Alike p.instructions p.instructions :=
    List.forall₂_same.2 fun i _ => .refl i
  rcases h with ⟨config, entropy, rfl⟩ | ⟨earlier, rfl⟩
  · exact ⟨hsame, hparameters, rfl, rfl, Array.size_replicate⟩
  · exact ⟨hsame, hparameters, rfl, rfl, Array.size_replicate⟩

namespace Holds

variable (h : r.Holds p parameters)
include h

/-- An evaluation runs the instructions of the program on the slots as they are, with the
parameters in theirs. -/
theorem evaluate_eq (hlength : ∀ i ∈ p.instructions, i.inputSlots.length = i.inputCache.length)
    (hne : p.instructions ≠ []) : r.evaluate = (true, { r with
      instructions := (executeAll p.table p.instructions (r.memory.putAll r.parameters)).1
      memory := (executeAll p.table p.instructions (r.memory.putAll r.parameters)).2
      outputs := r.published
        (executeAll p.table p.instructions (r.memory.putAll r.parameters)).1
      evaluations := r.evaluations + 1 }) := by
  have hrne : r.instructions ≠ [] := by
    intro hempty
    have hnil := h.instructions
    rw [hempty, List.forall₂_nil_left_iff] at hnil
    exact hne hnil
  -- the instructions of the runner differ from those of the program in their caches only
  rw [evaluate_of_ne_nil hrne, ← (executeAll_of_alike h.instructions hlength _).1, ← h.table_eq]

/-- A runner that evaluates goes on to hold its program. -/
theorem evaluate (hlength : ∀ i ∈ p.instructions, i.inputSlots.length = i.inputCache.length)
    (hne : p.instructions ≠ []) : r.evaluate.2.Holds p parameters := by
  rw [h.evaluate_eq hlength hne]
  refine ⟨(executeAll_of_alike h.instructions hlength _).2, h.parameters_eq, h.output_eq,
    h.table_eq, ?_⟩
  show (executeAll _ _ _).2.slots.size = _
  rw [size_executeAll, Memory.size_putAll, h.size_eq]

/-- Time that passes changes nothing that the runner holds. -/
theorem wait (accumulated : Float32) : { r with accumulated }.Holds p parameters :=
  ⟨h.instructions, h.parameters_eq, h.output_eq, h.table_eq, h.size_eq⟩

/-- Giving a value to a parameter gives it to the declared one. -/
theorem set {found : Parameter → Bool} {meant : ParameterId × ParameterDescription → Bool}
    (hfound : ∀ id p slot, found ⟨id, p.name, p.value, slot⟩ = meant (id, p)) (v : Value) :
    { r with
      parameters := (updateFirst? found (fun p => { p with value := v }) r.parameters).getD
        r.parameters }.Holds p (assignFirst meant v parameters) := by
  refine ⟨h.instructions, ?_, h.output_eq, h.table_eq, h.size_eq⟩
  show Option.getD (updateFirst? found _ r.parameters) r.parameters = _
  rw [h.parameters_eq, getD_updateFirst?_allocate hfound]

/-- Whatever a runner performs, it goes on to hold its program. -/
theorem perform (hlength : ∀ i ∈ p.instructions, i.inputSlots.length = i.inputCache.length)
    (hne : p.instructions ≠ []) (action : Action) :
    (r.perform action).2.Holds p (action.assign parameters) := by
  cases action with
  | setParameter id v =>
      rw [perform_setParameter]
      exact h.set (fun _ _ _ => rfl) v
  | setParameterByName name v =>
      rw [perform_setParameterByName]
      exact h.set (fun _ _ _ => rfl) v
  | tick delta =>
      rw [perform_tick]
      split
      · exact (h.wait _).evaluate hlength hne
      · exact h.wait _
  | evaluate => exact h.evaluate hlength hne

end Holds

end Runner

end Dataflow
