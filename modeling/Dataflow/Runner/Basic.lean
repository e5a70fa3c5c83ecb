import Dataflow.Config.Basic
import Dataflow.Program.Execution
import Dataflow.Program.Notice

/-!
# Runs of a program

A runner holds a program and evaluates it. The host calls `Runner.tick` with the time that has
passed; once enough has accumulated the graph is evaluated. An evaluation puts the parameters
into their slots, runs every instruction in order, and publishes the inputs of the output as
numbers. Another program can be loaded in between, and what was published stays until the next
evaluation.

Evaluations are counted without a bound. A count of 64 bits is the same one as long as there were
fewer than `2 ^ 64` of them.
-/

namespace Dataflow

/-- Why a parameter cannot be set: none has the identity, or none has the name. -/
inductive RunnerError where
  | unknownParameter (id : ParameterId)
  | unknownParameterName (name : String)
deriving DecidableEq, Repr

/-- The wording of an error. -/
def RunnerError.message : RunnerError → String
  | .unknownParameter id => s!"no parameter with id {id}"
  | .unknownParameterName name => s!"no parameter named '{name}'"

/-- A program in a run: its instructions in the order in which they run, its parameters with their
current values, the place of the instruction whose inputs are published, and the operations, with
the slots and the random source in `memory`. Beside it stand the configuration, the time that has
accumulated since the last evaluation was due, what was published last, and how many evaluations
there were. -/
structure Runner where
  instructions : List Instruction
  parameters : List Parameter
  output : Option Nat
  table : Table
  memory : Memory
  config : Config
  accumulated : Float32
  outputs : List Float32
  evaluations : Nat

/-- The list with `f` applied to the first item of which `p` holds. -/
def updateFirst? {α : Type} (p : α → Bool) (f : α → α) : List α → Option (List α)
  | [] => none
  | a :: rest => if p a then some (f a :: rest) else (updateFirst? p f rest).map (a :: ·)

namespace Runner

/-- The start of a run. Without a seed random numbers start at `entropy`. -/
def start (p : Program) (config : Config) (entropy : Random.Source) : Runner where
  instructions := p.instructions
  parameters := p.parameters
  output := p.output
  table := p.table
  memory := .fresh p.slotCount (config.source entropy)
  config
  accumulated := 0
  outputs := []
  evaluations := 0

/-- The runner with another program. Time, random numbers and what was published go on. -/
def load (r : Runner) (p : Program) : Runner :=
  { r with
    instructions := p.instructions
    parameters := p.parameters
    output := p.output
    table := p.table
    memory := .fresh p.slotCount r.memory.source }

/-- What is published after the instructions have run. -/
def published (r : Runner) (instructions : List Instruction) : List Float32 :=
  match r.output.bind (instructions[·]?) with
  | some sink => sink.inputCache.map Value.toSingle
  | none => r.outputs

/-- Evaluates the graph, and tells whether there was one. -/
def evaluate (r : Runner) : Bool × Runner :=
  if r.instructions.isEmpty then (false, r)
  else
    let memory := r.parameters.foldl (fun m p => m.write p.slot p.value) r.memory
    let (instructions, memory) := executeAll r.table r.instructions memory
    (true,
      { r with
        instructions, memory
        outputs := r.published instructions
        evaluations := r.evaluations + 1 })

/-- Lets time pass, evaluates the graph if that is due, and tells whether it was evaluated. -/
def tick (r : Runner) (delta : Float32) : Bool × Runner :=
  let (due, accumulated) := r.config.advance r.accumulated delta
  let r := { r with accumulated }
  if due then r.evaluate else (false, r)

/-- What there is to tell of a tick. -/
def tickNotices (delta : Float32) : List Notice :=
  if delta.isFinite then [] else [.ignoredDelta delta]

/-- The first published number. -/
def firstOutput (r : Runner) : Float32 := r.outputs.headD 0

/-- Sets the parameter with an identity. It reaches the graph with the next evaluation. -/
def setParameter (r : Runner) (id : ParameterId) (v : Value) : Except RunnerError Runner :=
  match updateFirst? (fun p => p.id = id) (fun p => { p with value := v }) r.parameters with
  | some parameters => .ok { r with parameters }
  | none => .error (.unknownParameter id)

/-- Sets the first parameter with a name. -/
def setParameterByName (r : Runner) (name : String) (v : Value) : Except RunnerError Runner :=
  match updateFirst? (fun p => p.name = name) (fun p => { p with value := v }) r.parameters with
  | some parameters => .ok { r with parameters }
  | none => .error (.unknownParameterName name)

/-- The value of a parameter. -/
def parameter? (r : Runner) (id : ParameterId) : Option Value :=
  (r.parameters.find? (·.id = id)).map (·.value)

/-- The value in a slot. -/
def slot? (r : Runner) (s : Slot) : Option Value := r.memory.slots[s.index]?

end Runner

end Dataflow
