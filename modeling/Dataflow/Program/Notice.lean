import Dataflow.Program.Basic

/-!
# Notices

A notice tells whoever runs the library what was done, or that something is likely not
meant. What is noticed about a program follows from the program.
-/

namespace Dataflow

/-- How much a notice matters: something is likely not meant (`warning`), or something was done
(`debug`). -/
inductive Severity where
  | warning
  | debug
deriving DecidableEq, Repr

/-- Something worth telling: no input of the output is wired, no kept node reads a parameter, a
graph was compiled, a program is about to be loaded, or time did not advance by a number. -/
inductive Notice where
  | unwiredOutput
  | unreadParameter (name : String)
  | compiled (stats : Stats) (parameters : Nat)
  | loading (nodes slots : Nat)
  | ignoredDelta (delta : Float32)

namespace Notice

/-- How much the notice matters. -/
def severity : Notice → Severity
  | .unwiredOutput | .unreadParameter _ | .ignoredDelta _ => .warning
  | .compiled .. | .loading .. => .debug

/-- The wording of a notice. -/
def message : Notice → String
  | .unwiredOutput =>
      "Output node has no wired inputs; the graph publishes its defaults only"
  | .unreadParameter name => s!"Parameter '{name}' is not read by any live node"
  | .compiled stats parameters =>
      s!"Compiled {stats.liveNodes} nodes ({stats.eliminatedNodes} unreachable) into " ++
        s!"{stats.slotCount} slots, {parameters} parameters"
  | .loading nodes slots => s!"Loading graph with {nodes} nodes and {slots} slots"
  | .ignoredDelta delta =>
      s!"Ignoring non-finite tick delta {Binary.Single.text .plain delta}"

end Notice

/-- Whether the instruction has an input that stands for the parameter. -/
def Instruction.reads (i : Instruction) (id : ParameterId) : Bool :=
  i.role == .parameterRead id && !i.inputSlots.isEmpty

namespace Program

/-- Whether an instruction has an input that stands for the parameter. -/
def reads (p : Program) (id : ParameterId) : Bool :=
  p.instructions.any (·.reads id)

/-- What there is to tell of a program that was compiled. -/
def compileNotices (p : Program) : List Notice :=
  (match p.outputInstruction? with
    | some sink => if sink.inputSlots.all (·.isNone) then [.unwiredOutput] else []
    | none => []) ++
  (p.parameters.filter fun q => !p.reads q.id).map (fun q => .unreadParameter q.name) ++
  [.compiled p.stats p.parameters.length]

/-- What there is to tell when a program is loaded. -/
def loadNotice (p : Program) : Notice :=
  .loading p.instructions.length p.slotCount

end Program

end Dataflow
