import Std.Data.HashMap.Lemmas

/-!
# Depth-first walks

A walk lists what a root depends on, every key after its own dependencies and the root last.
It is not recursive: a `Walk` keeps the path from the root to the current key as a stack of
frames, each with the dependencies it has yet to visit, and `Walk.next` does one step. A
dependency that is on the path closes a cycle, which is reported from that key on.
-/

namespace Dataflow.Dependency

variable {κ : Type}

/-- A cycle of dependencies: keys of which each depends on the next, and the last on the first. -/
structure Cycle (κ : Type) where
  path : List κ
deriving DecidableEq, Repr

/-- The wording of the error, with each key shown by `text`. -/
def Cycle.message (text : κ → String) (c : Cycle κ) : String :=
  "Cycle detected: " ++ " -> ".intercalate (c.path.map text)

/-- A key on the path from the root, with its dependencies that have not been visited, in order. -/
structure Frame (κ : Type) where
  key : κ
  pending : List κ

/-- How far the walk is with a key that it has met: the key is on the path (`active`), or it is
listed together with all it depends on (`finished`). -/
inductive Mark where
  | active
  | finished
deriving DecidableEq, Repr

/-- The state of a depth-first walk: the path, innermost key first, the marks of the keys met so
far, and the finished keys, latest first. -/
structure Walk (κ : Type) [BEq κ] [Hashable κ] where
  frames : List (Frame κ)
  marks : Std.HashMap κ Mark
  listed : List κ

/-- The cycle that the dependency `key` closes: from its place on the path inward. -/
def closeCycle [BEq κ] (frames : List (Frame κ)) (key : κ) : Cycle κ :=
  ⟨key :: ((frames.map (·.key)).takeWhile (· != key)).reverse⟩

/-- What the walk does next: it is in a new state, or it has ended with the order or with a
cycle. -/
inductive Progress (κ : Type) [BEq κ] [Hashable κ] where
  | running (walk : Walk κ)
  | ended (result : Except (Cycle κ) (List κ))

namespace Walk

variable [BEq κ] [Hashable κ]

/-- The walk that has met the root alone. -/
def start (dependencies : κ → List κ) (root : κ) : Walk κ :=
  ⟨[⟨root, dependencies root⟩], (∅ : Std.HashMap κ Mark).insert root .active, []⟩

/-- One step of the walk. -/
def next (dependencies : κ → List κ) (w : Walk κ) : Progress κ :=
  match w.frames with
  | [] => .ended (.ok w.listed.reverse)
  | ⟨key, []⟩ :: outer =>
      .running ⟨outer, w.marks.insert key .finished, key :: w.listed⟩
  | ⟨key, dependency :: pending⟩ :: outer =>
      match w.marks[dependency]? with
      | some .active => .ended (.error (closeCycle w.frames dependency))
      | some .finished => .running { w with frames := ⟨key, pending⟩ :: outer }
      | none =>
          .running { w with
            frames := ⟨dependency, dependencies dependency⟩ :: ⟨key, pending⟩ :: outer
            marks := w.marks.insert dependency .active }

end Walk

end Dataflow.Dependency
