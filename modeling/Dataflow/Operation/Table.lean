import Dataflow.Operation.Basic
import Dataflow.Operation.Growing

/-!
# Tables of operations

A table holds registrations in the order in which they came, and an index from the three
numbers of an identifier to the place of its registration. `Table.build` refuses a second
registration of an identifier. A program keeps the place, so that a node finds its operation
without a search.
-/

namespace Dataflow

/-- An operation under its identifier, with the name that is shown to people. -/
structure Registration where
  op : OpId
  name : String
  operation : Operation

/-- A registration without its operation, which cannot be shown. -/
def Registration.text (r : Registration) : String :=
  let op := r.op
  "Registration \x7b op: OpId \x7b group: " ++ toString op.group ++ ", kind: " ++
    toString op.kind ++ ", method: " ++ toString op.method ++ " \x7d, name: " ++
    Text.quote r.name ++ ", operation: \"<fn>\" \x7d"

/-- Why a list of registrations is no table: an identifier occurs a second time. -/
inductive TableError where
  | duplicateOperation (op : OpId)
deriving DecidableEq, Repr

/-- The wording of an error. -/
def TableError.message : TableError → String
  | .duplicateOperation op => s!"operation {op} is registered more than once"

/-- Registrations in the order in which they came (`entries`), with an index from the group, kind
and method of an identifier to the place of its registration. -/
structure Table where
  index : Array (Array (Array (Option Nat)))
  entries : Array Registration

namespace Table

/-- The table without registrations. -/
def empty : Table := ⟨#[], #[]⟩

/-- The place of an identifier's registration. -/
def resolve (t : Table) (op : OpId) : Option Nat :=
  ((t.index.getD op.group.toNat #[]).getD op.kind.toNat #[]).getD op.method.toNat none

/-- The registration at a place. -/
def get? (t : Table) (i : Nat) : Option Registration :=
  t.entries[i]?

/-- The registration of an identifier. -/
def lookup (t : Table) (op : OpId) : Option Registration :=
  t.resolve op |>.bind t.get?

/-- How many registrations there are. -/
def size (t : Table) : Nat := t.entries.size

/-- Whether there is no registration. -/
def isEmpty (t : Table) : Bool := t.entries.isEmpty

/-- Puts a registration at the end, its identifier being new. -/
def push (t : Table) (r : Registration) : Table where
  index :=
    Growing.alter #[] r.op.group.toNat
      (Growing.alter #[] r.op.kind.toNat
        (Growing.alter none r.op.method.toNat fun _ => some t.entries.size)) t.index
  entries := t.entries.push r

/-- Puts a registration at the end, unless its identifier is there already. -/
def add (t : Table) (r : Registration) : Except TableError Table :=
  if (t.resolve r.op).isSome then .error (.duplicateOperation r.op) else .ok (t.push r)

/-- The table of a list of registrations, or the first identifier that comes a second time. -/
def build (registrations : List Registration) : Except TableError Table :=
  registrations.foldlM add empty

/-- The table in short: how many registrations, and how many groups the index spans. -/
def summary (t : Table) : String :=
  "OperationTable \x7b operations: " ++ toString t.size ++ ", groups: " ++
    toString t.index.size ++ " \x7d"

end Table

end Dataflow
