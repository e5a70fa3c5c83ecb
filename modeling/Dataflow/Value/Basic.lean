import Dataflow.Decimal.Positional
import Dataflow.Text.Quoted
import Dataflow.Value.Number

/-!
# Values

A `Value` is what a slot holds: nothing, a number, an integer, a truth value or a reference
to an object. Numbers compare as numbers, so what is no number differs from itself, and
references compare by identity. A reference is copied with its identity; the object behind
it is never looked at by the catalog's operations.

Objects are of any kind. Only texts and bytes are read back, so these keep their content, and an
object of another kind is known by the identity of its references alone.
-/

namespace Dataflow

/-- What is known of an object: it is a piece of text, a single byte, or an object of any other
kind, whose content is never read. -/
inductive Object where
  | text (s : String)
  | byte (b : UInt8)
  | other
deriving DecidableEq, Repr

/-- An image is of another kind. -/
@[match_pattern]
def Object.texture : Object := .other

/-- How an object is shown; one of another kind shows itself as `shown`. -/
def Object.display (shown : String) : Object → String
  | .text s => Text.quote s
  | .byte b => toString b
  | .other => shown

/-- A handle to a shared object. Different objects have different identities. -/
structure Reference where
  identity : Nat
  object : Object
deriving DecidableEq, Repr

/-- What a slot holds: nothing, a number of 32 bits, an integer of 64 bits, a truth value, or a
reference to an object. -/
inductive Value where
  | empty
  | float (x : Number)
  | int (n : Int64)
  | bool (b : Bool)
  | reference (r : Reference)
deriving Inhabited

namespace Value

/-- Whether two values are equal; references are if they point to the same object. -/
protected def beq : Value → Value → Bool
  | .empty, .empty => true
  | .float a, .float b => a.toSingle == b.toSingle
  | .int a, .int b => a == b
  | .bool a, .bool b => a == b
  | .reference a, .reference b => a.identity == b.identity
  | _, _ => false

/-- Values are compared by `Value.beq`. -/
instance : BEq Value := ⟨Value.beq⟩

/-- The name of the kind of value. -/
def kind : Value → String
  | .empty => "empty"
  | .float _ => "float"
  | .int _ => "int"
  | .bool _ => "bool"
  | .reference _ => "reference"

/-- Whether there is no value. -/
def isEmpty : Value → Bool
  | .empty => true
  | _ => false

/-- Whether the value counts as a number. -/
def isNumeric : Value → Bool
  | .float _ | .int _ | .bool _ => true
  | .empty | .reference _ => false

/-- How a value is shown, given how the objects of other kinds show themselves. -/
def displayWith (shown : Nat → String) : Value → String
  | .empty => "<empty>"
  | .float x => Binary.Single.text .plain x.toSingle
  | .int n => toString n.toInt
  | .bool b => toString b
  | .reference r => r.object.display (shown r.identity)

/-- How a value is shown if all objects of other kinds are images. -/
def display (v : Value) : String := v.displayWith fun _ => "Texture"

/-- The text that the value refers to, if it does. -/
def asText? : Value → Option String
  | .reference ⟨_, .text s⟩ => some s
  | _ => none

/-- The byte that the value refers to, if it does. -/
def asByte? : Value → Option UInt8
  | .reference ⟨_, .byte b⟩ => some b
  | _ => none

end Value

end Dataflow
