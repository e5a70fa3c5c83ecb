/-!
# Arenas with versioned keys

An arena keeps items under keys that it makes itself. A key names a place and a version of
it. Removing an item frees its place, the place freed last is used again first, and each use
of a place has a version of its own, so the key of a removed item never finds a later one.
Items are listed by ascending place.
-/

namespace Dataflow

/-- A place in an arena, counted from one, in one of its uses. The versions of these are one, three,
five and so on. -/
structure Key where
  index : Nat
  version : Nat
deriving DecidableEq, Hashable, Repr

namespace Key

/-- The place that no arena has. -/
def nullIndex : Nat := 4294967295

/-- The key of nothing. -/
def null : Key := ⟨nullIndex, 1⟩

/-- How a key is shown. -/
def text (k : Key) : String :=
  if k.index = nullIndex then "NodeKey(null)" else s!"NodeKey({k.index}v{k.version})"

/-- A key is shown as its text. -/
instance : ToString Key := ⟨text⟩

end Key

/-- Items under keys made by the arena. Each place in use has a version and its content; place zero
is never used. Of the keys whose places are free again the one freed last is in front. -/
structure Arena (α : Type) where
  places : Array (Option (Nat × α))
  free : List Key

namespace Arena

variable {α : Type}

/-- The arena without items. -/
def empty : Arena α := ⟨#[none], []⟩

/-- The key that the next item gets. -/
def nextKey (a : Arena α) : Key :=
  match a.free with
  | old :: _ => ⟨old.index, old.version + 2⟩
  | [] => ⟨a.places.size, 1⟩

/-- The arena with one more item, which is kept under `nextKey`. -/
def add (a : Arena α) (x : α) : Arena α :=
  match a.free with
  | old :: rest => ⟨a.places.setIfInBounds old.index (some (old.version + 2, x)), rest⟩
  | [] => ⟨a.places.push (some (1, x)), []⟩

/-- The item under a key. -/
def get? (a : Arena α) (k : Key) : Option α :=
  match a.places.getD k.index none with
  | some (version, x) => if version = k.version then some x else none
  | none => none

/-- Whether there is an item under a key. -/
def contains (a : Arena α) (k : Key) : Bool := (a.get? k).isSome

/-- The arena with `f` applied to the item under a key. -/
def update (a : Arena α) (k : Key) (f : α → α) : Arena α :=
  match a.get? k with
  | some x => { a with places := a.places.setIfInBounds k.index (some (k.version, f x)) }
  | none => a

/-- The arena without the item under a key, whose place is free again. -/
def remove (a : Arena α) (k : Key) : Arena α :=
  if a.contains k then ⟨a.places.setIfInBounds k.index none, k :: a.free⟩ else a

/-- The items with their keys, by ascending place. -/
def toList (a : Arena α) : List (Key × α) :=
  a.places.toList.zipIdx.filterMap fun (place, index) =>
    place.map fun (version, x) => (⟨index, version⟩, x)

/-- How many items there are. -/
def size (a : Arena α) : Nat := a.toList.length

end Arena

end Dataflow
