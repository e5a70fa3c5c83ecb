/-!
# Items of a TOML document

A document is a table of named items. Tables come about in several ways, and these decide
what may be added to a table later: `Origin` records them. `insertAt` adds a key with a
dotted path, `openTable` and `openElement` are the headers `[path]` and `[[path]]`; each of
them fails where the format forbids to define something twice.
-/

namespace Dataflow.Toml

/-- How a table came about: complete between braces (`inline`), by a header of its own (`header`),
on the way to a table with a header (`passage`), or on the way to a key with a dotted path
(`dotted`). -/
inductive Origin where
  | inline
  | header
  | passage
  | dotted
deriving DecidableEq, Repr

/-- What a key stands for. A `float` is a number with a point or an exponent, a `moment` is a date,
a time or both, a `table` has named items, and `tables` are tables with one header for each. -/
inductive Item where
  | text (s : String)
  | integer (n : Int)
  | float (x : Float)
  | boolean (b : Bool)
  | moment (s : String)
  | array (items : List Item)
  | table (origin : Origin) (entries : List (String × Item))
  | tables (elements : List (List (String × Item)))

/-- Named items in the order in which their names first came. -/
abbrev Entries := List (String × Item)

namespace Entries

/-- The entries with an item in place of the one of the same name. -/
def replace (entries : Entries) (name : String) (item : Item) : Entries :=
  entries.map fun entry => if entry.1 = name then (name, item) else entry

/-- The entries with `f` applied to the table at a path, given how that table came about, which
for the table at hand is `here`. Tables that the path lacks come about with `origin`. A path with
dots goes through no table that has a header of its own, the latest of several under one header
excepted. -/
def alterFrom (origin : Origin) (f : Origin → Entries → Option Entries) (here : Origin) :
    List String → Entries → Option Entries
  | [], entries => f here entries
  | name :: path, entries =>
    match entries.lookup name with
    | none => do
        let inner ← alterFrom origin f origin path []
        return entries ++ [(name, .table origin inner)]
    | some (.table old inner) =>
        if old = .inline || (origin = .dotted && old = .header) then none
        else do
          let inner ← alterFrom origin f old path inner
          return entries.replace name (.table old inner)
    | some (.tables elements) =>
        match elements.reverse with
        | latest :: earlier => do
            let latest ← alterFrom origin f .header path latest
            return entries.replace name (.tables (latest :: earlier).reverse)
        | [] => none
    | some _ => none

/-- The entries with `f` applied to the table that headers lead to by a path. -/
def alterAt (f : Entries → Option Entries) (path : List String) (entries : Entries) :
    Option Entries :=
  alterFrom .passage (fun _ => f) .passage path entries

/-- The entries with an item under a new name. -/
def insert (name : String) (item : Item) (entries : Entries) : Option Entries :=
  if (entries.lookup name).isSome then none else some (entries ++ [(name, item)])

/-- The entries with an item at a dotted path that ends in a new name. The table of that name is
the one at hand, or one that dotted paths alone have made. -/
def insertAt (path : List String) (item : Item) (entries : Entries) : Option Entries :=
  match path.reverse with
  | [] => none
  | name :: above =>
      alterFrom .dotted (fun here inner => if here = .dotted then insert name item inner else none)
        .dotted above.reverse entries

/-- Opens the table with header `[name]`. One that other headers passed through is completed;
any other that exists is not opened again. -/
def openHere (name : String) (entries : Entries) : Option Entries :=
  match entries.lookup name with
  | none => some (entries ++ [(name, .table .header [])])
  | some (.table .passage inner) => some (entries.replace name (.table .header inner))
  | some _ => none

/-- Opens the table with header `[path]`. -/
def openTable (path : List String) (entries : Entries) : Option Entries :=
  match path.reverse with
  | [] => none
  | name :: above => alterAt (openHere name) above.reverse entries

/-- Opens one more table with header `[[name]]`. -/
def openElementHere (name : String) (entries : Entries) : Option Entries :=
  match entries.lookup name with
  | none => some (entries ++ [(name, .tables [[]])])
  | some (.tables elements) => some (entries.replace name (.tables (elements ++ [[]])))
  | some _ => none

/-- Opens one more table with header `[[path]]`. -/
def openElement (path : List String) (entries : Entries) : Option Entries :=
  match path.reverse with
  | [] => none
  | name :: above => alterAt (openElementHere name) above.reverse entries

end Entries

end Dataflow.Toml
