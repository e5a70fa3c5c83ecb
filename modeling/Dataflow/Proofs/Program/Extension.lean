import Dataflow.Proofs.Operation.Table
import Dataflow.Proofs.Program.Liveness
import Dataflow.Proofs.Program.Matching

/-!
# Programs over longer tables

A graph is bound to the places of its operations in a table. More registrations at the end move none
of these places, so what compiles over a table compiles over a longer one to the same program
(`compile_of_extends`). `build_indexes` says all that a table answers in terms of the list from
which it was built.
-/

namespace Dataflow

/-- Identifiers that lead to a place in one table lead to the same place in the other. -/
def Table.Extends (t' t : Table) : Prop :=
  ∀ op i, t.resolve op = some i → t'.resolve op = some i

/-- A table of more registrations extends the table of those that come first. -/
theorem Table.Lists.extends {t t' : Table} {registrations more : List Registration}
    (h : t.Lists registrations) (h' : t'.Lists (registrations ++ more)) : t'.Extends t := by
  intro op i hi
  rw [h.resolve_iff] at hi
  rw [h'.resolve_iff, List.map_append]
  rwa [List.getElem?_append_left (List.getElem?_eq_some_iff.1 hi).1]

variable {g : Graph} {table table' : Table} {p : Program}

/-- A node is placed over a longer table as over the shorter one. -/
theorem Wiring.place_of_extends (hextends : table'.Extends table) {w : Wiring} {k : Key}
    {a a' : Allocator OutputSocket} {i : Instruction} (h : w.place g table k a = .ok (i, a')) :
    w.place g table' k a = .ok (i, a') := by
  obtain ⟨n, opIndex, inputSlots, between, outputSlots, hn, hknown, hinputs, houtputs, rfl⟩ :=
    exists_of_place h
  exact place_of_bind hn (hextends n.op opIndex hknown) hinputs houtputs

/-- Over a longer table a graph has the same program. -/
theorem Graph.compile_of_extends (hextends : table'.Extends table)
    (h : g.compile table = .ok p) : g.compile table' = .ok { p with table := table' } := by
  obtain ⟨feeds, root, order, last, instructions, placed, hcompilation, hplaced, rfl⟩ :=
    exists_placed_of_ok h
  have hplaced' := Layout.mapM_map ((g.wiring feeds order).place g table') id id id
    (fun _ _ _ _ _ hplace => Wiring.place_of_extends hextends hplace) hplaced
  rw [List.map_id, List.map_id] at hplaced'
  exact compile_of_layOut_eq_ok hcompilation.feeds_eq hcompilation.root_eq hcompilation.order_eq
    (layOut_eq_ok hplaced')

/-- A table answers as the list from which it was built: the list has one unless an identifier comes
again, and the first that does is reported; an identifier leads to the place of its registration and
others lead nowhere; and places of 32 bits are enough for 2 ^ 32 registrations. More registrations
leave the programs of graphs as they are. -/
theorem Table.build_indexes (registrations : List Registration) :
    ((∃ op, build registrations = .error (.duplicateOperation op)) ↔
      ¬ (registrations.map (·.op)).Nodup) ∧
    (∀ op, build registrations = .error (.duplicateOperation op) ↔
      FirstRepeat (registrations.map (·.op)) op) ∧
    ((∃ t, build registrations = .ok t) ↔ (registrations.map (·.op)).Nodup) ∧
    ∀ t, build registrations = .ok t →
      (∀ op i, t.resolve op = some i ↔ ∃ r, registrations[i]? = some r ∧ r.op = op) ∧
      (∀ i, t.get? i = registrations[i]?) ∧
      (∀ op i, t.resolve op = some i → t.lookup op = registrations[i]?) ∧
      (∀ op, (∀ r ∈ registrations, r.op ≠ op) → t.resolve op = none ∧ t.lookup op = none) ∧
      (registrations.length ≤ 2 ^ 32 → ∀ op i, t.resolve op = some i → i < 2 ^ 32) ∧
      ∀ more : List Registration, ((registrations ++ more).map (·.op)).Nodup →
        ∃ t', build (registrations ++ more) = .ok t' ∧
          ∀ (g : Graph) (p : Program), g.compile t = .ok p →
            g.compile t' = .ok { p with table := t' } := by
  refine ⟨⟨?_, fun hagain => ?_⟩, fun op => build_eq_error_iff, ⟨?_, fun hnodup => ?_⟩,
    fun t hbuild => ?_⟩
  · rintro ⟨op, herror⟩
    exact (build_eq_error_iff.1 herror).not_nodup
  · obtain ⟨op, hop⟩ := exists_firstRepeat hagain
    exact ⟨op, build_of_firstRepeat hop⟩
  · rintro ⟨t, hbuild⟩
    exact (lists_of_build hbuild).1
  · obtain ⟨t, hbuild, -⟩ := lists_of_nodup hnodup
    exact ⟨t, hbuild⟩
  obtain ⟨-, hlists⟩ := lists_of_build hbuild
  have hresolve : ∀ op i, t.resolve op = some i ↔ ∃ r, registrations[i]? = some r ∧ r.op = op := by
    intro op i
    rw [hlists.resolve_iff, List.getElem?_map, Option.map_eq_some_iff]
  refine ⟨hresolve, hlists.get?_eq, fun op i => hlists.lookup_eq, fun op hother => ?_,
    fun hlength op i hi => ?_, fun more hnodup => ?_⟩
  · have hnone : t.resolve op = none := by
      rw [hlists.resolve_eq_none_iff, List.mem_map]
      rintro ⟨r, hr, heq⟩
      exact hother r hr heq
    exact ⟨hnone, by rw [lookup, hnone, Option.bind_none]⟩
  · obtain ⟨r, hr, -⟩ := (hresolve op i).1 hi
    exact Nat.lt_of_lt_of_le (List.getElem?_eq_some_iff.1 hr).1 hlength
  · obtain ⟨t', hbuild', hlists'⟩ := lists_of_nodup hnodup
    exact ⟨t', hbuild', fun g p hp => Graph.compile_of_extends (hlists.extends hlists') hp⟩

/-- Two registrations beside the bundled ones: of a method next to one of theirs, and far from all
of them. -/
def furtherRegistrations : List Registration :=
  [⟨⟨4, 65535, 2⟩, "Nothing", .silent⟩, ⟨⟨3, 1, 1⟩, "First", .passThrough⟩]

/-- Over the bundled operations and two more a graph has the program that it has without these.
Adding the two twice fails. -/
theorem furtherRegistrations_indexed :
    (∃ t', Table.build (Catalog.registrations ++ furtherRegistrations) = .ok t' ∧
      Graph.overgrown.compile t' = .ok { Graph.overgrownProgram with table := t' } ∧
      t'.resolve ⟨3, 1, 0⟩ = some 2 ∧ t'.resolve ⟨3, 1, 1⟩ = some 19 ∧
      t'.resolve ⟨4, 65535, 1⟩ = none) ∧
    Table.build (furtherRegistrations ++ furtherRegistrations) =
      .error (.duplicateOperation ⟨4, 65535, 2⟩) := by
  have hbuild : Table.build Catalog.registrations = .ok Catalog.table :=
    Table.foldlM_add (fun _ _ => Table.lists_empty.resolve_eq_none_iff.2 List.not_mem_nil)
      (by decide)
  obtain ⟨-, -, -, hindexes⟩ := Table.build_indexes Catalog.registrations
  obtain ⟨-, -, -, -, -, hmore⟩ := hindexes _ hbuild
  obtain ⟨t', hbuild', hcompile⟩ := hmore furtherRegistrations (by decide)
  obtain ⟨-, -, -, hindexes'⟩ :=
    Table.build_indexes (Catalog.registrations ++ furtherRegistrations)
  obtain ⟨hresolve, -, -, hother, -⟩ := hindexes' t' hbuild'
  obtain ⟨-, hrepeat, -⟩ := Table.build_indexes (furtherRegistrations ++ furtherRegistrations)
  refine ⟨⟨t', hbuild', hcompile _ _ Graph.compile_overgrown, (hresolve _ _).2 ⟨_, rfl, rfl⟩,
    (hresolve _ _).2 ⟨_, rfl, rfl⟩, (hother _ (by decide)).1⟩, (hrepeat _).2 ?_⟩
  exact ⟨furtherRegistrations.map (·.op), [⟨3, 1, 1⟩], rfl, by decide, by decide⟩

end Dataflow
