import Mathlib.Data.List.Induction
import Mathlib.Data.List.Nodup
import Dataflow.Proofs.Operation.Catalog

/-!
# Tables and the lists that they are built from

A table lists registrations (`Table.Lists`) when its index leads from each identifier to the place
of its registration in the list, and from every other identifier nowhere. Adding a registration
keeps this, so the table of a list answers as a search through the list would (`lists_of_build`).
A list has a table unless an identifier comes again in it, and the one reported is the first that
does (`FirstRepeat`, `build_eq_error_iff`).
-/

namespace Dataflow

/-- The identifier is the first of the list that has come before. -/
def FirstRepeat (ops : List OpId) (op : OpId) : Prop :=
  ∃ earlier later, ops = earlier ++ op :: later ∧ earlier.Nodup ∧ op ∈ earlier

/-- Where an identifier comes again, one is the first to do so. -/
theorem exists_firstRepeat {ops : List OpId} (h : ¬ ops.Nodup) : ∃ op, FirstRepeat ops op := by
  induction ops using List.reverseRecOn with
  | nil => exact absurd List.nodup_nil h
  | append_singleton earlier op ih =>
      by_cases hearlier : earlier.Nodup
      · have hagain : op ∈ earlier := by
          by_contra hnew
          exact h (List.nodup_append_comm.2 (List.nodup_cons.2 ⟨hnew, hearlier⟩))
        exact ⟨op, earlier, [], rfl, hearlier, hagain⟩
      · obtain ⟨first, before, after, rfl, hbefore, hagain⟩ := ih hearlier
        exact ⟨first, before, after ++ [op], by simp, hbefore, hagain⟩

/-- Identifiers among which one comes again are not all different. -/
theorem FirstRepeat.not_nodup {ops : List OpId} {op : OpId} (h : FirstRepeat ops op) :
    ¬ ops.Nodup := by
  obtain ⟨earlier, later, rfl, -, hagain⟩ := h
  intro hnodup
  exact (List.nodup_append.1 hnodup).2.2 op hagain op List.mem_cons_self rfl

namespace Table

variable {t : Table} {registrations : List Registration} {r : Registration} {op : OpId} {i : Nat}

/-- The table holds the registrations in their order, and an identifier leads to the place of the
registration that carries it. -/
structure Lists (t : Table) (registrations : List Registration) : Prop where
  entries_eq : t.entries = registrations.toArray
  resolve_iff : ∀ op i, t.resolve op = some i ↔ (registrations.map (·.op))[i]? = some op

/-- The table without registrations lists none. -/
theorem lists_empty : empty.Lists [] where
  entries_eq := rfl
  resolve_iff op i := by simp [resolve, empty, Array.getD]

namespace Lists

/-- The place of a registration holds it. -/
theorem get?_eq (h : t.Lists registrations) (i : Nat) : t.get? i = registrations[i]? := by
  rw [get?, h.entries_eq, List.getElem?_toArray]

/-- An identifier leads nowhere exactly when no registration carries it. -/
theorem resolve_eq_none_iff (h : t.Lists registrations) :
    t.resolve op = none ↔ op ∉ registrations.map (·.op) := by
  rw [Option.eq_none_iff_forall_ne_some, List.mem_iff_getElem?, not_exists]
  exact forall_congr' fun i => not_congr (h.resolve_iff op i)

/-- A look-up gives the registration that the identifier leads to. -/
theorem lookup_eq (h : t.Lists registrations) (hi : t.resolve op = some i) :
    t.lookup op = registrations[i]? := by
  rw [lookup, hi, Option.bind_some, h.get?_eq]

/-- A registration with a new identifier comes after the others and moves none of them. -/
theorem push (h : t.Lists registrations) (hnew : r.op ∉ registrations.map (·.op)) :
    (t.push r).Lists (registrations ++ [r]) where
  entries_eq := by simp [Table.push, h.entries_eq]
  resolve_iff op i := by
    have hsize : t.size = (registrations.map (·.op)).length := by simp [size, h.entries_eq]
    rw [resolve_push, hsize, List.map_append, List.map_singleton, List.getElem?_append,
      List.getElem?_singleton]
    by_cases hop : op = r.op
    · -- no earlier registration carries the new identifier, so its place is the last
      subst hop
      have hearlier : (registrations.map (·.op))[i]? ≠ some r.op := fun hearlier =>
        hnew (List.mem_of_getElem? hearlier)
      grind
    · rw [if_neg hop, h.resolve_iff]
      grind

/-- Registrations with different identifiers, all of them new, come after the others. -/
theorem foldl_push {more : List Registration} (h : t.Lists registrations)
    (hnodup : ((registrations ++ more).map (·.op)).Nodup) :
    (more.foldl Table.push t).Lists (registrations ++ more) := by
  induction more generalizing t registrations with
  | nil => rwa [List.append_nil]
  | cons r rest ih =>
      rw [List.append_cons] at hnodup ⊢
      have hnew : r.op ∉ registrations.map (·.op) := by
        rw [List.map_append, List.map_append] at hnodup
        exact (List.nodup_cons.1 (List.nodup_append_comm.1 hnodup.of_append_left)).1
      exact ih (h.push hnew) hnodup

end Lists

/-- Registrations with different identifiers have a table that lists them. -/
theorem lists_of_nodup (hnodup : (registrations.map (·.op)).Nodup) :
    ∃ t, build registrations = .ok t ∧ t.Lists registrations :=
  ⟨_, foldlM_add (fun _ _ => lists_empty.resolve_eq_none_iff.2 List.not_mem_nil) hnodup,
    lists_empty.foldl_push hnodup⟩

/-- The first identifier that comes again is reported. -/
theorem build_of_firstRepeat (h : FirstRepeat (registrations.map (·.op)) op) :
    build registrations = .error (.duplicateOperation op) := by
  obtain ⟨earlier, later, hsplit, hnodup, hagain⟩ := h
  obtain ⟨before, rest, rfl, rfl, hrest⟩ := List.map_eq_append_iff.1 hsplit
  obtain ⟨r, after, rfl, rfl, -⟩ := List.map_eq_cons_iff.1 hrest
  obtain ⟨t, hbuild, hlists⟩ := lists_of_nodup hnodup
  have hadd : t.add r = .error (.duplicateOperation r.op) := by
    have hfound : (t.resolve r.op).isSome := by
      rw [← Option.ne_none_iff_isSome, ne_eq, hlists.resolve_eq_none_iff]
      exact fun hnew => hnew hagain
    rw [add, if_pos hfound]
  rw [build] at hbuild ⊢
  rw [List.foldlM_append, hbuild]
  show (r :: after).foldlM add t = _
  rw [List.foldlM_cons, hadd]
  rfl

/-- A list has no table exactly when an identifier comes again in it, and the first that does is
reported. -/
theorem build_eq_error_iff : build registrations = .error (.duplicateOperation op) ↔
    FirstRepeat (registrations.map (·.op)) op := by
  refine ⟨fun herror => ?_, build_of_firstRepeat⟩
  have hagain : ¬ (registrations.map (·.op)).Nodup := by
    intro hnodup
    obtain ⟨t, hbuild, -⟩ := lists_of_nodup hnodup
    rw [hbuild] at herror
    cases herror
  obtain ⟨first, hfirst⟩ := exists_firstRepeat hagain
  rw [build_of_firstRepeat hfirst] at herror
  cases herror
  exact hfirst

/-- The table that was built from a list lists it, and the identifiers in it are different. -/
theorem lists_of_build (h : build registrations = .ok t) :
    (registrations.map (·.op)).Nodup ∧ t.Lists registrations := by
  have hnodup : (registrations.map (·.op)).Nodup := by
    by_contra hagain
    obtain ⟨first, hfirst⟩ := exists_firstRepeat hagain
    rw [build_of_firstRepeat hfirst] at h
    cases h
  obtain ⟨t', hbuild, hlists⟩ := lists_of_nodup hnodup
  rw [h] at hbuild
  cases hbuild
  exact ⟨hnodup, hlists⟩

end Table

end Dataflow
