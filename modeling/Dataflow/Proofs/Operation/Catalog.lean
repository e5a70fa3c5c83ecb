import Dataflow.Operation.Catalog
import Dataflow.Proofs.Program.Execution

/-!
# What the bundled operations do

A table finds under an identifier the registration that carries it (`Table.Sound`), so the
bundled operations can be told apart by their identifiers (`Catalog.kind_run`): the graph's output
gives out nothing, the random number draws, the read of a parameter passes it on, and every other
operation computes a number. What is given out goes through the first output.
-/

namespace Dataflow

namespace Table

/-- Identifiers lead to registrations that carry them. -/
def Sound (t : Table) : Prop :=
  ∀ op i, t.resolve op = some i → ∃ r, t.get? i = some r ∧ r.op = op

/-- The table without registrations leads nowhere. -/
theorem sound_empty : empty.Sound := by
  intro op i h
  simp [resolve, empty, Array.getD] at h

/-- A new registration is found under its identifier, and the others as before. -/
theorem resolve_push (t : Table) (r : Registration) (op : OpId) :
    (t.push r).resolve op = if op = r.op then some t.size else t.resolve op := by
  have heq : op = r.op ↔ op.group = r.op.group ∧ op.kind = r.op.kind ∧ op.method = r.op.method := by
    cases op
    cases r.op
    simp
  simp only [resolve, push, Growing.getD_alter, UInt16.toNat_inj]
  by_cases hgroup : op.group = r.op.group
  · by_cases hkind : op.kind = r.op.kind
    · simp only [if_pos hgroup, if_pos hkind, Growing.getD_alter, UInt16.toNat_inj]
      simp [heq, hgroup, hkind, size]
    · simp only [if_pos hgroup, Growing.getD_alter, UInt16.toNat_inj, if_neg hkind]
      rw [if_neg fun h => hkind (heq.1 h).2.1, hgroup]
  · rw [if_neg hgroup, if_neg fun h => hgroup (heq.1 h).1]

/-- Adding a registration keeps a table sound. -/
theorem Sound.push {t : Table} (h : t.Sound) (r : Registration) : (t.push r).Sound := by
  intro op i hresolve
  rw [resolve_push] at hresolve
  split at hresolve
  · rename_i hop
    cases hresolve
    exact ⟨r, Array.getElem?_push_size, hop.symm⟩
  · obtain ⟨r', hget, hop⟩ := h op i hresolve
    refine ⟨r', ?_, hop⟩
    have hlt : i < t.entries.size := (Array.getElem?_eq_some_iff.1 hget).1
    show (t.entries.push r)[i]? = _
    rw [Array.getElem?_push_lt hlt]
    exact (Array.getElem?_eq_some_iff.1 hget).2 ▸ rfl

/-- Adding registrations keeps a table sound. -/
theorem Sound.foldl_push {t : Table} (h : t.Sound) (registrations : List Registration) :
    (registrations.foldl Table.push t).Sound := by
  induction registrations generalizing t with
  | nil => exact h
  | cons r rest ih => exact ih (h.push r)

/-- The table was built from a list of registrations. -/
def Built (t : Table) : Prop := ∃ registrations, build registrations = .ok t

/-- Adding registrations with new identifiers keeps a table sound. -/
theorem Sound.foldlM_add {t t' : Table} (h : t.Sound) {registrations : List Registration}
    (hadd : registrations.foldlM add t = .ok t') : t'.Sound := by
  induction registrations generalizing t with
  | nil =>
      cases hadd
      exact h
  | cons r rest ih =>
      rw [List.foldlM_cons, add] at hadd
      split at hadd
      · cases hadd
      · exact ih (h.push r) hadd

/-- A table that was built is sound. -/
theorem Built.sound {t : Table} (h : t.Built) : t.Sound := by
  obtain ⟨registrations, hbuild⟩ := h
  exact sound_empty.foldlM_add hbuild

/-- Registrations with different identifiers, all of them new, are added one after another. -/
theorem foldlM_add {t : Table} {registrations : List Registration}
    (hnew : ∀ r ∈ registrations, t.resolve r.op = none)
    (hnodup : (registrations.map (·.op)).Nodup) :
    registrations.foldlM add t = .ok (registrations.foldl push t) := by
  induction registrations generalizing t with
  | nil => rfl
  | cons r rest ih =>
      obtain ⟨hfirst, hrest⟩ := List.nodup_cons.1 hnodup
      have hadd : t.add r = .ok (t.push r) := by
        rw [add, hnew r List.mem_cons_self]
        rfl
      rw [List.foldlM_cons, hadd]
      refine ih (fun other hother => ?_) hrest
      have hne : other.op ≠ r.op := fun heq =>
        hfirst (List.mem_map.2 ⟨other, hother, heq⟩)
      rw [resolve_push, if_neg hne]
      exact hnew other (List.mem_cons_of_mem _ hother)

/-- Registrations are kept in the order in which they come. -/
theorem entries_foldl_push (t : Table) (registrations : List Registration) :
    (registrations.foldl push t).entries = t.entries ++ registrations.toArray := by
  induction registrations generalizing t with
  | nil => simp
  | cons r rest ih =>
      rw [List.foldl_cons, ih]
      simp [push]

end Table

namespace Operation

/-- The operation computes one number and gives it out through its first output. -/
def IsNumeric (o : Operation) : Prop :=
  ∃ f : Invocation → Number, o = fun call => pure [(0, .float (f call))]

/-- A function of the first input is computed. -/
theorem isNumeric_unary (f : Number → Number) : (unary f).IsNumeric := ⟨_, rfl⟩

/-- A function of the first two inputs is computed. -/
theorem isNumeric_binary (f : Number → Number → Number) : (binary f).IsNumeric := ⟨_, rfl⟩

end Operation

namespace Catalog

/-- The table of the bundled operations is sound. -/
theorem sound : table.Sound := Table.sound_empty.foldl_push registrations

/-- The table of the bundled operations was built from them. -/
theorem built : table.Built := by
  have hnew : ∀ r ∈ registrations, Table.empty.resolve r.op = none := fun r _ => by
    simp [Table.resolve, Table.empty, Array.getD]
  exact ⟨registrations, Table.foldlM_add hnew (by decide)⟩

/-- The table holds the bundled operations and no others. -/
theorem mem_registrations {i : Nat} {r : Registration} (h : table.get? i = some r) :
    r ∈ registrations := by
  have hentries : table.entries = #[] ++ registrations.toArray :=
    Table.entries_foldl_push .empty registrations
  rw [Table.get?, hentries, Array.empty_append] at h
  exact List.mem_of_getElem? (by simpa using h)

/-- What the operation of a registration does, by its identifier: the graph's output gives out
nothing, the random number draws, the read of a parameter gives out its first input, and every other
operation computes a number. -/
inductive Kind (op : OpId) (o : Operation) : Prop where
  | silent (op_eq : op = .output) (operation_eq : o = .silent)
  | random (op_eq : op = randomFloat) (operation_eq : o = .random)
  | passThrough (op_eq : op = .parameterRead) (operation_eq : o = .passThrough)
  | numeric (op_ne : op ≠ .output ∧ op ≠ randomFloat ∧ op ≠ .parameterRead)
      (isNumeric : o.IsNumeric)

/-- Every bundled operation is of one of the kinds. -/
theorem kind_of_mem {r : Registration} (h : r ∈ registrations) : Kind r.op r.operation := by
  simp only [registrations, List.mem_cons, List.not_mem_nil, or_false] at h
  rcases h with rfl | rfl | rfl | rfl | rfl | rfl | rfl | rfl | rfl | rfl | rfl | rfl | rfl | rfl |
    rfl | rfl | rfl | rfl
  · exact .silent rfl rfl
  · exact .random rfl rfl
  -- the arithmetic lies between these two and the read of a parameter
  all_goals first
    | exact .numeric (by decide) (Operation.isNumeric_unary _)
    | exact .numeric (by decide) (Operation.isNumeric_binary _)
    | exact .passThrough rfl rfl

/-- The operation that an identifier finds in the table is of one of the kinds. -/
theorem kind_run {op : OpId} (h : (table.resolve op).isSome) : Kind op (table.run op) := by
  obtain ⟨i, hi⟩ := Option.isSome_iff_exists.1 h
  obtain ⟨r, hr, rfl⟩ := sound op i hi
  have hrun : table.run r.op = r.operation := by
    rw [Table.run, Table.lookup, hi, Option.bind_some, hr]
  rw [hrun]
  exact kind_of_mem (mem_registrations hr)

/-- What a bundled operation gives out goes through its first output, and the graph's output gives
out nothing. -/
theorem index_eq_zero {r : Registration} (h : r ∈ registrations) {call : Invocation}
    {source : Random.Source} {write : Nat × Value} (hwrite : write ∈ (r.operation call source).1) :
    write.1 = 0 ∧ r.op ≠ .output := by
  cases kind_of_mem h with
  | silent _ hrun =>
      rw [hrun] at hwrite
      cases hwrite
  | random hop hrun =>
      rw [hrun] at hwrite
      exact ⟨congrArg Prod.fst (List.mem_singleton.1 hwrite), hop ▸ by decide⟩
  | passThrough hop hrun =>
      rw [hrun] at hwrite
      exact ⟨congrArg Prod.fst (List.mem_singleton.1 hwrite), hop ▸ by decide⟩
  | numeric hop hrun =>
      obtain ⟨f, hrun⟩ := hrun
      rw [hrun] at hwrite
      exact ⟨congrArg Prod.fst (List.mem_singleton.1 hwrite), hop.1⟩

end Catalog

end Dataflow
