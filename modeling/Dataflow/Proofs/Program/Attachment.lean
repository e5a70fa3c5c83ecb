import Dataflow.Proofs.Graph.Edits
import Dataflow.Proofs.Program.Acceptance
import Dataflow.Proofs.Program.Rejection

/-!
# Edits and what wires are attached to

Nodes are named by keys and nothing is checked when a wire is made, so a graph may have wires to
nodes that were removed, and new nodes may be in their places. Still no wire ever gets attached to a
node that it was not made for, and a graph that is only wired between nodes that it has is never
refused for a missing node (`Graph.edits_attach`).
-/

namespace Dataflow.Graph

variable {g : Graph} {table : Table} {k : Key} {w : Wire}

/-- A graph with a wire to or from a node that it does not have has no program. -/
theorem compile_ne_ok_of_touches (hw : w ∈ g.wires) (htouches : w.Touches k)
    (hnone : g.node? k = none) (p : Program) : g.compile table ≠ .ok p := by
  intro hok
  obtain ⟨feeds, root, order, last, hp⟩ := compilation_of_ok hok
  have hwire := hp.wellFormed.wire w hw
  rcases htouches with rfl | rfl
  · obtain ⟨producer, hproducer, -⟩ := hwire.source_lt
    rw [hnone] at hproducer
    cases hproducer
  · obtain ⟨consumer, hconsumer, -⟩ := hwire.target_lt
    rw [hnone] at hconsumer
    cases hconsumer

/-- A graph whose wires are all between its nodes is not refused for a missing one. -/
theorem compile_ne_missingNode (hjoins : ∀ w ∈ g.wires, g.Joins w) (k : Key) :
    g.compile table ≠ .error (.missingNode k) := by
  intro herror
  obtain ⟨hnone, w, hw, htouches⟩ := (firstFault_of_compile herror).exists_wire
  obtain ⟨hsource, htarget⟩ := hjoins w hw
  rcases htouches with rfl | rfl
  · simp [hnone] at hsource
  · simp [hnone] at htarget

/-- Whatever the edits, no key is returned twice, and its version fits in 32 bits as long as no
place has been in more than 2³¹ uses. A node is there from its addition until its removal. Once it
is removed its key finds nothing any more, a node in the same place has a later version, the wires
that were there before it are left only as far as they had no end at it, and a wire that names it
nevertheless makes the graph one without a program. If every wire was made between nodes that were
there at the time, then all wires are between nodes, and no node is reported as missing. -/
theorem edits_attach (history : List Edit) :
    (empty.keys history).Nodup ∧
    (∀ k ∈ empty.keys history, Key.uses (empty.keys history) k.index ≤ 2 ^ 31 →
      k.version < 2 ^ 32) ∧
    (∀ k, ((empty.after history).node? k).isSome ↔ ∃ earlier n later,
      history = earlier ++ .addNode n :: later ∧ ((empty.after earlier).addNode n).1 = k ∧
      .removeNode k ∉ later) ∧
    (∀ earlier k later, history = earlier ++ .removeNode k :: later →
      ((empty.after earlier).node? k).isSome →
      (empty.after history).node? k = none ∧
      (∀ k' n, (empty.after history).node? k' = some n → k'.index = k.index →
        k.version < k'.version) ∧
      (∃ kept added, (empty.after history).wires.toList = kept ++ added ∧
        kept.Sublist (empty.after earlier).wires.toList ∧ (∀ w ∈ kept, ¬ w.Touches k) ∧
        added.Sublist (later.filterMap Edit.wire?)) ∧
      ∀ w ∈ (empty.after history).wires, w.Touches k →
        ∀ table p, (empty.after history).compile table ≠ .ok p) ∧
    ((∀ earlier w later, history = earlier ++ .connect w :: later →
        (empty.after earlier).Joins w) →
      (∀ w ∈ (empty.after history).wires, (empty.after history).Joins w) ∧
      ∀ table k, (empty.after history).compile table ≠ .error (.missingNode k)) := by
  have haccounts := accounts_after history
  refine ⟨haccounts.countUp.nodup, fun k hk huses => ?_, fun k => isSome_node?_after, ?_,
    fun hconnect => ⟨joins_after hconnect, fun _ => compile_ne_missingNode (joins_after hconnect)⟩⟩
  · obtain ⟨m, hm, hversion⟩ := haccounts.countUp.mem_iff.1 hk
    omega
  · rintro earlier k later rfl hfound
    obtain ⟨n, hn⟩ := Option.isSome_iff_exists.1 hfound
    have hmade : k ∈ empty.keys earlier := (accounts_after earlier).mem_of_get? hn
    have hremoved : (empty.after (earlier ++ [.removeNode k])).node? k = none := by
      rw [after_concat]
      exact (node?_removeNode _ k k).trans (if_pos rfl)
    have hnone : (empty.after (earlier ++ .removeNode k :: later)).node? k = none := by
      rw [List.append_cons]
      refine node?_after_eq_none ?_ hremoved
      rw [keys_append]
      exact List.mem_append_left _ hmade
    refine ⟨hnone, ?_, ?_, fun w hw htouches _ => compile_ne_ok_of_touches hw htouches hnone⟩
    · intro k' n' hn' hindex
      refine haccounts.version_lt ?_ hn' ?_ hindex.symm
      · rw [keys_append]
        exact List.mem_append_left _ hmade
      · rintro rfl
        rw [hnone] at hn'
        cases hn'
    · rw [after_append]
      exact exists_wires_after_removeNode hn later

/-- A history in which a node takes the place of a removed one, and its input is wired like that of
the removed one. -/
def replacement : List Edit :=
  [.addNode .random, .addNode .output, .connect ⟨⟨⟨1, 1⟩, 0⟩, ⟨⟨2, 1⟩, 0⟩⟩, .removeNode ⟨2, 1⟩,
    .addNode .output, .connect ⟨⟨⟨1, 1⟩, 0⟩, ⟨⟨2, 3⟩, 0⟩⟩]

/-- The replaced node is not found, its wire is gone, no node is missing, and there are no more
programs once the old wire is made again. -/
theorem replacement_attaches :
    (empty.after replacement).node? ⟨2, 1⟩ = none ∧
    (∀ w ∈ (empty.after replacement).wires, (empty.after replacement).Joins w) ∧
    (∀ table k, (empty.after replacement).compile table ≠ .error (.missingNode k)) ∧
    ∀ table p, (empty.after (replacement ++ [.connect ⟨⟨⟨1, 1⟩, 0⟩, ⟨⟨2, 1⟩, 0⟩⟩])).compile table ≠
      .ok p := by
  obtain ⟨-, -, -, hremoval, hconnect⟩ := edits_attach replacement
  obtain ⟨-, -, -, hremoval', -⟩ :=
    edits_attach (replacement ++ [.connect ⟨⟨⟨1, 1⟩, 0⟩, ⟨⟨2, 1⟩, 0⟩⟩])
  have hjoins : ∀ earlier w later, replacement = earlier ++ .connect w :: later →
      (empty.after earlier).Joins w := by
    intro earlier w later heq
    have htake : earlier = replacement.take earlier.length := by simp [heq]
    have hget : replacement[earlier.length]? = some (.connect w) := by simp [heq]
    rw [htake]
    match earlier.length, hget with
    | 2, rfl => exact ⟨rfl, rfl⟩
    | 5, rfl => exact ⟨rfl, rfl⟩
  obtain ⟨hbetween, hpresent⟩ := hconnect hjoins
  obtain ⟨hnone, -, -, -⟩ := hremoval (replacement.take 3) ⟨2, 1⟩ (replacement.drop 4) rfl rfl
  obtain ⟨-, -, -, hrefused⟩ := hremoval' (replacement.take 3) ⟨2, 1⟩ _ rfl rfl
  have hold : ⟨⟨⟨1, 1⟩, 0⟩, ⟨⟨2, 1⟩, 0⟩⟩ ∈
      (empty.after (replacement ++ [.connect ⟨⟨⟨1, 1⟩, 0⟩, ⟨⟨2, 1⟩, 0⟩⟩])).wires := by
    rw [after_concat]
    exact Array.mem_push_self
  exact ⟨hnone, hbetween, hpresent, hrefused _ hold (.inr rfl)⟩

end Dataflow.Graph
