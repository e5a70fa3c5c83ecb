import Dataflow.Proofs.Graph.Keys

/-!
# Histories of edits

An editor makes a graph out of the empty one by edits, in any order and with any keys, old ones
among them. Whatever it does, a node is there from its addition until its removal
(`Graph.isSome_node?_after`), and what is left of the wires from before an edit comes before those
that were added since (`Graph.exists_wires_after`).
-/

namespace Dataflow

/-- What an editor does to a graph: it adds a node, changes or removes the node under a key, adds a
wire, removes all wires equal to a given one, adds or replaces a parameter, or removes one. -/
inductive Edit where
  | addNode (n : Node)
  | updateNode (k : Key) (f : Node → Node)
  | removeNode (k : Key)
  | connect (w : Wire)
  | disconnect (w : Wire)
  | insertParameter (id : ParameterId) (p : ParameterDescription)
  | removeParameter (id : ParameterId)

/-- The wire that an edit adds. -/
def Edit.wire? : Edit → Option Wire
  | .connect w => some w
  | _ => none

/-- An end of the wire is at the node with a key. -/
def Wire.Touches (w : Wire) (k : Key) : Prop := w.source.node = k ∨ w.target.node = k

namespace Graph

/-- Makes an edit. -/
def apply (g : Graph) : Edit → Graph
  | .addNode n => (g.addNode n).2
  | .updateNode k f => g.updateNode k f
  | .removeNode k => g.removeNode k
  | .connect w => g.connect w
  | .disconnect w => g.disconnect w
  | .insertParameter id p => g.insertParameter id p
  | .removeParameter id => g.removeParameter id

/-- The graph after edits, one after another. -/
def after (g : Graph) (history : List Edit) : Graph := history.foldl apply g

/-- The key that an edit returns, if it adds a node. -/
def key? (g : Graph) : Edit → Option Key
  | .addNode n => some (g.addNode n).1
  | _ => none

/-- The keys that edits return, one after another. -/
def keys (g : Graph) : List Edit → List Key
  | [] => []
  | e :: rest => (g.key? e).toList ++ (g.apply e).keys rest

/-- Both ends of the wire are at nodes of the graph. -/
def Joins (g : Graph) (w : Wire) : Prop :=
  (g.node? w.source.node).isSome ∧ (g.node? w.target.node).isSome

variable {g : Graph} {made : List Key} {k : Key} {w : Wire} {e : Edit} {history later : List Edit}

/-- Edits are made one part of a history after the other. -/
theorem after_append (g : Graph) (history later : List Edit) :
    g.after (history ++ later) = (g.after history).after later := List.foldl_append

/-- The last edit is made to the graph after the others. -/
theorem after_concat (g : Graph) (history : List Edit) (e : Edit) :
    g.after (history ++ [e]) = (g.after history).apply e := after_append g history [e]

/-- The keys that the later edits return come after those of the earlier ones. -/
theorem keys_append (g : Graph) (history later : List Edit) :
    g.keys (history ++ later) = g.keys history ++ (g.after history).keys later := by
  induction history generalizing g with
  | nil => rfl
  | cons e rest ih =>
      show _ ++ (g.apply e).keys (rest ++ later) = _
      rw [ih, ← List.append_assoc]
      rfl

/-- The key that the last edit returns comes last. -/
theorem keys_concat (g : Graph) (history : List Edit) (e : Edit) :
    g.keys (history ++ [e]) = g.keys history ++ ((g.after history).key? e).toList := by
  rw [keys_append]
  simp [keys]

/-! ## Nodes -/

/-- An edit makes at most the key that it returns. -/
theorem accounts_apply (h : g.arena.Accounts made) (e : Edit) :
    (g.apply e).arena.Accounts (made ++ (g.key? e).toList) := by
  cases e with
  | addNode n => exact h.add n
  | updateNode k f => simpa [key?, apply, updateNode] using h.update k f
  | removeNode k =>
      have harena : (g.removeNode k).arena = g.arena.remove k := by
        unfold removeNode Arena.remove
        split <;> rfl
      simpa [key?, apply, harena] using h.remove k
  | connect w => simpa [key?, apply, connect] using h
  | disconnect w => simpa [key?, apply, disconnect] using h
  | insertParameter id p => simpa [key?, apply, insertParameter] using h
  | removeParameter id => simpa [key?, apply, removeParameter] using h

/-- The keys that were returned are all that the nodes' arena made. -/
theorem accounts_after (history : List Edit) :
    (empty.after history).arena.Accounts (empty.keys history) := by
  induction history using List.reverseRecOn with
  | nil => exact Arena.accounts_empty
  | append_singleton history e ih =>
      rw [after_concat, keys_concat]
      exact accounts_apply ih e

/-- A node is there after an edit if the edit added it, or if it was there and was not removed. -/
theorem isSome_node?_apply (h : g.arena.Accounts made) : ((g.apply e).node? k).isSome ↔
    g.key? e = some k ∨ (g.node? k).isSome ∧ e ≠ .removeNode k := by
  cases e with
  | addNode n =>
      have hfound : (g.apply (.addNode n)).node? k =
          if k = g.arena.nextKey then some n else g.node? k := h.get?_add n k
      rw [hfound]
      by_cases hk : k = g.arena.nextKey
      · simp [hk, key?, addNode]
      · simp [hk, key?, addNode, eq_comm (b := k)]
  | updateNode k' f =>
      have hfound : (g.apply (.updateNode k' f)).node? k =
          if k = k' then (g.node? k').map f else g.node? k := g.arena.get?_update k' f k
      rw [hfound]
      split
      · rename_i heq
        simp [heq, key?]
      · simp [key?]
  | removeNode k' =>
      show ((g.removeNode k').node? k).isSome ↔ _
      rw [node?_removeNode]
      by_cases heq : k = k'
      · simp [heq, key?]
      · simp [heq, key?, eq_comm (b := k)]
  | connect w => simp [key?, apply, connect, node?]
  | disconnect w => simp [key?, apply, disconnect, node?]
  | insertParameter id p => simp [key?, apply, insertParameter, node?]
  | removeParameter id => simp [key?, apply, removeParameter, node?]

/-- A node is there from the addition that returned its key until it is removed. -/
theorem isSome_node?_after : ((empty.after history).node? k).isSome ↔ ∃ earlier n later,
    history = earlier ++ .addNode n :: later ∧ ((empty.after earlier).addNode n).1 = k ∧
    .removeNode k ∉ later := by
  induction history using List.reverseRecOn with
  | nil =>
      have hempty : (empty.after []).node? k = none := by
        cases k with
        | mk index version => cases index <;> rfl
      simp [hempty]
  | append_singleton history e ih =>
      rw [after_concat, isSome_node?_apply (accounts_after history), ih]
      constructor
      · rintro (hkey | ⟨⟨earlier, n, later, rfl, hk, hlater⟩, he⟩)
        · cases e with
          | addNode n => exact ⟨history, n, [], rfl, Option.some.inj hkey, List.not_mem_nil⟩
          | _ => cases hkey
        · refine ⟨earlier, n, later ++ [e], by simp, hk, ?_⟩
          simpa [hlater] using Ne.symm he
      · intro hadded
        obtain ⟨earlier, n, later, heq, hk, hlater⟩ := hadded
        rcases List.eq_nil_or_concat later with rfl | ⟨later, last, rfl⟩
        · obtain ⟨rfl, hlast⟩ := List.append_inj' heq rfl
          cases hlast
          exact .inl (congrArg some hk)
        · rw [List.concat_eq_append, ← List.cons_append, ← List.append_assoc] at heq
          obtain ⟨rfl, hlast⟩ := List.append_inj' heq rfl
          cases hlast
          rw [List.concat_eq_append, List.mem_append, List.mem_singleton, not_or] at hlater
          exact .inr ⟨⟨earlier, n, later, rfl, hk, hlater.1⟩, Ne.symm hlater.2⟩

/-- The key of a node that was there and is not any more never finds one again. -/
theorem node?_after_eq_none (hk : k ∈ empty.keys history)
    (hnone : (empty.after history).node? k = none) :
    (empty.after (history ++ later)).node? k = none := by
  induction later using List.reverseRecOn with
  | nil => rwa [List.append_nil]
  | append_singleton later e ih =>
      have haccounts := accounts_after (history ++ later)
      rw [← List.append_assoc, after_concat, ← Option.not_isSome_iff_eq_none,
        isSome_node?_apply haccounts, ih]
      rintro (hkey | ⟨hsome, -⟩)
      · cases e with
        | addNode n =>
            -- the key would be made a second time
            have hnext : (empty.after (history ++ later)).arena.nextKey = k := Option.some.inj hkey
            refine haccounts.nextKey_not_mem ?_
            rw [hnext, keys_append]
            exact List.mem_append_left _ hk
        | _ => cases hkey
      · cases hsome

/-! ## Wires -/

/-- An edit takes some of the wires away, among them those of a node that it removes, or adds one
at the end. -/
theorem exists_wires_apply (g : Graph) (e : Edit) : ∃ keep : Wire → Bool,
    (g.apply e).wires.toList = g.wires.toList.filter keep ++ e.wire?.toList ∧
    ∀ k, e = .removeNode k → (g.node? k).isSome → ∀ w, keep w → ¬ w.Touches k := by
  cases e with
  | removeNode k =>
      cases hn : g.node? k with
      | none =>
          have hsame : g.removeNode k = g := by
            simp [removeNode, Arena.contains, show g.arena.get? k = none from hn]
          exact ⟨fun _ => true, by simp [apply, hsame, Edit.wire?], by simp [hn]⟩
      | some n =>
          refine ⟨fun w => w.source.node ≠ k ∧ w.target.node ≠ k, ?_, ?_⟩
          · simp [apply, wires_removeNode hn, Edit.wire?]
          · intro k' hk _ w hkeep
            cases hk
            simpa [Wire.Touches] using hkeep
  | disconnect w => exact ⟨(· ≠ w), by simp [apply, disconnect, Edit.wire?], by simp⟩
  | connect w => exact ⟨fun _ => true, by simp [apply, connect, Edit.wire?], by simp⟩
  | addNode n => exact ⟨fun _ => true, by simp [apply, addNode, Edit.wire?], by simp⟩
  | updateNode k f => exact ⟨fun _ => true, by simp [apply, updateNode, Edit.wire?], by simp⟩
  | insertParameter id p =>
      exact ⟨fun _ => true, by simp [apply, insertParameter, Edit.wire?], by simp⟩
  | removeParameter id =>
      exact ⟨fun _ => true, by simp [apply, removeParameter, Edit.wire?], by simp⟩

/-- The wires after a history are some of those before it, and then some of those that it added. -/
theorem exists_wires_after (g : Graph) (history : List Edit) : ∃ kept added,
    (g.after history).wires.toList = kept ++ added ∧ kept.Sublist g.wires.toList ∧
    added.Sublist (history.filterMap Edit.wire?) := by
  induction history using List.reverseRecOn with
  | nil => exact ⟨g.wires.toList, [], by simp [after], List.Sublist.refl _, List.Sublist.refl _⟩
  | append_singleton history e ih =>
      obtain ⟨kept, added, hwires, hkept, hadded⟩ := ih
      obtain ⟨keep, hstep, -⟩ := (g.after history).exists_wires_apply e
      refine ⟨kept.filter keep, added.filter keep ++ e.wire?.toList, ?_,
        List.filter_sublist.trans hkept, ?_⟩
      · rw [after_concat, hstep, hwires, List.filter_append, List.append_assoc]
      · have hlast : [e].filterMap Edit.wire? = e.wire?.toList := by
          cases e <;> rfl
        rw [List.filterMap_append, hlast]
        exact (List.filter_sublist.trans hadded).append_right _

/-- After the removal of a node the wires are some of those before it that have no end at the node,
and then some of those that were added since. -/
theorem exists_wires_after_removeNode {n : Node} (hn : g.node? k = some n) (later : List Edit) :
    ∃ kept added, (g.after (.removeNode k :: later)).wires.toList = kept ++ added ∧
      kept.Sublist g.wires.toList ∧ (∀ w ∈ kept, ¬ w.Touches k) ∧
      added.Sublist (later.filterMap Edit.wire?) := by
  obtain ⟨kept, added, hwires, hkept, hadded⟩ := (g.apply (.removeNode k)).exists_wires_after later
  obtain ⟨keep, hstep, huntouched⟩ := g.exists_wires_apply (.removeNode k)
  simp only [Edit.wire?, Option.toList_none, List.append_nil] at hstep
  rw [hstep] at hkept
  refine ⟨kept, added, hwires, hkept.trans List.filter_sublist, fun w hw => ?_, hadded⟩
  exact huntouched k rfl (Option.isSome_iff_exists.2 ⟨n, hn⟩) w
    (List.mem_filter.1 (hkept.subset hw)).2

/-- If an edit adds no wire but between nodes, then all wires stay between nodes. -/
theorem joins_apply (h : g.arena.Accounts made) (hjoins : ∀ w ∈ g.wires, g.Joins w)
    (hconnect : ∀ w, e = .connect w → g.Joins w) :
    ∀ w ∈ (g.apply e).wires, (g.apply e).Joins w := by
  intro w hw
  obtain ⟨keep, hstep, huntouched⟩ := g.exists_wires_apply e
  rw [← Array.mem_toList_iff, hstep, List.mem_append, List.mem_filter, Option.mem_toList] at hw
  -- neither end is at a node that the edit removes
  have hbefore : g.Joins w ∧ ∀ k, w.Touches k → e ≠ .removeNode k := by
    rcases hw with ⟨hw, hkeep⟩ | hadded
    · refine ⟨hjoins w (Array.mem_toList_iff.1 hw), ?_⟩
      rintro k htouches rfl
      obtain ⟨hsource, htarget⟩ := hjoins w (Array.mem_toList_iff.1 hw)
      have hk : (g.node? k).isSome := by
        rcases htouches with rfl | rfl
        · exact hsource
        · exact htarget
      exact huntouched k rfl hk w hkeep htouches
    · cases e with
      | connect w' =>
          cases Option.some.inj hadded
          exact ⟨hconnect _ rfl, nofun⟩
      | _ => cases hadded
  obtain ⟨⟨hsource, htarget⟩, hstays⟩ := hbefore
  exact ⟨(isSome_node?_apply h).2 (.inr ⟨hsource, hstays _ (.inl rfl)⟩),
    (isSome_node?_apply h).2 (.inr ⟨htarget, hstays _ (.inr rfl)⟩)⟩

/-- If no wire was ever added but between nodes, then all wires are between nodes. -/
theorem joins_after (hconnect : ∀ earlier w later, history = earlier ++ .connect w :: later →
    (empty.after earlier).Joins w) :
    ∀ w ∈ (empty.after history).wires, (empty.after history).Joins w := by
  induction history using List.reverseRecOn with
  | nil =>
      intro w hw
      simp [after, empty] at hw
  | append_singleton history e ih =>
      rw [after_concat]
      refine joins_apply (accounts_after history) (ih ?_) ?_
      · rintro earlier w later rfl
        exact hconnect earlier w (later ++ [e]) (by simp)
      · rintro w rfl
        exact hconnect history w [] rfl

end Graph

end Dataflow
