import Dataflow.Proofs.Graph.WellFormed

/-!
# Removing a node

Once a node is removed its key finds nothing, every other key finds what it found before, and no
wire from or to the node is left. What the removed node was not part of stays in order.
-/

namespace Dataflow

/-- Different keys of one place have different versions. -/
theorem Key.version_ne {k k' : Key} (hk : k ≠ k') (hindex : k.index = k'.index) :
    k.version ≠ k'.version := by
  intro hversion
  cases k
  cases k'
  exact hk (by simp_all)

namespace Arena

variable {α : Type} {a : Arena α} {k : Key} {x : α}

/-- The place of a removed item is empty, and the others hold what they held. -/
theorem getElem?_places_remove (hk : a.get? k = some x) (index : Nat) :
    (a.remove k).places[index]? = if index = k.index then some none else a.places[index]? := by
  obtain ⟨hlt, -⟩ := Array.getElem?_eq_some_iff.1 (get?_eq_some_iff.1 hk)
  have hcontains : a.contains k := by rw [contains, hk]; rfl
  simp only [remove, hcontains, if_true, Array.getElem?_setIfInBounds, eq_comm (a := k.index)]
  grind

/-- The removed item is not found any more, and the others are. -/
theorem get?_remove (a : Arena α) (k k' : Key) :
    (a.remove k).get? k' = if k' = k then none else a.get? k' := by
  cases hfound : a.get? k with
  | none =>
      have hsame : a.remove k = a := by simp [remove, contains, hfound]
      rw [hsame]
      split
      · rename_i heq
        rw [heq, hfound]
      · rfl
  | some x =>
      refine Option.ext fun y => ?_
      rw [get?_eq_some_iff, getElem?_places_remove hfound]
      by_cases hk : k' = k
      · simp [hk]
      · rw [if_neg hk, get?_eq_some_iff]
        split
        · rename_i hindex
          -- before it was emptied the place held the item under no other key
          simp [hindex, get?_eq_some_iff.1 hfound, Ne.symm (Key.version_ne hk hindex)]
        · exact Iff.rfl

/-- Without an item that was there, there is one item less. -/
theorem size_remove (h : a.get? k = some x) : (a.remove k).size + 1 = a.size := by
  have hnodup : ∀ {a : Arena α}, a.toList.Nodup := nodup_toList.of_map
  have hperm : ((k, x) :: (a.remove k).toList).Perm a.toList := by
    rw [List.perm_ext_iff_of_nodup _ hnodup]
    · rintro ⟨k', y⟩
      rw [List.mem_cons, mem_toList, mem_toList, get?_remove, Prod.mk.injEq]
      by_cases hk : k' = k
      · subst hk
        simp [h, eq_comm]
      · simp [hk]
    · rw [List.nodup_cons, mem_toList, get?_remove, if_pos rfl]
      exact ⟨nofun, hnodup⟩
  exact hperm.length_eq

end Arena

namespace Graph

variable {g : Graph} {k : Key} {n : Node}

/-- The removed node is not found any more, and the others are. -/
theorem node?_removeNode (g : Graph) (k k' : Key) :
    (g.removeNode k).node? k' = if k' = k then none else g.node? k' := by
  rw [node?, removeNode, node?, ← Arena.get?_remove]
  split
  · rfl
  · rename_i hmissing
    rw [Arena.remove, if_neg hmissing]

/-- The wires of a removed node are gone. -/
theorem wires_removeNode (hn : g.node? k = some n) : (g.removeNode k).wires =
    g.wires.filter fun w => w.source.node ≠ k ∧ w.target.node ≠ k := by
  have hcontains : g.arena.contains k := Option.isSome_iff_exists.2 ⟨n, hn⟩
  rw [removeNode, if_pos hcontains]

/-- The parameters stay. -/
theorem parameters_removeNode (g : Graph) (k : Key) :
    (g.removeNode k).parameters = g.parameters := by
  unfold removeNode
  split <;> rfl

/-- There is one node less. -/
theorem nodeCount_removeNode (hn : g.node? k = some n) :
    (g.removeNode k).nodeCount + 1 = g.nodeCount := by
  have hcontains : g.arena.contains k := Option.isSome_iff_exists.2 ⟨n, hn⟩
  rw [removeNode, if_pos hcontains]
  exact Arena.size_remove hn

end Graph

end Dataflow
