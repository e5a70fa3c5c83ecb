import Mathlib.Logic.Equiv.Basic
import Dataflow.Proofs.Program.Liveness
import Dataflow.Proofs.Program.Matching

/-!
# Renamed graphs

A graph is authored in some order, which shows in the keys of its nodes and in the order of its
wires. `Graph.Renaming` relates graphs that differ in nothing else, and their programs differ in the
names of the nodes alone (`compile_rename`).
-/

namespace Dataflow.Graph

variable {g g' : Graph} {table : Table} {p : Program} {σ : Key ≃ Key}

/-- The other graph has the same nodes under renamed keys, the same wires between them in some
order, and the same parameters in the same order. -/
structure Renaming (σ : Key ≃ Key) (g g' : Graph) : Prop where
  nodes : (g.nodes.map fun (k, n) => (σ k, n)).Perm g'.nodes
  wires : (g.wires.toList.map (Wire.rename σ)).Perm g'.wires.toList
  parameters : g'.parameters = g.parameters

namespace Renaming

/-- The renamed key finds the node. -/
theorem node?_eq (h : g.Renaming σ g') (k : Key) : g'.node? (σ k) = g.node? k := by
  refine Option.ext fun n => ?_
  calc g'.node? (σ k) = some n
    _ ↔ (σ k, n) ∈ g'.nodes := Arena.mem_toList.symm
    _ ↔ (σ k, n) ∈ g.nodes.map fun (k, n) => (σ k, n) := h.nodes.mem_iff.symm
    _ ↔ (k, n) ∈ g.nodes := by simp
    _ ↔ g.node? k = some n := Arena.mem_toList

/-- The renamed wire is one of the other graph. -/
theorem mem_wires (h : g.Renaming σ g') (w : Wire) : w.rename σ ∈ g'.wires ↔ w ∈ g.wires := by
  have hback : Function.LeftInverse (Wire.rename σ.symm) (Wire.rename σ) := fun w => by
    simp [Wire.rename, OutputSocket.rename, InputSocket.rename]
  rw [← Array.mem_toList_iff, ← h.wires.mem_iff, List.mem_map_of_injective hback.injective,
    Array.mem_toList_iff]

/-- Renaming back gives the graph again. -/
theorem symm (h : g.Renaming σ g') : g'.Renaming σ.symm g where
  nodes := by
    have hback := h.nodes.symm.map fun (k, n) => (σ.symm k, n)
    simpa [List.map_map, Function.comp_def] using hback
  wires := by
    have hback := h.wires.symm.map (Wire.rename σ.symm)
    simpa [List.map_map, Function.comp_def, Wire.rename, OutputSocket.rename,
      InputSocket.rename] using hback
  parameters := h.parameters.symm

/-- Whether a node is the output does not depend on its key. -/
theorem isOutput_iff (h : g.Renaming σ g') (k : Key) : g'.IsOutput (σ k) ↔ g.IsOutput k := by
  rw [IsOutput, IsOutput, h.node?_eq]

/-- What the outputs depend on is the same. -/
theorem liveMatch (h : g.Renaming σ g') : g.LiveMatch σ g' where
  output := h.isOutput_iff
  node k _ := h.node?_eq k
  wire w _ := h.mem_wires w
  identities := by rw [h.parameters]

/-- There are as many nodes. -/
theorem nodeCount_eq (h : g.Renaming σ g') : g'.nodeCount = g.nodeCount := by
  have hlength := h.nodes.length_eq
  rw [List.length_map] at hlength
  exact hlength.symm

/-- If the nodes and wires of a graph are in order, so are those of the renamed one. -/
theorem exists_feeds (h : g.Renaming σ g') (hfeeds : ∃ feeds, g.feeds? = .ok feeds) :
    ∃ feeds', g'.feeds? = .ok feeds' := by
  obtain ⟨hnodes, hwires, htargets⟩ := exists_feeds_iff.1 hfeeds
  refine exists_feeds_iff.2 ⟨fun k n hn => ?_, fun w hw => ?_, ?_⟩
  · rw [← σ.apply_symm_apply k, h.node?_eq] at hn
    exact (hnodes _ n hn).of_identities h.liveMatch.identities
  · obtain ⟨w, hmem, rfl⟩ := List.mem_map.1 (h.wires.mem_iff.2 (Array.mem_toList_iff.2 hw))
    exact (hwires w (Array.mem_toList_iff.1 hmem)).rename σ (h.node?_eq _) (h.node?_eq _)
  · have hinjective : Function.Injective (InputSocket.rename σ) :=
      Function.LeftInverse.injective (g := InputSocket.rename σ.symm) fun s => by
        simp [InputSocket.rename]
    have hrenamed := htargets.map hinjective
    rw [List.map_map] at hrenamed
    have hperm := h.wires.map (·.target)
    rw [List.map_map] at hperm
    exact hperm.nodup_iff.1 hrenamed

/-- The program of the renamed graph is that of the graph, with its nodes renamed. -/
theorem compile_eq_ok (h : g.Renaming σ g') (hp : g.compile table = .ok p) :
    g'.compile table = .ok (p.rename σ) := by
  obtain ⟨feeds, root, order, last, hcompilation⟩ := compilation_of_ok hp
  obtain ⟨feeds', hfeeds'⟩ := h.exists_feeds ⟨feeds, hcompilation.feeds_eq⟩
  have hparameters : g'.placedParameters = p.parameters := by
    rw [hcompilation.parameters_eq, placedParameters, placedParameters, h.parameters]
  have hdropped : g'.nodeCount - p.instructions.length = p.stats.eliminatedNodes := by
    rw [h.nodeCount_eq, hcompilation.stats_eq]
  rw [h.liveMatch.compile_eq_ok hp hfeeds', hparameters, hdropped]
  rfl

end Renaming

/-- Whether a graph has a program, and which, does not depend on the keys of its nodes or on the
order of its wires: a renamed graph has a program exactly when the graph has one, and it is the same
up to the names of the nodes. -/
theorem compile_rename (h : g.Renaming σ g') (table : Table) :
    ((∃ p, g.compile table = .ok p) ↔ ∃ p', g'.compile table = .ok p') ∧
      ∀ p, g.compile table = .ok p → g'.compile table = .ok (p.rename σ) := by
  refine ⟨⟨fun hp => ?_, fun hp' => ?_⟩, fun p hp => h.compile_eq_ok hp⟩
  · obtain ⟨p, hp⟩ := hp
    exact ⟨p.rename σ, h.compile_eq_ok hp⟩
  · obtain ⟨p', hp'⟩ := hp'
    exact ⟨p'.rename σ.symm, h.symm.compile_eq_ok hp'⟩

/-- The graph in which not all is live, with two of its nodes made in the other order and its wires
made backwards. -/
def overgrownAnew : Graph where
  arena := ⟨#[none, some (1, .parameterRead ⟨7⟩),
    some (1, .arithmetic ⟨3, 1, 0⟩ [.plain 0, .plain 0]),
    some (1, .arithmetic ⟨3, 3, 0⟩ [.plain 0, .plain 3]), some (1, .output),
    some (1, .arithmetic ⟨3, 1, 0⟩ [.plain 0, .plain 0]),
    some (1, .arithmetic ⟨3, 1, 0⟩ [.plain 0, .plain 1])], []⟩
  wires := #[⟨⟨⟨2, 1⟩, 0⟩, ⟨⟨4, 1⟩, 0⟩⟩, ⟨⟨⟨3, 1⟩, 0⟩, ⟨⟨2, 1⟩, 1⟩⟩, ⟨⟨⟨1, 1⟩, 0⟩, ⟨⟨2, 1⟩, 0⟩⟩,
    ⟨⟨⟨1, 1⟩, 0⟩, ⟨⟨3, 1⟩, 0⟩⟩, ⟨⟨⟨5, 1⟩, 0⟩, ⟨⟨6, 1⟩, 0⟩⟩, ⟨⟨⟨1, 1⟩, 0⟩, ⟨⟨5, 1⟩, 1⟩⟩,
    ⟨⟨⟨6, 1⟩, 0⟩, ⟨⟨5, 1⟩, 0⟩⟩]
  parameters := [(⟨7⟩, ⟨"gain", .float (.plain 2)⟩)]

/-- Nodes made in the other order stand in the same places of the program. -/
theorem overgrownAnew_renamed :
    overgrown.Renaming (Equiv.swap ⟨2, 1⟩ ⟨3, 1⟩) overgrownAnew ∧
    (∃ p', overgrownAnew.compile Catalog.table = .ok p') ∧
    overgrownAnew.compile Catalog.table =
      .ok (overgrownProgram.rename (Equiv.swap ⟨2, 1⟩ ⟨3, 1⟩)) := by
  have h : overgrown.Renaming (Equiv.swap ⟨2, 1⟩ ⟨3, 1⟩) overgrownAnew := by
    refine ⟨?_, by decide, rfl⟩
    exact .cons _ (.swap _ _ _)
  obtain ⟨hiff, hprogram⟩ := compile_rename h Catalog.table
  exact ⟨h, hiff.1 ⟨_, compile_overgrown⟩, hprogram _ compile_overgrown⟩

end Dataflow.Graph
