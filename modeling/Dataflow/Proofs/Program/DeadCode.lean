import Dataflow.Proofs.Graph.Removal
import Dataflow.Proofs.Program.Liveness
import Dataflow.Proofs.Program.Matching

/-!
# Dead code

What the output does not depend on leaves no trace in a program except that it is counted. Graphs
with the same live nodes, the same wires to them and the same parameters have the same program, and
a graph without one of its dead nodes still has that program (`compile_ignores_dead`).
-/

namespace Dataflow

namespace Graph

variable {g g' : Graph} {table : Table} {p : Program} {k : Key} {n : Node}

/-- The outputs, the nodes that they depend on, the wires to these and the parameters in their order
are the same. -/
structure SameLive (g g' : Graph) : Prop where
  output : ∀ k, g'.IsOutput k ↔ g.IsOutput k
  node : ∀ k, g.Live k → g'.node? k = g.node? k
  wire : ∀ w, g.Live w.target.node → (w ∈ g'.wires ↔ w ∈ g.wires)
  parameters : g'.parameters = g.parameters

namespace SameLive

/-- The live parts match with every node under its own key. -/
theorem liveMatch (h : g.SameLive g') : g.LiveMatch (Equiv.refl Key) g' where
  output := h.output
  node := h.node
  wire := h.wire
  identities := congrArg _ h.parameters

/-- The program is the same if the nodes and wires of the other graph are in order. Only the number
of dropped nodes is that of the other graph. -/
theorem compile_eq_ok (h : g.SameLive g') (hp : g.compile table = .ok p)
    (hfeeds' : ∃ feeds', g'.feeds? = .ok feeds') : g'.compile table = .ok { p with
      stats := { p.stats with eliminatedNodes := g'.nodeCount - p.stats.liveNodes } } := by
  obtain ⟨feeds, root, order, last, hcompilation⟩ := compilation_of_ok hp
  obtain ⟨feeds', hfeeds'⟩ := hfeeds'
  have hparameters : g'.placedParameters = p.parameters := by
    rw [hcompilation.parameters_eq, placedParameters, placedParameters, h.parameters]
  rw [h.liveMatch.compile_eq_ok hp hfeeds', Program.rename_refl, hparameters,
    hcompilation.covers.liveNodes.1]

end SameLive

/-- No wire leads from a dead node to a live one. -/
theorem Live.source {w : Wire} (h : g.Live w.target.node) (hw : w ∈ g.wires) :
    g.Live w.source.node := by
  obtain ⟨root, hroot, hreach⟩ := h
  exact ⟨root, hroot, hreach.tail ⟨w, hw, rfl, rfl⟩⟩

/-- Without a dead node the live part is the same. -/
theorem sameLive_removeNode (hn : g.node? k = some n) (hdead : ¬ g.Live k) :
    g.SameLive (g.removeNode k) where
  output k' := by
    rw [IsOutput, IsOutput, node?_removeNode]
    by_cases hk : k' = k
    · subst hk
      have hout : ¬ g.IsOutput k' := fun houtput => hdead ⟨k', houtput, .refl⟩
      simpa using fun n' hn' hop => hout ⟨n', hn', hop⟩
    · rw [if_neg hk]
  node k' hlive := by
    rw [node?_removeNode, if_neg]
    rintro rfl
    exact hdead hlive
  wire w hlive := by
    rw [wires_removeNode hn, Array.mem_filter, decide_eq_true_eq]
    refine ⟨fun hkept => hkept.1, fun hw => ⟨hw, ?_, ?_⟩⟩
    · rintro rfl
      exact hdead (hlive.source hw)
    · rintro rfl
      exact hdead hlive
  parameters := parameters_removeNode g k

/-- If the nodes and wires of a graph are in order, those that a removed node leaves are. -/
theorem exists_feeds_removeNode (hn : g.node? k = some n)
    (hfeeds : ∃ feeds, g.feeds? = .ok feeds) :
    ∃ feeds', (g.removeNode k).feeds? = .ok feeds' := by
  obtain ⟨hnodes, hwires, htargets⟩ := exists_feeds_iff.1 hfeeds
  have hkept : ∀ {k'}, k' ≠ k → (g.removeNode k).node? k' = g.node? k' := by
    intro k' hk
    rw [node?_removeNode, if_neg hk]
  refine exists_feeds_iff.2 ⟨fun k' n' hn' => ?_, fun w hw => ?_, ?_⟩
  · rw [node?_removeNode, Option.ite_none_left_eq_some] at hn'
    exact (hnodes k' n' hn'.2).of_identities (by rw [parameters_removeNode])
  · rw [wires_removeNode hn, Array.mem_filter, decide_eq_true_eq] at hw
    obtain ⟨hw, hsource, htarget⟩ := hw
    exact (hwires w hw).rename id (hkept hsource) (hkept htarget)
  · rw [wires_removeNode hn, Array.toList_filter]
    exact htargets.sublist (List.filter_sublist.map _)

/-- Dead code is invisible: programs of graphs with the same live part differ at most in the number
of dropped nodes, and a graph without one of its dead nodes has the same program, with one dropped
node less. -/
theorem compile_ignores_dead (table : Table) :
    (∀ {g g' : Graph} {p p' : Program}, g.compile table = .ok p → g'.compile table = .ok p' →
      g.SameLive g' →
      p' = { p with stats := { p.stats with eliminatedNodes := p'.stats.eliminatedNodes } }) ∧
    ∀ {g : Graph} {p : Program} {k : Key} {n : Node}, g.compile table = .ok p →
      g.node? k = some n → ¬ g.Live k → 0 < p.stats.eliminatedNodes ∧
        (g.removeNode k).compile table = .ok { p with
          stats := { p.stats with eliminatedNodes := p.stats.eliminatedNodes - 1 } } := by
  constructor
  · intro g g' p p' hp hp' h
    obtain ⟨feeds', _, _, _, hcompilation'⟩ := compilation_of_ok hp'
    rw [h.compile_eq_ok hp ⟨feeds', hcompilation'.feeds_eq⟩] at hp'
    cases hp'
    rfl
  · intro g p k n hp hn hdead
    obtain ⟨feeds, _, _, _, hcompilation⟩ := compilation_of_ok hp
    have hcompile := (sameLive_removeNode hn hdead).compile_eq_ok hp
      (exists_feeds_removeNode hn ⟨feeds, hcompilation.feeds_eq⟩)
    -- both programs count every node of their graphs
    have hcount : p.stats.liveNodes + p.stats.eliminatedNodes = g.nodeCount := nodeCount_of_ok hp
    have hcount' : p.stats.liveNodes + ((g.removeNode k).nodeCount - p.stats.liveNodes) =
        (g.removeNode k).nodeCount := nodeCount_of_ok hcompile
    have hless := nodeCount_removeNode hn
    have hdropped : (g.removeNode k).nodeCount - p.stats.liveNodes =
        p.stats.eliminatedNodes - 1 := by
      omega
    rw [hdropped] at hcompile
    exact ⟨by omega, hcompile⟩

/-- One of two dead nodes that read each other can be removed. -/
theorem overgrown_ignores_dead : ∃ p', ¬ overgrown.Live ⟨6, 1⟩ ∧
    (overgrown.removeNode ⟨6, 1⟩).compile Catalog.table = .ok p' ∧
    p' = { overgrownProgram with stats := { overgrownProgram.stats with
      eliminatedNodes := p'.stats.eliminatedNodes } } ∧
    0 < overgrownProgram.stats.eliminatedNodes ∧ p'.stats.eliminatedNodes = 1 := by
  have hdead : ¬ overgrown.Live ⟨6, 1⟩ := by
    rw [← mem_map_source_of_ok compile_overgrown]
    decide
  obtain ⟨hsame, hremove⟩ := compile_ignores_dead Catalog.table
  obtain ⟨hcounted, hcompile⟩ := hremove compile_overgrown rfl hdead
  exact ⟨_, hdead, hcompile, hsame compile_overgrown hcompile (sameLive_removeNode rfl hdead),
    hcounted, rfl⟩

end Graph

end Dataflow
