import Mathlib.Data.List.Perm.Subperm
import Dataflow.Proofs.Program.Computation
import Dataflow.Proofs.Program.Slots

/-!
# Instructions stand for live nodes

The instructions of a program are the live nodes of its graph, each once and after the producers
of all that it reads, with the output last (`Program.Covers`). `compile_covers` says so of every
program. Nodes that the output does not depend on get no instruction, whatever they read and
whether or not they depend on themselves, and every node is counted as kept or dropped.
-/

namespace Dataflow

/-- Different keys that find items are not more than the items. -/
theorem Arena.length_le_size {α : Type} {a : Arena α} {keys : List Key} (hnodup : keys.Nodup)
    (hfound : ∀ k ∈ keys, ∃ x, a.get? k = some x) : keys.length ≤ a.size := by
  have hsubset : keys ⊆ a.toList.map (·.1) := by
    intro k hk
    obtain ⟨x, hx⟩ := hfound k hk
    exact List.mem_map_of_mem (f := (·.1)) (mem_toList.2 hx)
  have hle := (hnodup.subperm hsubset).length_le
  rwa [List.length_map] at hle

/-- The instructions of a program are the live nodes of its graph, each once, in an order in which
they can run: the producer of a wire stands before its consumer, and the only output comes last. An
instruction has the operation, the role and the literals of its node. The instructions are counted,
there is one, and every node is kept or dropped. -/
structure Program.Covers (p : Program) (g : Graph) : Prop where
  nodup : (p.instructions.map (·.source)).Nodup
  live : ∀ k, k ∈ p.instructions.map (·.source) ↔ g.Live k
  ordered : ∀ before consumer after, p.instructions = before ++ consumer :: after →
    ∀ w ∈ g.wires, w.target.node = consumer.source → w.source.node ∈ before.map (·.source)
  last : ∃ sink, p.instructions.getLast? = some sink ∧ p.outputInstruction? = some sink ∧
    ∀ k, g.IsOutput k ↔ k = sink.source
  node : ∀ i ∈ p.instructions, ∃ n, g.node? i.source = some n ∧ i.op = n.op ∧ i.role = n.role ∧
    i.literals = n.literals
  liveNodes : p.stats.liveNodes = p.instructions.length ∧ 0 < p.stats.liveNodes
  output : p.output = some (p.stats.liveNodes - 1)
  nodeCount : p.stats.liveNodes + p.stats.eliminatedNodes = g.nodeCount

namespace Graph

variable {g : Graph} {table : Table} {p : Program}

namespace Compilation

variable {feeds : Feeds} {root : Key} {order : List Key} {last : Allocator OutputSocket}
  (h : g.Compilation table feeds root order last p)
include h

/-- Not more nodes are kept than there are. -/
theorem length_instructions_le : p.instructions.length ≤ g.nodeCount := by
  have hle := Arena.length_le_size h.nodup_source (a := g.arena) fun k hk => by
    obtain ⟨i, hi, rfl⟩ := List.mem_map.1 hk
    exact (h.exists_node hi).2
  rwa [List.length_map] at hle

/-- Every node is kept or dropped. -/
theorem liveNodes_add_eliminatedNodes :
    p.stats.liveNodes + p.stats.eliminatedNodes = g.nodeCount := by
  rw [h.stats_eq]
  exact Nat.add_sub_cancel' h.length_instructions_le

/-- The producer of a wire stands before its consumer. -/
theorem source_before {before after : List Instruction} {consumer : Instruction}
    (hsplit : p.instructions = before ++ consumer :: after) {w : Wire} (hw : w ∈ g.wires)
    (htarget : w.target.node = consumer.source) : w.source.node ∈ before.map (·.source) := by
  have horder := h.isOrder
  rw [← h.map_source, hsplit, List.map_append, List.map_cons] at horder
  exact horder.mem_before ((mem_dependencies h.feeds_eq).2 ⟨w, hw, htarget, rfl⟩)

/-- The instruction of the output comes last. -/
theorem exists_sink : ∃ sink, p.instructions.getLast? = some sink ∧ sink.source = root := by
  have hlast := h.isOrder.getLast
  rwa [← h.map_source, List.getLast?_map, Option.map_eq_some_iff] at hlast

/-- The instructions are the live nodes in an order in which they can run. -/
theorem covers : p.Covers g where
  nodup := h.nodup_source
  live _ := h.mem_map_source
  ordered _ _ _ hsplit _ hw htarget := h.source_before hsplit hw htarget
  last := by
    obtain ⟨sink, hsink, hroot⟩ := h.exists_sink
    obtain ⟨houtput, hsole⟩ := soleOutput?_eq_ok.1 h.root_eq
    refine ⟨sink, hsink, ?_, fun k => ⟨fun hk => ?_, ?_⟩⟩
    · rw [Program.outputInstruction?, h.output_eq, Option.bind_some, ← List.getLast?_eq_getElem?,
        hsink]
    · rw [hroot, hsole k hk]
    · rintro rfl
      rwa [hroot]
  node i hi := by
    obtain ⟨-, n, hn⟩ := h.exists_node hi
    exact ⟨n, hn, h.node_eq hi hn⟩
  liveNodes := by
    rw [h.stats_eq]
    exact ⟨rfl, List.length_pos_iff.2 h.instructions_ne_nil⟩
  output := by
    rw [h.output_eq, h.stats_eq]
  nodeCount := h.liveNodes_add_eliminatedNodes

end Compilation

/-- A program of a graph counts every node as kept or dropped. -/
theorem nodeCount_of_ok (h : g.compile table = .ok p) :
    p.stats.liveNodes + p.stats.eliminatedNodes = g.nodeCount := by
  obtain ⟨feeds, root, order, last, hcompilation⟩ := compilation_of_ok h
  exact hcompilation.liveNodes_add_eliminatedNodes

/-- The instructions of every program are the live nodes of its graph in an order in which they
can run. -/
theorem compile_covers (h : g.compile table = .ok p) : p.Covers g := by
  obtain ⟨feeds, root, order, last, hcompilation⟩ := compilation_of_ok h
  exact hcompilation.covers

/-- A graph whose output depends on four nodes out of six. Of the two others each reads the other,
and one of them a parameter. -/
def overgrown : Graph where
  arena := ⟨#[none, some (1, .parameterRead ⟨7⟩),
    some (1, .arithmetic ⟨3, 3, 0⟩ [.plain 0, .plain 3]),
    some (1, .arithmetic ⟨3, 1, 0⟩ [.plain 0, .plain 0]), some (1, .output),
    some (1, .arithmetic ⟨3, 1, 0⟩ [.plain 0, .plain 0]),
    some (1, .arithmetic ⟨3, 1, 0⟩ [.plain 0, .plain 1])], []⟩
  wires := #[⟨⟨⟨6, 1⟩, 0⟩, ⟨⟨5, 1⟩, 0⟩⟩, ⟨⟨⟨1, 1⟩, 0⟩, ⟨⟨5, 1⟩, 1⟩⟩, ⟨⟨⟨5, 1⟩, 0⟩, ⟨⟨6, 1⟩, 0⟩⟩,
    ⟨⟨⟨1, 1⟩, 0⟩, ⟨⟨2, 1⟩, 0⟩⟩, ⟨⟨⟨1, 1⟩, 0⟩, ⟨⟨3, 1⟩, 0⟩⟩, ⟨⟨⟨2, 1⟩, 0⟩, ⟨⟨3, 1⟩, 1⟩⟩,
    ⟨⟨⟨3, 1⟩, 0⟩, ⟨⟨4, 1⟩, 0⟩⟩]
  parameters := [(⟨7⟩, ⟨"gain", .float (.plain 2)⟩)]

/-- The instructions of the live nodes. -/
def overgrownInstructions : List Instruction :=
  [⟨.parameterRead, 17, .parameterRead ⟨7⟩, ⟨1, 1⟩, [], [some ⟨0⟩], [some ⟨1⟩], [.empty]⟩,
    ⟨⟨3, 3, 0⟩, 4, .operation, ⟨2, 1⟩, [.float (.plain 0), .float (.plain 3)], [some ⟨1⟩, none],
      [some ⟨2⟩], [.float (.plain 0), .float (.plain 3)]⟩,
    ⟨⟨3, 1, 0⟩, 2, .operation, ⟨3, 1⟩, [.float (.plain 0), .float (.plain 0)],
      [some ⟨1⟩, some ⟨2⟩], [some ⟨1⟩], [.float (.plain 0), .float (.plain 0)]⟩,
    ⟨.output, 0, .output, ⟨4, 1⟩, [], [some ⟨1⟩], [], [.empty]⟩]

/-- The program of the graph in which not all is live. -/
def overgrownProgram : Program :=
  ⟨overgrownInstructions, [⟨⟨7⟩, "gain", .float (.plain 2), ⟨0⟩⟩], some 3, 3, Catalog.table,
    ⟨4, 2, 3, 3⟩⟩

set_option maxRecDepth 10000 in
/-- The graph in which not all is live has this program. -/
theorem compile_overgrown : overgrown.compile Catalog.table = .ok overgrownProgram := by
  refine compile_eq_ok ⟨4, 1⟩ [⟨1, 1⟩, ⟨2, 1⟩, ⟨3, 1⟩, ⟨4, 1⟩] 10 overgrownInstructions
    ⟨[], [1, 2], 3, 1, 3⟩ (by decide) (by decide) (by decide) rfl rfl ?_
  -- the nodes are placed one by one, with the allocator after each of them given
  refine Layout.mapM_cons (show _ = Except.ok (_, (⟨[(⟨⟨1, 1⟩, 0⟩, ⟨⟨1⟩, 2⟩)], [], 2, 2, 2⟩ :
    Allocator OutputSocket)) from rfl) ?_
  refine Layout.mapM_cons (show _ = Except.ok (_, (⟨[(⟨⟨2, 1⟩, 0⟩, ⟨⟨2⟩, 1⟩),
    (⟨⟨1, 1⟩, 0⟩, ⟨⟨1⟩, 1⟩)], [], 3, 3, 3⟩ : Allocator OutputSocket)) from rfl) ?_
  refine Layout.mapM_cons (show _ = Except.ok (_, (⟨[(⟨⟨3, 1⟩, 0⟩, ⟨⟨1⟩, 1⟩)], [2], 3, 2, 3⟩ :
    Allocator OutputSocket)) from rfl) ?_
  exact Layout.mapM_cons (show _ = Except.ok (_, (⟨[], [1, 2], 3, 1, 3⟩ :
    Allocator OutputSocket)) from rfl) rfl

/-- Nodes that feed each other are dropped if the output does not depend on them. -/
theorem overgrown_covers : overgrown.compile Catalog.table = .ok overgrownProgram ∧
    overgrownProgram.Covers overgrown ∧ overgrownProgram.stats.eliminatedNodes = 2 :=
  ⟨compile_overgrown, compile_covers compile_overgrown, rfl⟩

end Graph

end Dataflow
