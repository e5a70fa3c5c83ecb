import Dataflow.Proofs.Program.Layout

/-!
# Which graphs have programs

A graph has a program exactly when it is well-formed (`exists_compile_iff`). The checks of the
structure are the only way to fail besides a cycle and an unknown operation: once the order
stands, every node is found, and every wire that is read is registered. The lists of an
instruction have at most `maxSockets` items (`compile_sockets_le`).
-/

namespace Dataflow

/-- Instructions have as many inputs, cached values and outputs as their nodes at most. -/
theorem Laid.sockets_le {w : Wiring} {g : Graph} {table : Table} {reserved : List Nat}
    {placed rest : List Key} {a last : Allocator OutputSocket} {instructions : List Instruction}
    {bound : Nat} (h : Laid w g table reserved placed a rest instructions last)
    (hnode : ∀ k n, g.node? k = some n → n.inputs.length ≤ bound ∧ n.outputs ≤ bound) :
    ∀ i ∈ instructions, i.inputSlots.length ≤ bound ∧ i.inputCache.length ≤ bound ∧
      i.outputSlots.length ≤ bound := by
  induction h with
  | nil => exact fun _ hi => nomatch hi
  | cons node _ _ _ _ _ _ ih =>
      intro i hi
      rcases List.mem_cons.1 hi with rfl | hi
      · obtain ⟨hinputs, houtputs⟩ := hnode _ _ node
        simpa [Wiring.instruction, Node.defaults] using ⟨hinputs, houtputs⟩
      · exact ih i hi

namespace Graph

open Relation (ReflTransGen TransGen)

variable {g : Graph} {table : Table}

/-- A well-formed graph passes the checks of its structure, and what its output depends on can
be ordered. -/
theorem WellFormed.exists_order (h : g.WellFormed table) : ∃ feeds root order,
    g.feeds? = .ok feeds ∧ g.soleOutput? = .ok root ∧ g.liveOrder feeds root = .ok order := by
  obtain ⟨feeds, hfeeds⟩ := exists_feeds_iff.2 ⟨h.node, h.wire, h.targets⟩
  obtain ⟨root, hroot, hsole⟩ := h.sole
  have hacyclic : ∀ k, ReflTransGen g.Reads root k → ¬ TransGen g.Reads k k :=
    fun k hreach => h.acyclic k ⟨root, hroot, hreach⟩
  obtain ⟨order, horder⟩ := (exists_liveOrder_iff hfeeds).2 hacyclic
  exact ⟨feeds, root, order, hfeeds, soleOutput?_eq_ok.2 ⟨hroot, hsole⟩, horder⟩

/-- The graph behind a program is well-formed. -/
theorem Compilation.wellFormed {feeds : Feeds} {root : Key} {order : List Key}
    {last : Allocator OutputSocket} {p : Program}
    (h : g.Compilation table feeds root order last p) : g.WellFormed table := by
  obtain ⟨hnode, hwire, htargets⟩ := exists_feeds_iff.1 ⟨feeds, h.feeds_eq⟩
  obtain ⟨hroot, hsole⟩ := soleOutput?_eq_ok.1 h.root_eq
  refine ⟨hnode, hwire, htargets, ⟨root, hroot, hsole⟩, ?_, ?_⟩
  · intro k hlive
    obtain ⟨output, houtput, hreach⟩ := hlive
    rw [hsole output houtput] at hreach
    exact (exists_liveOrder_iff h.feeds_eq).1 ⟨order, h.order_eq⟩ k hreach
  · intro k n hlive hn
    obtain ⟨n', hn', hknown⟩ := h.laid.known_of_mem (h.mem_order.2 hlive)
    rw [hn] at hn'
    cases hn'
    exact hknown

/-- A graph is well-formed if its nodes and wires are in order, one node is the output, and every
wire goes up in rank. -/
theorem wellFormed_of_rank (root : Key) (rank : Key → Nat)
    (hnodes : ∀ entry ∈ g.nodes, g.nodeFault? entry.1 entry.2 = none)
    (hwires : ∀ w ∈ g.wires.toList, g.wireFault? (fun _ => false) w = none)
    (htargets : (g.wires.toList.map (·.target)).Nodup) (hroot : g.soleOutput? = .ok root)
    (hrank : ∀ w ∈ g.wires.toList, rank w.source.node < rank w.target.node)
    (hknown : ∀ entry ∈ g.nodes, (table.resolve entry.2.op).isSome) : g.WellFormed table where
  node := (structured_of_forall hnodes hwires htargets).node
  wire := (structured_of_forall hnodes hwires htargets).wire
  targets := htargets
  sole := ⟨root, soleOutput?_eq_ok.1 hroot⟩
  acyclic k _ hcycle := by
    -- along wires the rank goes down
    have hlower : ∀ {producer}, TransGen g.Reads k producer → rank producer < rank k := by
      intro producer hreach
      induction hreach with
      | single hreads =>
          obtain ⟨w, hw, rfl, rfl⟩ := hreads
          exact hrank w (Array.mem_toList_iff.2 hw)
      | tail _ hreads ih =>
          obtain ⟨w, hw, rfl, rfl⟩ := hreads
          exact Nat.lt_trans (hrank w (Array.mem_toList_iff.2 hw)) ih
    exact Nat.lt_irrefl _ (hlower hcycle)
  known k n _ hn := hknown (k, n) (Arena.mem_toList.2 hn)

/-- A graph in which two nodes read a parameter, and two nodes read what one of these makes of the
parameter and of another value. -/
def mixture (other : Node) : Graph where
  arena := ⟨#[none, some (1, .parameterRead ⟨7⟩), some (1, other),
    some (1, .arithmetic ⟨3, 3, 0⟩ [.plain 0, .plain 0]),
    some (1, .arithmetic ⟨3, 1, 0⟩ [.plain 0, .plain 0]), some (1, Node.output.addInput none)], []⟩
  wires := #[⟨⟨⟨1, 1⟩, 0⟩, ⟨⟨3, 1⟩, 0⟩⟩, ⟨⟨⟨2, 1⟩, 0⟩, ⟨⟨3, 1⟩, 1⟩⟩, ⟨⟨⟨1, 1⟩, 0⟩, ⟨⟨4, 1⟩, 0⟩⟩,
    ⟨⟨⟨3, 1⟩, 0⟩, ⟨⟨4, 1⟩, 1⟩⟩, ⟨⟨⟨4, 1⟩, 0⟩, ⟨⟨5, 1⟩, 0⟩⟩, ⟨⟨⟨3, 1⟩, 0⟩, ⟨⟨5, 1⟩, 1⟩⟩]
  parameters := [(⟨7⟩, ⟨"gain", .float (.plain 2)⟩)]

/-- The other value may be drawn. -/
theorem mixture_random_wellFormed : (mixture .random).WellFormed Catalog.table :=
  wellFormed_of_rank ⟨5, 1⟩ Key.index (by decide) (by decide) (by decide) rfl
    (by decide) (by decide +kernel)

/-- A well-formed graph has a program. -/
theorem WellFormed.exists_compile (h : g.WellFormed table) : ∃ p, g.compile table = .ok p := by
  obtain ⟨feeds, root, order, hfeeds, hroot, horder⟩ := h.exists_order
  rcases exists_compilation_or_unknown table hfeeds hroot horder with
    ⟨p, last, hp, -⟩ | ⟨k, op, hunknown, -⟩
  · exact ⟨p, hp⟩
  · -- whatever is in the order is live, so its operation is in the table
    obtain ⟨hk, n, hn, rfl, hnone⟩ := hunknown.exists_node
    have hreach := (reachable_dependencies hfeeds).1 (((isOrder_liveOrder horder).mem_iff k).1 hk)
    have hknown := h.known k n ⟨root, (soleOutput?_eq_ok.1 hroot).1, hreach⟩ hn
    rw [hnone] at hknown
    cases hknown

/-- A graph has a program exactly when it is well-formed. -/
theorem exists_compile_iff : (∃ p, g.compile table = .ok p) ↔ g.WellFormed table := by
  constructor
  · intro hok
    obtain ⟨p, hp⟩ := hok
    obtain ⟨feeds, root, order, last, h⟩ := compilation_of_ok hp
    exact h.wellFormed
  · exact WellFormed.exists_compile

/-- No instruction of a program has more inputs, cached values or outputs than a node may have, so
arrays with that many places hold them. -/
theorem compile_sockets_le {p : Program} (h : g.compile table = .ok p) :
    ∀ i ∈ p.instructions, i.inputSlots.length ≤ maxSockets ∧ i.inputCache.length ≤ maxSockets ∧
      i.outputSlots.length ≤ maxSockets := by
  obtain ⟨feeds, root, order, last, hcompilation⟩ := compilation_of_ok h
  refine hcompilation.laid.sockets_le fun k n hn => ?_
  have hwell := hcompilation.wellFormed.node k n hn
  exact ⟨hwell.inputs_le, hwell.outputs_le⟩

end Graph

end Dataflow
