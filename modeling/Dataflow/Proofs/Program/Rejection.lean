import Dataflow.Proofs.Graph.Faults
import Dataflow.Proofs.Program.Acceptance
import Dataflow.Proofs.Program.Computation

/-!
# What is reported of a graph without a program

A graph can have several faults, and `Graph.FirstFault` says which one counts. A compilation that
fails reports it, and nothing else (`Graph.compile_reports_first`): what an error tells of the graph
is true, a missing node is the end of a wire, and no output is ever read before it is registered.
-/

namespace Dataflow.Graph

open Relation (ReflTransGen)

variable {g : Graph} {table : Table} {feeds : Feeds} {root : Key} {order : List Key}
  {e : CompileError}

/-- A list of nodes, at least one and none of them twice, of which each reads the next and the last
reads the first. -/
structure IsCycle (g : Graph) (path : List Key) : Prop where
  nonempty : path ≠ []
  nodup : path.Nodup
  chain : path.IsChain g.Reads
  closed : ∀ first ∈ path.head?, ∀ last ∈ path.getLast?, g.Reads last first

/-- The nodes that the root depends on, as a walk along the inputs of each lists them. -/
def DependencyOrder (g : Graph) (root : Key) (order : List Key) : Prop :=
  ∃ finite, Dependency.order (fun k => (g.feeders k).map (·.node)) root finite = .ok order

/-- What counts as the fault of a graph: that of its structure, then that there is no output or more
than one, then a cycle that the output depends on, then the unknown operation that comes first in
the order of dependencies. -/
inductive FirstFault (g : Graph) (table : Table) : CompileError → Prop
  | structural {e : CompileError} (fault : g.StructureFault e) : FirstFault g table e
  | noOutput (structured : g.Structured) (none : ∀ k, ¬ g.IsOutput k) :
      FirstFault g table .noOutputNode
  | multipleOutputs (structured : g.Structured) (several : 1 < {k | g.IsOutput k}.ncard) :
      FirstFault g table (.multipleOutputNodes {k | g.IsOutput k}.ncard)
  | cycle {root : Key} {path : List Key} (structured : g.Structured) (output : g.IsOutput root)
      (sole : ∀ k, g.IsOutput k → k = root) (cycle : g.IsCycle path)
      (reached : ∀ k ∈ path, ReflTransGen g.Reads root k) :
      FirstFault g table (.cycleDetected path)
  | unknownOperation {root k : Key} {order : List Key} {op : OpId} (structured : g.Structured)
      (output : g.IsOutput root) (sole : ∀ k, g.IsOutput k → k = root)
      (ordered : g.DependencyOrder root order) (unknown : FirstUnknown g table order k op) :
      FirstFault g table (.unknownOperation k op)

/-! ## The live order -/

/-- The live order is found by the walk along the inputs. -/
theorem liveOrder_eq_ok (hfeeds : g.feeds? = .ok feeds) :
    g.liveOrder feeds root = .ok order ↔ g.DependencyOrder root order := by
  have hdependencies := dependencies_eq_feeders hfeeds
  have finite := hdependencies ▸ g.finitelyReachable_dependencies feeds root
  simp only [liveOrder, hdependencies, DependencyOrder]
  constructor
  · intro h
    refine ⟨finite, ?_⟩
    split at h <;> cases h
    assumption
  · rintro ⟨_, h⟩
    simp only [h]

/-- A cycle of dependencies is one of nodes that read each other. -/
theorem isCycle_iff (hfeeds : g.feeds? = .ok feeds) {path : List Key} :
    Dependency.IsCycle (g.dependencies feeds) path ↔ g.IsCycle path := by
  have hreads : ∀ {k producer}, producer ∈ g.dependencies feeds k ↔ g.Reads k producer :=
    mem_dependencies hfeeds
  constructor
  · intro h
    exact ⟨h.nonempty, h.nodup, h.chain.imp fun _ _ => hreads.1,
      fun first hfirst last hlast => hreads.1 (h.closed first hfirst last hlast)⟩
  · intro h
    exact ⟨h.nonempty, h.nodup, h.chain.imp fun _ _ => hreads.2,
      fun first hfirst last hlast => hreads.2 (h.closed first hfirst last hlast)⟩

/-- If there is no live order, a cycle is reported that the root depends on. -/
theorem liveOrder_eq_error (hfeeds : g.feeds? = .ok feeds) (h : g.liveOrder feeds root = .error e) :
    ∃ path, e = .cycleDetected path ∧ g.IsCycle path ∧
      ∀ k ∈ path, ReflTransGen g.Reads root k := by
  unfold liveOrder at h
  split at h
  · cases h
  · rename_i cycle hcycle
    cases h
    obtain ⟨hisCycle, hreachable⟩ := Dependency.isCycle_of_order _ hcycle
    exact ⟨cycle.path, rfl, (isCycle_iff hfeeds).1 hisCycle,
      fun k hk => (reachable_dependencies hfeeds).1 (hreachable k hk)⟩

/-- If the root depends on a cycle, there is no live order. -/
theorem liveOrder_ne_ok (hfeeds : g.feeds? = .ok feeds) {path : List Key} (h : g.IsCycle path)
    (hreach : ∀ k ∈ path, ReflTransGen g.Reads root k) : g.liveOrder feeds root ≠ .ok order := by
  intro horder
  obtain ⟨k, hk, hback⟩ := ((isCycle_iff hfeeds).2 h).transGen
  rw [mem_dependencies_eq hfeeds] at hback
  exact (exists_liveOrder_iff hfeeds).1 ⟨order, horder⟩ k (hreach k hk) hback

/-! ## Compilations that fail -/

/-- A graph with a faulty structure has no program. -/
theorem compile_of_feeds_eq_error (hfeeds : g.feeds? = .error e) :
    g.compile table = .error e := by
  simp only [compile, hfeeds, bind, Except.bind]

/-- A graph in which no output is found has no program. -/
theorem compile_of_soleOutput_eq_error (hfeeds : g.feeds? = .ok feeds)
    (hroot : g.soleOutput? = .error e) : g.compile table = .error e := by
  simp only [compile, hfeeds, hroot, bind, Except.bind]

/-- A graph of which the output depends on a cycle has no program. -/
theorem compile_of_liveOrder_eq_error (hfeeds : g.feeds? = .ok feeds)
    (hroot : g.soleOutput? = .ok root) (horder : g.liveOrder feeds root = .error e) :
    g.compile table = .error e := by
  simp only [compile, hfeeds, hroot, horder, bind, Except.bind]

/-- A compilation that fails reports what counts as the fault of the graph. -/
theorem firstFault_of_compile (h : g.compile table = .error e) : g.FirstFault table e := by
  cases hfeeds : g.feeds? with
  | error fault =>
      rw [compile_of_feeds_eq_error hfeeds] at h
      cases h
      exact .structural (feeds?_eq_error.1 hfeeds)
  | ok feeds =>
      have hstructured := exists_feeds_iff.1 ⟨feeds, hfeeds⟩
      cases hroot : g.soleOutput? with
      | error fault =>
          rw [compile_of_soleOutput_eq_error hfeeds hroot] at h
          cases h
          rcases soleOutput?_eq_error.1 hroot with ⟨rfl, hnone⟩ | ⟨rfl, hseveral⟩
          · exact .noOutput hstructured hnone
          · exact .multipleOutputs hstructured hseveral
      | ok root =>
          obtain ⟨houtput, hsole⟩ := soleOutput?_eq_ok.1 hroot
          cases horder : g.liveOrder feeds root with
          | error fault =>
              rw [compile_of_liveOrder_eq_error hfeeds hroot horder] at h
              cases h
              obtain ⟨path, rfl, hcycle, hreached⟩ := liveOrder_eq_error hfeeds horder
              exact .cycle hstructured houtput hsole hcycle hreached
          | ok order =>
              rcases exists_compilation_or_unknown table hfeeds hroot horder with
                ⟨p, last, hp, -⟩ | ⟨k, op, hunknown, hp⟩
              · rw [hp] at h
                cases h
              · rw [hp] at h
                cases h
                exact .unknownOperation hstructured houtput hsole
                  ((liveOrder_eq_ok hfeeds).1 horder) hunknown

/-- What counts as the fault of a graph is reported, or else it is one of several cycles. -/
theorem FirstFault.compile_eq (h : g.FirstFault table e) : g.compile table = .error e ∨
    ∃ path path', e = .cycleDetected path ∧ g.compile table = .error (.cycleDetected path') := by
  cases h with
  | structural fault => exact .inl (compile_of_feeds_eq_error (feeds?_eq_error.2 fault))
  | noOutput structured none =>
      obtain ⟨feeds, hfeeds⟩ := exists_feeds_iff.2 structured
      exact .inl (compile_of_soleOutput_eq_error hfeeds (soleOutput?_eq_error.2 (.inl ⟨rfl, none⟩)))
  | multipleOutputs structured several =>
      obtain ⟨feeds, hfeeds⟩ := exists_feeds_iff.2 structured
      exact .inl (compile_of_soleOutput_eq_error hfeeds
        (soleOutput?_eq_error.2 (.inr ⟨rfl, several⟩)))
  | @cycle root path structured output sole cycle reached =>
      obtain ⟨feeds, hfeeds⟩ := exists_feeds_iff.2 structured
      have hroot := soleOutput?_eq_ok.2 ⟨output, sole⟩
      cases horder : g.liveOrder feeds root with
      | ok order => exact absurd horder (liveOrder_ne_ok hfeeds cycle reached)
      | error fault =>
          -- the walk may have met another cycle first
          obtain ⟨path', rfl, -⟩ := liveOrder_eq_error hfeeds horder
          exact .inr ⟨path, path', rfl, compile_of_liveOrder_eq_error hfeeds hroot horder⟩
  | unknownOperation structured output sole ordered unknown =>
      obtain ⟨feeds, hfeeds⟩ := exists_feeds_iff.2 structured
      have hroot := soleOutput?_eq_ok.2 ⟨output, sole⟩
      rcases exists_compilation_or_unknown table hfeeds hroot
        ((liveOrder_eq_ok hfeeds).2 ordered) with ⟨p, last, -, hp⟩ | ⟨k', op', hunknown, hp⟩
      · -- behind a program all operations of the order are known
        obtain ⟨hk, n, hn, rfl, hnone⟩ := unknown.exists_node
        obtain ⟨n', hn', hknown⟩ := hp.laid.known_of_mem hk
        rw [Option.some.inj (hn'.symm.trans hn), hnone] at hknown
        cases hknown
      · obtain ⟨rfl, rfl⟩ := unknown.unique hunknown
        exact .inl hp

/-- A node that counts as missing does not exist, and a wire comes from it or goes to it. -/
theorem FirstFault.exists_wire {k : Key} (h : g.FirstFault table (.missingNode k)) :
    g.node? k = none ∧ ∃ w ∈ g.wires, w.source.node = k ∨ w.target.node = k := by
  cases h with
  | structural fault =>
      cases fault with
      | node _ fault => cases fault
      | @wire earlier later w nodes wires sound targets fault =>
          have hw : w ∈ g.wires := by
            rw [← Array.mem_toList_iff, wires]
            simp
          cases fault with
          | missingProducer producer => exact ⟨producer, w, hw, .inl rfl⟩
          | missingConsumer _ _ consumer => exact ⟨consumer, w, hw, .inr rfl⟩

/-- That an output is read before it is registered does not count as a fault of any graph. -/
theorem not_firstFault_unregisteredWire {s : OutputSocket} :
    ¬ g.FirstFault table (.unregisteredWire s) := by
  intro h
  cases h with
  | structural fault =>
      cases fault with
      | node _ fault => cases fault
      | wire _ _ _ _ fault => cases fault

/-- A compilation that fails reports what counts as the fault of the graph, and nothing else counts
unless there are several cycles. An output is never read before it is registered, and a node is
missing only at an end of a wire. -/
theorem compile_reports_first (h : g.compile table = .error e) :
    g.FirstFault table e ∧
    (∀ e', g.FirstFault table e' →
      e' = e ∨ ∃ path path', e' = .cycleDetected path' ∧ e = .cycleDetected path) ∧
    (∀ s, e ≠ .unregisteredWire s) ∧
    ∀ k, e = .missingNode k →
      g.node? k = none ∧ ∃ w ∈ g.wires, w.source.node = k ∨ w.target.node = k := by
  have hfirst := firstFault_of_compile h
  refine ⟨hfirst, fun e' he' => ?_, ?_, ?_⟩
  · rcases he'.compile_eq with hcompile | ⟨path', path, rfl, hcompile⟩
    · rw [h] at hcompile
      cases hcompile
      exact .inl rfl
    · rw [h] at hcompile
      cases hcompile
      exact .inr ⟨path, path', rfl, rfl⟩
  · rintro s rfl
    exact not_firstFault_unregisteredWire hfirst
  · rintro k rfl
    exact hfirst.exists_wire

/-- A graph in which the operations of three nodes are unknown. The output does not depend on the
last of these, and it reads the second before the first. -/
def unheardOf : Graph where
  arena := ⟨#[none, some (1, (Node.ofOp ⟨9, 9, 9⟩).withOutputs 1),
    some (1, ((Node.ofOp ⟨8, 8, 8⟩).addInput none).withOutputs 1),
    some (1, Node.output.addInput none), some (1, .random), some (1, .ofOp ⟨7, 7, 7⟩)], []⟩
  wires := #[⟨⟨⟨1, 1⟩, 0⟩, ⟨⟨3, 1⟩, 1⟩⟩, ⟨⟨⟨2, 1⟩, 0⟩, ⟨⟨3, 1⟩, 0⟩⟩,
    ⟨⟨⟨4, 1⟩, 0⟩, ⟨⟨2, 1⟩, 0⟩⟩]
  parameters := []

/-- The first unknown operation in the order of dependencies is reported, and nothing else counts
as the fault. -/
theorem unheardOf_reports_first :
    unheardOf.compile Catalog.table = .error (.unknownOperation ⟨2, 1⟩ ⟨8, 8, 8⟩) ∧
    ∀ e, unheardOf.FirstFault Catalog.table e → e = .unknownOperation ⟨2, 1⟩ ⟨8, 8, 8⟩ := by
  have hstructured : unheardOf.Structured :=
    structured_of_forall (by decide) (by decide) (by decide)
  obtain ⟨feeds, hfeeds⟩ := exists_feeds_iff.2 hstructured
  have hroot : unheardOf.soleOutput? = .ok ⟨3, 1⟩ := rfl
  obtain ⟨houtput, hsole⟩ := soleOutput?_eq_ok.1 hroot
  have hwalk : Dependency.walkListed (fun k => (unheardOf.feeders k).map (·.node)) 9
      [⟨⟨3, 1⟩, (unheardOf.feeders ⟨3, 1⟩).map (·.node)⟩] [] =
      some (.ok [⟨4, 1⟩, ⟨2, 1⟩, ⟨1, 1⟩, ⟨3, 1⟩]) := rfl
  have hordered := (liveOrder_eq_ok hfeeds).1 (liveOrder_of_walkListed hfeeds hwalk)
  have hdrawn : unheardOf.node? ⟨4, 1⟩ = some .random := rfl
  have hunheard : unheardOf.node? ⟨2, 1⟩ =
      some (((Node.ofOp ⟨8, 8, 8⟩).addInput none).withOutputs 1) := rfl
  have hunknown : FirstUnknown unheardOf Catalog.table [⟨4, 1⟩, ⟨2, 1⟩, ⟨1, 1⟩, ⟨3, 1⟩]
      ⟨2, 1⟩ ⟨8, 8, 8⟩ :=
    .later hdrawn (by decide +kernel) (.here hunheard (by decide +kernel))
  have hfault : unheardOf.FirstFault Catalog.table (.unknownOperation ⟨2, 1⟩ ⟨8, 8, 8⟩) :=
    .unknownOperation hstructured houtput hsole hordered hunknown
  have hcompile := hfault.compile_eq.resolve_right nofun
  obtain ⟨-, hunique, -⟩ := compile_reports_first hcompile
  refine ⟨hcompile, fun e he => (hunique e he).resolve_right ?_⟩
  rintro ⟨path, path', -, hcycle⟩
  cases hcycle

end Dataflow.Graph
