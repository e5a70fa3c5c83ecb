import Mathlib.Data.List.Induction
import Dataflow.Proofs.Program.Width

/-!
# Counting the reads of wires

While the nodes of a well-formed graph are placed, the registered wires are the outputs of placed
nodes that nodes to come still read, and each remembers how many inputs these are
(`Allocator.Accounts`). So no input asks for a wire that is not registered, no output finds itself
registered, and in the end the parameters alone hold slots (`WellFormed.exists_accounting`). The
readers of an output are announced once, counted over all feeds, and used up input by input in the
order of the nodes; that both agree before every node is `exists_placed_front`.
-/

namespace Dataflow

open Dependency (IsOrder)

/-- The inputs of some nodes to which a wire leads from an output. -/
def Graph.readersAmong (g : Graph) (nodes : List Key) (s : OutputSocket) : Finset InputSocket :=
  ((g.wires.toList.filter fun w => w.source = s ∧ w.target.node ∈ nodes).map (·.target)).toFinset

/-- The registered wires are the outputs of placed nodes that an input of the other nodes reads, and
each counts these inputs. -/
structure Allocator.Accounts (a : Allocator OutputSocket) (g : Graph) (placed rest : List Key) :
    Prop where
  registered : ∀ s, a.isRegistered s ↔ s.node ∈ placed ∧ (g.readersAmong rest s).Nonempty
  remaining : ∀ s hold, a.find? s = some hold → hold.remaining = (g.readersAmong rest s).card

namespace Graph

variable {g : Graph} {feeds : Feeds}

/-- An input reads an output if a wire leads from one to the other. -/
theorem mem_readersAmong {nodes : List Key} {s : OutputSocket} {target : InputSocket} :
    target ∈ g.readersAmong nodes s ↔ target.node ∈ nodes ∧ ⟨s, target⟩ ∈ g.wires := by
  simp only [readersAmong, List.mem_toFinset, List.mem_map, List.mem_filter, decide_eq_true_eq,
    Array.mem_toList_iff]
  constructor
  · rintro ⟨w, ⟨hw, rfl, hnode⟩, rfl⟩
    exact ⟨hnode, hw⟩
  · rintro ⟨hnode, hw⟩
    exact ⟨_, ⟨hw, rfl, hnode⟩, rfl⟩

/-- Among the sources of some nodes an output occurs once for each of their inputs that reads
it. -/
theorem card_readersAmong (hfeeds : g.feeds? = .ok feeds) {nodes : List Key} (hnodes : nodes.Nodup)
    (s : OutputSocket) :
    (g.readersAmong nodes s).card = (nodes.flatMap (g.sources feeds)).count s := by
  rw [count_flatMap_sources hfeeds hnodes (g.readersAmong nodes s).nodup_toList fun target => by
    rw [Finset.mem_toList, mem_readersAmong, getElem?_feeds hfeeds], Finset.length_toList]

end Graph

/-- A wire is registered exactly if it is ready and a read of it is pending. -/
theorem Allocator.Serves.isRegistered_iff {a : Allocator OutputSocket} {reserved : List Nat}
    {ready : OutputSocket → Prop} {pending : List OutputSocket} {s : OutputSocket}
    (h : a.Serves reserved ready pending) : a.isRegistered s ↔ ready s ∧ s ∈ pending := by
  rw [← h.slot?_isSome_iff, ← Option.isSome_iff_exists, slot?, Option.isSome_map, isRegistered]

/-- An allocator that serves the reads of the nodes to come accounts for them. -/
theorem Allocator.Serves.accounts {g : Graph} {feeds : Feeds} (hfeeds : g.feeds? = .ok feeds)
    {a : Allocator OutputSocket} {reserved : List Nat} {placed rest : List Key} (hrest : rest.Nodup)
    (h : a.Serves reserved (·.node ∈ placed) (rest.flatMap (g.sources feeds))) :
    a.Accounts g placed rest where
  registered s := by
    rw [h.isRegistered_iff, ← Finset.card_pos, Graph.card_readersAmong hfeeds hrest,
      List.count_pos_iff]
  remaining s hold hfind := by
    rw [Graph.card_readersAmong hfeeds hrest]
    exact (h.sound s hold hfind).2

namespace Wiring

/-- Binds the first inputs of a node, as `place` does with all of them. -/
def bindInputs (w : Wiring) (n : Node) (k : Key) (count : Nat) : Layout (List (Option Slot)) :=
  (List.range count).mapM fun index => w.bindInput n ⟨k, index⟩

/-- Binds the first outputs of a node, as `place` then does with all of them. -/
def bindOutputs (w : Wiring) (k : Key) (count : Nat) : Layout (List (Option Slot)) :=
  (List.range count).mapM fun index => w.bindOutput ⟨k, index⟩

/-- While a node is bound no call of the allocator goes wrong: the inputs are used one by one, then
the outputs are registered one by one. When an input comes to be bound, the wire that feeds it can
be used; when an output does, it is not registered. -/
structure BindsCleanly (w : Wiring) (n : Node) (k : Key) (a : Allocator OutputSocket) : Prop where
  use : ∀ index < n.inputs.length, ∃ slots b, w.bindInputs n k index a = .ok (slots, b) ∧
    ∀ source, w.feeds[(⟨k, index⟩ : InputSocket)]? = some source →
      ∃ slot c, b.use source = .ok (slot, c)
  register : ∀ index < n.outputs, ∃ inputs outputs b c,
    w.bindInputs n k n.inputs.length a = .ok (inputs, b) ∧
      w.bindOutputs k index b = .ok (outputs, c) ∧ c.isRegistered ⟨k, index⟩ = false

/-- The numbers below a bound are those below one of them, that one, and others. -/
theorem exists_range_eq_append {index count : Nat} (h : index < count) :
    ∃ later, List.range count = List.range index ++ index :: later := by
  refine ⟨(List.range count).drop (index + 1), ?_⟩
  conv_lhs => rw [← List.take_append_drop index (List.range count)]
  rw [List.take_range, Nat.min_eq_left h.le, List.drop_eq_getElem_cons (by simpa using h),
    List.getElem_range]

variable {w : Wiring} {g : Graph} {n : Node} {k : Key} {a : Allocator OutputSocket}
  {reserved : List Nat} {placed : List Key} {pending : List OutputSocket}

/-- A node is bound cleanly while its reads are served, if its sources are placed and it is not. -/
theorem bindsCleanly (hnode : g.node? k = some n)
    (hserves : a.Serves reserved (·.node ∈ placed) (g.sources w.feeds k ++ pending))
    (hsources : ∀ s ∈ g.sources w.feeds k, s.node ∈ placed) (hnew : k ∉ placed)
    (hreaders : ∀ index, w.readers.getD ⟨k, index⟩ 0 = pending.count ⟨k, index⟩) :
    w.BindsCleanly n k a := by
  rw [sources_of_node hnode] at hserves hsources
  have hready : ∀ index < n.inputs.length, ∀ source,
      w.feeds[(⟨k, index⟩ : InputSocket)]? = some source → source.node ∈ placed :=
    fun index hindex source hfeed =>
      hsources source (List.mem_filterMap.2 ⟨index, List.mem_range.2 hindex, hfeed⟩)
  constructor
  case use =>
    intro index hindex
    obtain ⟨later, hrange⟩ := exists_range_eq_append hindex
    rw [hrange, List.filterMap_append, List.append_assoc] at hserves
    obtain ⟨b, hbind, hservesb, -, -⟩ := bindInputs_eq_ok (n := n) _ hserves
      fun i hi => hready i ((List.mem_range.1 hi).trans hindex)
    refine ⟨_, b, hbind, fun source hfeed => ?_⟩
    rw [List.filterMap_cons, hfeed, List.cons_append] at hservesb
    obtain ⟨slot, c, -, huse, -⟩ := hservesb.use (hready index hindex source hfeed)
    exact ⟨slot, c, huse⟩
  case register =>
    intro index _
    obtain ⟨b, hinputs, hservesb, -, -⟩ := bindInputs_eq_ok (n := n) _ hserves
      fun i hi => hready i (List.mem_range.1 hi)
    obtain ⟨c, houtputs, hservesc, -, -⟩ := bindOutputs_eq_ok (w := w) (k := k)
      (List.range index) hservesb List.nodup_range (fun _ _ => hnew) hreaders
    refine ⟨_, _, b, c, hinputs, houtputs, ?_⟩
    rw [← Bool.not_eq_true, hservesc.isRegistered_iff]
    rintro ⟨hplaced | ⟨-, hbefore⟩, -⟩
    · exact hnew hplaced
    · exact List.not_mem_range_self hbefore

end Wiring

namespace Graph

variable {g : Graph} {table : Table} {feeds : Feeds} {root : Key} {order placed rest : List Key}

/-- After the first nodes of a live order the allocator serves the reads of the others. -/
theorem exists_placed_front (hfeeds : g.feeds? = .ok feeds)
    (horder : IsOrder (g.dependencies feeds) root order)
    (hknown : ∀ k ∈ order, ∃ n, g.node? k = some n ∧ (table.resolve n.op).isSome)
    (hsplit : order = placed ++ rest) : ∃ instructions a,
      placed.mapM ((g.wiring feeds order).place g table) (.reservedFirst g.parameters.length) =
        .ok (instructions, a) ∧
      a.Serves (List.range g.parameters.length) (·.node ∈ placed)
        (rest.flatMap (g.sources feeds)) := by
  induction placed using List.reverseRecOn generalizing rest with
  | nil => exact ⟨[], _, rfl, Allocator.serves_reservedFirst g.parameters.length (by simp)⟩
  | append_singleton placed k ih =>
      rw [List.append_assoc, List.singleton_append] at hsplit
      obtain ⟨instructions, a, hplaced, hserves⟩ := ih hsplit
      obtain ⟨n, hn, hop⟩ := hknown k (by rw [hsplit]; simp)
      obtain ⟨opIndex, hop⟩ := Option.isSome_iff_exists.1 hop
      obtain ⟨a', hplace, hserves', -, -⟩ := exists_place hfeeds horder hsplit hn hop hserves
      exact ⟨_, a', Layout.mapM_concat hplaced hplace, hserves'⟩

/-- The reads of wires are counted exactly while the nodes of a graph are placed in the order of
their dependencies. The live nodes are placed once each, after the parameters, and an output is
announced as many readers as inputs of live nodes read it. Before each node the allocator accounts
for the nodes from there on, and the node is bound cleanly. In the end no wire is registered, and
the slots in use are those of the parameters. -/
structure Accounting (g : Graph) (table : Table) (feeds : Feeds) (root : Key) (order : List Key) :
    Prop where
  feeds_eq : g.feeds? = .ok feeds
  root_eq : g.soleOutput? = .ok root
  order_eq : g.liveOrder feeds root = .ok order
  mem_order : ∀ k, k ∈ order ↔ g.Live k
  nodup : order.Nodup
  parameters_eq : g.placeParameters .empty =
    .ok (g.placedParameters, .reservedFirst g.parameters.length)
  announced : ∀ s, (g.wiring feeds order).readers.getD s 0 = (g.readersAmong order s).card
  before : ∀ placed k rest, order = placed ++ k :: rest → ∃ n instructions a,
    g.node? k = some n ∧
    placed.mapM ((g.wiring feeds order).place g table) (.reservedFirst g.parameters.length) =
      .ok (instructions, a) ∧
    a.Accounts g placed (k :: rest) ∧ (g.wiring feeds order).BindsCleanly n k a
  after : ∃ instructions last,
    g.layOut table feeds order .empty = .ok ((g.placedParameters, instructions), last) ∧
    (∀ s, last.isRegistered s = false) ∧ last.live = g.parameters.length

/-- Behind every program the reads of wires were counted exactly. -/
theorem Compilation.accounting {last : Allocator OutputSocket} {p : Program}
    (h : g.Compilation table feeds root order last p) : g.Accounting table feeds root order where
  feeds_eq := h.feeds_eq
  root_eq := h.root_eq
  order_eq := h.order_eq
  mem_order _ := h.mem_order
  nodup := h.isOrder.nodup
  parameters_eq := placeParameters_eq_ok
  announced s := by
    rw [wiring, getD_readers h.feeds_eq h.isOrder.nodup,
      card_readersAmong h.feeds_eq h.isOrder.nodup]
  before placed k rest hsplit := by
    have horder := hsplit ▸ h.isOrder
    have hrest : (k :: rest).Nodup := (List.nodup_append.1 horder.nodup).2.1
    obtain ⟨n, hn, -⟩ := h.laid.known_of_mem (k := k) (by rw [hsplit]; simp)
    obtain ⟨instructions, a, hplaced, hserves⟩ :=
      exists_placed_front h.feeds_eq h.isOrder (fun _ => h.laid.known_of_mem) hsplit
    refine ⟨n, instructions, a, hn, hplaced, hserves.accounts h.feeds_eq hrest, ?_⟩
    exact Wiring.bindsCleanly hn hserves (fun s hs => mem_placed_of_source horder hs)
      horder.not_mem_before (getD_readers_wiring h.feeds_eq h.isOrder hsplit)
  after := by
    obtain ⟨instructions, last, hplaced, hserves⟩ :=
      exists_placed_front h.feeds_eq h.isOrder (fun _ => h.laid.known_of_mem)
        (List.append_nil order).symm
    refine ⟨instructions, last, layOut_eq_ok hplaced, fun s => ?_, ?_⟩
    · rw [← Bool.not_eq_true, hserves.isRegistered_iff]
      rintro ⟨-, hmem⟩
      cases hmem
    · have hnone : ∀ s, s ∈ (∅ : Finset OutputSocket) ↔ s.node ∈ order ∧ s ∈ [] := by simp
      rw [hserves.live_eq hnone, List.length_range, Finset.card_empty, Nat.add_zero]

/-- The reads of wires are counted exactly while the nodes of a well-formed graph are placed. -/
theorem WellFormed.exists_accounting (h : g.WellFormed table) :
    ∃ feeds root order, g.Accounting table feeds root order := by
  obtain ⟨p, hp⟩ := h.exists_compile
  obtain ⟨feeds, root, order, last, hcompilation⟩ := compilation_of_ok hp
  exact ⟨feeds, root, order, hcompilation.accounting⟩

/-- Once the nodes of the mixture are placed, its one parameter alone holds a slot. -/
theorem mixture_random_accounting : (mixture .random).WellFormed Catalog.table ∧
    ∃ feeds order placed last, (mixture .random).feeds? = .ok feeds ∧
      (mixture .random).layOut Catalog.table feeds order .empty = .ok (placed, last) ∧
      (∀ s, last.isRegistered s = false) ∧ last.live = 1 := by
  obtain ⟨feeds, root, order, h⟩ := mixture_random_wellFormed.exists_accounting
  obtain ⟨instructions, last, hlayOut, hregistered, hlive⟩ := h.after
  exact ⟨mixture_random_wellFormed, feeds, order, _, last, h.feeds_eq, hlayOut, hregistered, hlive⟩

end Graph

end Dataflow
