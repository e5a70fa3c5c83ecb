import Std.Data.HashSet.Lemmas
import Dataflow.Proofs.Graph.Feeds
import Dataflow.Proofs.Program.Placement

/-!
# The layout of a program

`Laid` says that nodes were placed one after another: before each node the allocator serves
the reads of the nodes that are not placed yet, and the node becomes the instruction that
`Wiring.instruction` describes. A live order can be laid out unless an operation is unknown
(`exists_laid_or_unknown`), so a `Compilation` with its layout stands behind every program
(`compilation_of_ok`), and a graph has one exactly when it is well-formed.
-/

namespace Dataflow

open Dependency (IsOrder)

/-- Nodes that are placed one after another, from the allocator before the first to the one after
the last. Before each the allocator serves what the nodes from there on read, and the node reads
placed nodes only. Placing it gives no slot to the outputs of others. -/
inductive Laid (w : Wiring) (g : Graph) (table : Table) (reserved : List Nat) :
    List Key → Allocator OutputSocket → List Key → List Instruction →
      Allocator OutputSocket → Prop
  | nil {placed : List Key} {a : Allocator OutputSocket}
      (serves : a.Serves reserved (·.node ∈ placed) []) : Laid w g table reserved placed a [] [] a
  | cons {placed rest : List Key} {a a' last : Allocator OutputSocket} {k : Key} {n : Node}
      {opIndex : Nat} {instructions : List Instruction}
      (node : g.node? k = some n) (known : table.resolve n.op = some opIndex)
      (serves : a.Serves reserved (·.node ∈ placed) ((k :: rest).flatMap (g.sources w.feeds)))
      (sources : ∀ s ∈ g.sources w.feeds k, s.node ∈ placed)
      (peak : a'.peak = max a.peak a'.live)
      (kept : ∀ s slot, s.node ≠ k → a'.slot? s = some slot → a.slot? s = some slot)
      (tail : Laid w g table reserved (placed ++ [k]) a' rest instructions last) :
      Laid w g table reserved placed a (k :: rest)
        (w.instruction n k opIndex a.slot? a'.slot? :: instructions) last

/-- The operation of a node in the list is unknown, and those of the nodes before it are known. -/
inductive FirstUnknown (g : Graph) (table : Table) : List Key → Key → OpId → Prop
  | here {k : Key} {n : Node} {rest : List Key} (node : g.node? k = some n)
      (unknown : table.resolve n.op = none) : FirstUnknown g table (k :: rest) k n.op
  | later {k k' : Key} {n : Node} {op : OpId} {rest : List Key} (node : g.node? k = some n)
      (known : (table.resolve n.op).isSome) (tail : FirstUnknown g table rest k' op) :
      FirstUnknown g table (k :: rest) k' op

namespace FirstUnknown

variable {g : Graph} {table : Table} {keys : List Key} {k : Key} {op : OpId}

/-- The node is in the list, and its operation is the unknown one. -/
theorem exists_node (h : FirstUnknown g table keys k op) :
    k ∈ keys ∧ ∃ n, g.node? k = some n ∧ n.op = op ∧ table.resolve op = none := by
  induction h with
  | here node unknown => exact ⟨List.mem_cons_self, _, node, rfl, unknown⟩
  | later _ _ _ ih => exact ⟨List.mem_cons_of_mem _ ih.1, ih.2⟩

/-- Only one node is the first. -/
theorem unique {k' : Key} {op' : OpId} (h : FirstUnknown g table keys k op)
    (h' : FirstUnknown g table keys k' op') : k' = k ∧ op' = op := by
  induction h with
  | here node unknown =>
      cases h' with
      | here node' => exact ⟨rfl, by rw [Option.some.inj (node'.symm.trans node)]⟩
      | later node' known =>
          rw [Option.some.inj (node'.symm.trans node), unknown] at known
          cases known
  | later node known _ ih =>
      cases h' with
      | here node' unknown =>
          rw [Option.some.inj (node.symm.trans node'), unknown] at known
          cases known
      | later _ _ tail => exact ih tail

end FirstUnknown

namespace Laid

variable {w : Wiring} {g : Graph} {table : Table} {reserved : List Nat} {placed rest : List Key}
  {a last : Allocator OutputSocket} {instructions : List Instruction}

/-- Before each node the allocator serves the reads that are still to come. -/
theorem serves (h : Laid w g table reserved placed a rest instructions last) :
    a.Serves reserved (·.node ∈ placed) (rest.flatMap (g.sources w.feeds)) := by
  cases h with
  | nil serves => exact serves
  | cons _ _ serves => exact serves

/-- After the last node the allocator serves no read. -/
theorem serves_last (h : Laid w g table reserved placed a rest instructions last) :
    last.Serves reserved (·.node ∈ placed ++ rest) [] := by
  induction h with
  | nil serves => simpa using serves
  | cons _ _ _ _ _ _ _ ih => simpa using ih

/-- No slot is ever withdrawn. -/
theorem next_le (h : Laid w g table reserved placed a rest instructions last) :
    a.next ≤ last.next := by
  induction h with
  | nil => exact Nat.le_refl _
  | @cons placed rest a a' last k n opIndex instructions node known serves sources peak kept
      tail ih =>
      have hnext := serves.consistent.peak_eq
      have hnext' := tail.serves.consistent.peak_eq
      omega

/-- The instructions are those of the nodes, in order. -/
theorem map_source (h : Laid w g table reserved placed a rest instructions last) :
    instructions.map (·.source) = rest := by
  induction h with
  | nil => rfl
  | cons _ _ _ _ _ _ _ ih => exact congrArg (_ :: ·) ih

/-- All operations were found. -/
theorem known_of_mem (h : Laid w g table reserved placed a rest instructions last) {k : Key}
    (hk : k ∈ rest) : ∃ n, g.node? k = some n ∧ (table.resolve n.op).isSome := by
  induction h with
  | nil => cases hk
  | cons node known _ _ _ _ _ ih =>
      rcases List.mem_cons.1 hk with rfl | hk
      · exact ⟨_, node, by simp [known]⟩
      · exact ih hk

end Laid

/-- The feeds of the inputs of some nodes are those of the graph that lead to these nodes. -/
theorem Feeds.mem_among {feeds : Feeds} {nodes : List Key} {target : InputSocket}
    {source : OutputSocket} :
    (target, source) ∈ feeds.among nodes ↔ feeds[target]? = some source ∧ target.node ∈ nodes := by
  simp only [among, List.mem_filter, Std.HashSet.contains_ofList, List.contains_iff_mem,
    Std.HashMap.mem_toList_iff_getElem?_eq_some]

/-- No input has two feeds. -/
theorem Feeds.nodup_among (feeds : Feeds) (nodes : List Key) :
    ((feeds.among nodes).map (·.1)).Nodup := by
  refine List.pairwise_map.2 ((Std.HashMap.distinct_keys_toList.filter _).imp fun hne => ?_)
  simpa using hne

/-- Declared parameters with slots from the given one on. -/
def Parameter.allocate (first : Nat) (parameters : List (ParameterId × ParameterDescription)) :
    List Parameter :=
  (parameters.zipIdx first).map fun ((id, p), index) => ⟨id, p.name, p.value, ⟨index⟩⟩

/-- The first parameter has the given slot, and the others have those after it. -/
theorem Parameter.allocate_cons (first : Nat) (id : ParameterId) (p : ParameterDescription)
    (rest : List (ParameterId × ParameterDescription)) :
    allocate first ((id, p) :: rest) =
      ⟨id, p.name, p.value, ⟨first⟩⟩ :: allocate (first + 1) rest := rfl

/-- Parameters have slots one after another. -/
theorem map_slot_allocate (first : Nat) (parameters : List (ParameterId × ParameterDescription)) :
    (Parameter.allocate first parameters).map (·.slot) =
      (List.range' first parameters.length).map Slot.mk := by
  rw [Parameter.allocate, List.map_map, ← List.zipIdx_map_snd first parameters, List.map_map]
  rfl

/-- Different parameters have different slots. -/
theorem nodup_slot_allocate (first : Nat)
    (parameters : List (ParameterId × ParameterDescription)) :
    ((Parameter.allocate first parameters).map (·.slot)).Nodup := by
  rw [map_slot_allocate]
  exact List.Nodup.map (fun _ _ heq => congrArg Slot.index heq) List.nodup_range'

/-- The slot of a parameter is one of the first. -/
theorem slot_lt_of_mem_allocate {parameters : List (ParameterId × ParameterDescription)}
    {q : Parameter} (h : q ∈ Parameter.allocate 0 parameters) :
    q.slot.index < parameters.length := by
  have hmem := List.mem_map_of_mem (f := (·.slot)) h
  rw [map_slot_allocate, List.mem_map] at hmem
  obtain ⟨index, hindex, hslot⟩ := hmem
  rw [← hslot]
  simpa using hindex

/-- The slot of a parameter depends on the identities alone. -/
theorem find?_allocate_slot (id : ParameterId) (first : Nat)
    {parameters parameters' : List (ParameterId × ParameterDescription)}
    (h : parameters.map (·.1) = parameters'.map (·.1)) :
    ((Parameter.allocate first parameters).find? (·.id = id)).map (·.slot) =
      ((Parameter.allocate first parameters').find? (·.id = id)).map (·.slot) := by
  induction parameters generalizing first parameters' with
  | nil =>
      cases parameters' with
      | nil => rfl
      | cons => cases h
  | cons entry rest ih =>
      cases parameters' with
      | nil => cases h
      | cons entry' rest' =>
          obtain ⟨key, p⟩ := entry
          obtain ⟨key', p'⟩ := entry'
          obtain ⟨rfl, hrest⟩ := List.cons.inj h
          rw [Parameter.allocate_cons, Parameter.allocate_cons, List.find?_cons, List.find?_cons]
          by_cases hkey : key = id
          · simp [hkey]
          · simp only [hkey, decide_false]
            exact ih (first + 1) hrest

namespace Graph

variable {g : Graph} {table : Table} {feeds : Feeds} {root : Key} {order : List Key}

/-- The parameters with the slots that they get. -/
def placedParameters (g : Graph) : List Parameter := Parameter.allocate 0 g.parameters

/-- What the nodes of a live order are bound with. -/
def wiring (g : Graph) (feeds : Feeds) (order : List Key) : Wiring :=
  ⟨feeds, feeds.readers order, g.placedParameters⟩

/-- An output is announced as many readers as it occurs among the sources of the nodes. -/
theorem getD_readers (hfeeds : g.feeds? = .ok feeds) {nodes : List Key} (hnodes : nodes.Nodup)
    (s : OutputSocket) :
    (feeds.readers nodes).getD s 0 = (nodes.flatMap (g.sources feeds)).count s := by
  have hmem : ∀ target, target ∈ ((feeds.among nodes).filter (·.2 == s)).map (·.1) ↔
      target.node ∈ nodes ∧ feeds[target]? = some s := by
    intro target
    simp only [List.mem_map, List.mem_filter, beq_iff_eq, Prod.exists, Feeds.mem_among]
    constructor
    · rintro ⟨_, _, ⟨⟨hfeed, hnode⟩, rfl⟩, rfl⟩
      exact ⟨hnode, hfeed⟩
    · rintro ⟨hnode, hfeed⟩
      exact ⟨target, s, ⟨⟨hfeed, hnode⟩, rfl⟩, rfl⟩
  have hnodup : (((feeds.among nodes).filter (·.2 == s)).map (·.1)).Nodup :=
    (feeds.nodup_among nodes).sublist (List.filter_sublist.map _)
  rw [count_flatMap_sources hfeeds hnodes hnodup hmem, List.length_map, Feeds.readers,
    getD_occurrences, List.count_eq_countP, List.countP_map, List.countP_eq_length_filter]
  rfl

/-- A node that is the output or feeds another exists. -/
theorem Live.exists_node {k : Key} (hwires : ∀ w ∈ g.wires, w.WellFormed g) (h : g.Live k) :
    ∃ n, g.node? k = some n := by
  obtain ⟨root, ⟨n, hn, -⟩, hreach⟩ := h
  rcases Relation.ReflTransGen.cases_tail hreach with rfl | ⟨consumer, -, w, hw, -, rfl⟩
  · exact ⟨n, hn⟩
  · obtain ⟨producer, hproducer, -⟩ := (hwires w hw).source_lt
    exact ⟨producer, hproducer⟩

section

variable (hfeeds : g.feeds? = .ok feeds)
  {placed rest : List Key} {k : Key}
  (horder : IsOrder (g.dependencies feeds) root (placed ++ k :: rest))

include horder in
/-- The nodes that feed a node stand before it. -/
theorem mem_placed_of_source {s : OutputSocket} (hs : s ∈ g.sources feeds k) :
    s.node ∈ placed :=
  horder.mem_before (List.mem_map_of_mem hs)

include horder in
/-- An output is read only after its node. -/
theorem count_sources (index : Nat) :
    ((placed ++ k :: rest).flatMap (g.sources feeds)).count ⟨k, index⟩ =
      (rest.flatMap (g.sources feeds)).count ⟨k, index⟩ := by
  have hnew : k ∉ placed := horder.not_mem_before
  have hself : (⟨k, index⟩ : OutputSocket) ∉ g.sources feeds k := fun hmem =>
    hnew (mem_placed_of_source horder hmem)
  have hbefore : (⟨k, index⟩ : OutputSocket) ∉ placed.flatMap (g.sources feeds) := by
    intro hmem
    obtain ⟨consumer, hconsumer, hs⟩ := List.mem_flatMap.1 hmem
    obtain ⟨before, after, rfl⟩ := List.append_of_mem hconsumer
    rw [List.append_assoc, List.cons_append] at horder
    exact hnew (List.mem_append_left _ (mem_placed_of_source horder hs))
  rw [List.flatMap_append, List.flatMap_cons, List.count_append, List.count_append,
    List.count_eq_zero.2 hbefore, List.count_eq_zero.2 hself, Nat.zero_add, Nat.zero_add]

include hfeeds in
/-- Only outputs that exist are read. -/
theorem index_lt_of_source {s : OutputSocket} {n : Node}
    (hs : s ∈ rest.flatMap (g.sources feeds)) (hn : g.node? s.node = some n) :
    s.index < n.outputs := by
  obtain ⟨consumer, -, hs⟩ := List.mem_flatMap.1 hs
  obtain ⟨index, hw⟩ := (mem_sources hfeeds).1 hs
  obtain ⟨producer, hproducer, hlt⟩ := (wire_of_feeds hfeeds hw).source_lt
  rw [hn] at hproducer
  cases hproducer
  exact hlt

end

/-- The readers that an output of the next node is announced are the reads of the nodes after it. -/
theorem getD_readers_wiring (hfeeds : g.feeds? = .ok feeds)
    (horder : IsOrder (g.dependencies feeds) root order) {placed rest : List Key} {k : Key}
    (hsplit : order = placed ++ k :: rest) (index : Nat) :
    (g.wiring feeds order).readers.getD ⟨k, index⟩ 0 =
      (rest.flatMap (g.sources feeds)).count ⟨k, index⟩ := by
  rw [wiring, getD_readers hfeeds horder.nodup, hsplit, count_sources (hsplit ▸ horder)]

/-- The next node of a live order is placed once its operation is found. The allocator goes on to
serve the nodes after it. -/
theorem exists_place (hfeeds : g.feeds? = .ok feeds)
    (horder : IsOrder (g.dependencies feeds) root order) {reserved : List Nat}
    {placed rest : List Key} {a : Allocator OutputSocket} {k : Key} {n : Node} {opIndex : Nat}
    (hsplit : order = placed ++ k :: rest) (hn : g.node? k = some n)
    (hknown : table.resolve n.op = some opIndex)
    (hserves : a.Serves reserved (·.node ∈ placed) ((k :: rest).flatMap (g.sources feeds))) :
    ∃ a', (g.wiring feeds order).place g table k a =
        .ok ((g.wiring feeds order).instruction n k opIndex a.slot? a'.slot?, a') ∧
      a'.Serves reserved (·.node ∈ placed ++ [k]) (rest.flatMap (g.sources feeds)) ∧
      a'.peak = max a.peak a'.live ∧
      ∀ s slot, s.node ≠ k → a'.slot? s = some slot → a.slot? s = some slot := by
  have horder' := hsplit ▸ horder
  have hserved : a.Serves reserved (·.node ∈ placed)
      (g.sources (g.wiring feeds order).feeds k ++ rest.flatMap (g.sources feeds)) :=
    hserves
  exact Wiring.place_eq_ok hn hknown hserved (fun s hs => mem_placed_of_source horder' hs)
    horder'.not_mem_before (getD_readers_wiring hfeeds horder hsplit)
    fun s hs hk => index_lt_of_source hfeeds hs (hk ▸ hn)

/-- The nodes of a live order can be placed one after another, or an operation is unknown. -/
theorem exists_laid_or_unknown (table : Table) (hfeeds : g.feeds? = .ok feeds)
    (hnode : ∀ k ∈ order, ∃ n, g.node? k = some n)
    (horder : IsOrder (g.dependencies feeds) root order) {reserved : List Nat}
    {placed rest : List Key} {a : Allocator OutputSocket} (hsplit : order = placed ++ rest)
    (hserves : a.Serves reserved (·.node ∈ placed) (rest.flatMap (g.sources feeds))) :
    (∃ instructions last,
      rest.mapM ((g.wiring feeds order).place g table) a = .ok (instructions, last) ∧
        Laid (g.wiring feeds order) g table reserved placed a rest instructions last) ∨
    ∃ k op, FirstUnknown g table rest k op ∧
      rest.mapM ((g.wiring feeds order).place g table) a = .error (.unknownOperation k op) := by
  induction rest generalizing placed a with
  | nil => exact .inl ⟨[], a, rfl, .nil hserves⟩
  | cons k rest ih =>
      obtain ⟨n, hn⟩ := hnode k (by rw [hsplit]; simp)
      cases hknown : table.resolve n.op with
      | none =>
          refine .inr ⟨k, n.op, .here hn hknown, ?_⟩
          exact Layout.mapM_cons_error (Wiring.place_eq_error hn hknown)
      | some opIndex =>
          have hsources := fun s hs => mem_placed_of_source (s := s) (hsplit ▸ horder) hs
          obtain ⟨a', hplace, hserves', hpeak, hkept⟩ :=
            exists_place hfeeds horder hsplit hn hknown hserves
          have hsplit' : order = (placed ++ [k]) ++ rest := by
            rw [hsplit, List.append_assoc, List.singleton_append]
          rcases ih hsplit' hserves' with ⟨instructions, last, hrest, hlaid⟩ |
            ⟨k', op, hunknown, hrest⟩
          · exact .inl ⟨_, last, Layout.mapM_cons hplace hrest,
              .cons hn hknown hserves hsources hpeak hkept hlaid⟩
          · exact .inr ⟨k', op, .later hn (by simp [hknown]) hunknown,
              Layout.mapM_cons_of_error hplace hrest⟩

end Graph

namespace Allocator

/-- The allocator that has reserved the first slots and nothing else. -/
def reservedFirst (count : Nat) : Allocator OutputSocket := ⟨[], [], count, count, count⟩

/-- Reserving the first slots and nothing else serves no output. -/
theorem serves_reservedFirst (count : Nat) {ready : OutputSocket → Prop}
    {pending : List OutputSocket} (hready : ∀ s, ¬ ready s) :
    (reservedFirst count).Serves (List.range count) ready pending where
  consistent := {
    keys := List.nodup_nil
    positive := fun _ h => nomatch h
    parts := by simp [reservedFirst, heldSlots]
    ascending := .nil
    live_eq := by simp [reservedFirst]
    peak_eq := rfl }
  sound _ _ h := nomatch h
  complete s h := absurd h (hready s)

end Allocator

namespace Graph

variable {g : Graph} {table : Table} {feeds : Feeds} {root : Key} {order : List Key} {p : Program}

/-- Parameters get the first slots in the order of their declaration. -/
theorem placeParameters_eq_ok : g.placeParameters .empty =
    .ok (g.placedParameters, .reservedFirst g.parameters.length) := by
  have hplace : ∀ (parameters : List (ParameterId × ParameterDescription)) (count : Nat),
      { g with parameters }.placeParameters (.reservedFirst count) =
        .ok (Parameter.allocate count parameters,
          .reservedFirst (count + parameters.length)) := by
    intro parameters
    induction parameters with
    | nil => exact fun _ => rfl
    | cons parameter rest ih =>
        intro count
        have hrest := ih (count + 1)
        rw [Nat.add_assoc, Nat.add_comm 1] at hrest
        refine Layout.mapM_cons ?_ hrest
        exact congrArg (fun peak => Except.ok (_, (⟨[], [], count + 1, count + 1, peak⟩ :
          Allocator OutputSocket))) (Nat.max_eq_right (Nat.le_succ count))
  have h := hplace g.parameters 0
  rw [Nat.zero_add] at h
  exact h

/-- What stands behind a program: the feeds of the graph, its output, an order of what the output
depends on, and the layout of its nodes. The parameters have the first slots, the output is the
instruction that comes last, and there are as many slots as were handed out. -/
structure Compilation (g : Graph) (table : Table) (feeds : Feeds) (root : Key) (order : List Key)
    (last : Allocator OutputSocket) (p : Program) : Prop where
  feeds_eq : g.feeds? = .ok feeds
  root_eq : g.soleOutput? = .ok root
  order_eq : g.liveOrder feeds root = .ok order
  laid : Laid (g.wiring feeds order) g table (List.range g.parameters.length) []
    (.reservedFirst g.parameters.length) order p.instructions last
  parameters_eq : p.parameters = g.placedParameters
  table_eq : p.table = table
  output_eq : p.output = some (p.instructions.length - 1)
  slotCount_eq : p.slotCount = last.next
  stats_eq : p.stats = {
    liveNodes := p.instructions.length
    eliminatedNodes := g.nodeCount - p.instructions.length
    slotCount := last.next
    peakLiveSlots := last.peak }

namespace Compilation

variable {last : Allocator OutputSocket} (h : g.Compilation table feeds root order last p)
include h

/-- The nodes are listed in an order in which they can run. -/
theorem isOrder : IsOrder (g.dependencies feeds) root order :=
  isOrder_liveOrder h.order_eq

/-- The nodes that are placed are the live ones. -/
theorem mem_order {k : Key} : k ∈ order ↔ g.Live k := by
  obtain ⟨hroot, hsole⟩ := soleOutput?_eq_ok.1 h.root_eq
  rw [h.isOrder.mem_iff, reachable_dependencies h.feeds_eq]
  constructor
  · exact fun hreach => ⟨root, hroot, hreach⟩
  · intro hlive
    obtain ⟨output, houtput, hreach⟩ := hlive
    exact hsole output houtput ▸ hreach

/-- The instructions stand for the nodes of the order. -/
theorem map_source : p.instructions.map (·.source) = order :=
  h.laid.map_source

/-- The nodes with instructions are the live ones. -/
theorem mem_map_source {k : Key} : k ∈ p.instructions.map (·.source) ↔ g.Live k := by
  rw [h.map_source]
  exact h.mem_order

/-- No node has two instructions. -/
theorem nodup_source : (p.instructions.map (·.source)).Nodup :=
  h.map_source ▸ h.isOrder.nodup

end Compilation

/-- A graph is laid out once its nodes are placed after the parameters. -/
theorem layOut_eq_ok {instructions : List Instruction} {last : Allocator OutputSocket}
    (hplaced : order.mapM ((g.wiring feeds order).place g table)
      (.reservedFirst g.parameters.length) = .ok (instructions, last)) :
    g.layOut table feeds order .empty = .ok ((g.placedParameters, instructions), last) := by
  simp only [layOut, bind, StateT.bind, placeParameters_eq_ok, Except.bind]
  rw [show (⟨feeds, _, g.placedParameters⟩ : Wiring) = g.wiring feeds order from rfl, hplaced]
  rfl

/-- A graph of which a node cannot be placed is not laid out. -/
theorem layOut_eq_error {fault : CompileError}
    (hplaced : order.mapM ((g.wiring feeds order).place g table)
      (.reservedFirst g.parameters.length) = .error fault) :
    g.layOut table feeds order .empty = .error fault := by
  simp only [layOut, bind, StateT.bind, placeParameters_eq_ok, Except.bind]
  rw [show (⟨feeds, _, g.placedParameters⟩ : Wiring) = g.wiring feeds order from rfl, hplaced]

/-- The program of a graph whose nodes are in order, can be ordered and were laid out. -/
theorem compile_of_layOut_eq_ok (hfeeds : g.feeds? = .ok feeds) (hroot : g.soleOutput? = .ok root)
    (horder : g.liveOrder feeds root = .ok order) {parameters : List Parameter}
    {instructions : List Instruction} {last : Allocator OutputSocket}
    (hlayOut : g.layOut table feeds order .empty = .ok ((parameters, instructions), last)) :
    g.compile table = .ok {
      instructions, parameters, table
      output := if instructions.isEmpty then none else some (instructions.length - 1)
      slotCount := last.next
      stats := {
        liveNodes := instructions.length
        eliminatedNodes := g.nodeCount - instructions.length
        slotCount := last.next
        peakLiveSlots := last.peak } } := by
  simp only [compile, hfeeds, hroot, horder, hlayOut, bind, Except.bind]
  rfl

/-- A graph whose nodes are in order and can be ordered has a program, or an operation is
unknown. -/
theorem exists_compilation_or_unknown (table : Table) (hfeeds : g.feeds? = .ok feeds)
    (hroot : g.soleOutput? = .ok root) (horder : g.liveOrder feeds root = .ok order) :
    (∃ p last, g.compile table = .ok p ∧ g.Compilation table feeds root order last p) ∨
    ∃ k op, FirstUnknown g table order k op ∧
      g.compile table = .error (.unknownOperation k op) := by
  have hisOrder := isOrder_liveOrder horder
  have hnode : ∀ k ∈ order, ∃ n, g.node? k = some n := by
    intro k hk
    have hreach := (reachable_dependencies hfeeds).1 ((hisOrder.mem_iff k).1 hk)
    exact Live.exists_node (fun w hw => wire_of_feeds hfeeds hw)
      ⟨root, (soleOutput?_eq_ok.1 hroot).1, hreach⟩
  have hserves : (Allocator.reservedFirst g.parameters.length).Serves
      (List.range g.parameters.length) (·.node ∈ ([] : List Key))
      (order.flatMap (g.sources feeds)) :=
    Allocator.serves_reservedFirst g.parameters.length (by simp)
  rcases exists_laid_or_unknown table hfeeds hnode hisOrder rfl hserves with
    ⟨instructions, last, hplaced, hlaid⟩ | ⟨k, op, hunknown, hplaced⟩
  · have hcompile := compile_of_layOut_eq_ok hfeeds hroot horder (layOut_eq_ok hplaced)
    refine .inl ⟨_, last, hcompile, hfeeds, hroot, horder, hlaid, rfl, rfl, ?_, rfl, rfl⟩
    -- the root is in the order, so there is an instruction
    have hmem : root ∈ instructions.map (·.source) := by
      rw [hlaid.map_source, hisOrder.mem_iff]
      exact .root
    have hne : instructions ≠ [] := by
      intro hnil
      rw [hnil] at hmem
      cases hmem
    show (if instructions.isEmpty then none else some _) = _
    rw [if_neg (by simpa using hne)]
  · refine .inr ⟨k, op, hunknown, ?_⟩
    simp only [compile, hfeeds, hroot, horder, layOut_eq_error hplaced, bind, Except.bind]

/-- Behind every program of a graph stands a compilation. -/
theorem compilation_of_ok (h : g.compile table = .ok p) :
    ∃ feeds root order last, g.Compilation table feeds root order last p := by
  have hparts : ∃ feeds root order, g.feeds? = .ok feeds ∧ g.soleOutput? = .ok root ∧
      g.liveOrder feeds root = .ok order := by
    unfold compile at h
    cases hfeeds : g.feeds? with
    | error => rw [hfeeds] at h; cases h
    | ok feeds =>
        cases hroot : g.soleOutput? with
        | error => rw [hfeeds, hroot] at h; cases h
        | ok root =>
            cases horder : g.liveOrder feeds root with
            | error => simp only [hfeeds, hroot, horder, bind, Except.bind] at h; cases h
            | ok order => exact ⟨feeds, root, order, rfl, rfl, horder⟩
  obtain ⟨feeds, root, order, hfeeds, hroot, horder⟩ := hparts
  -- the graph has one program, so the one that can be laid out is the given one
  rcases exists_compilation_or_unknown table hfeeds hroot horder with
    ⟨p', last, hcompile, hcompilation⟩ | ⟨k, op, -, hcompile⟩
  · rw [h] at hcompile
    cases hcompile
    exact ⟨feeds, root, order, last, hcompilation⟩
  · rw [h] at hcompile
    cases hcompile

/-- The nodes with instructions in a program of a graph are its live ones. -/
theorem mem_map_source_of_ok (h : g.compile table = .ok p) {k : Key} :
    k ∈ p.instructions.map (·.source) ↔ g.Live k := by
  obtain ⟨feeds, root, order, last, hcompilation⟩ := compilation_of_ok h
  exact hcompilation.mem_map_source

end Graph

end Dataflow
