import Dataflow.Program.Compile
import Dataflow.Proofs.Dependency.Order
import Dataflow.Proofs.Graph.WellFormed

/-!
# Feeds and live order

The feeds of a graph are its wires, looked up by their targets (`getElem?_feeds`), and there
are feeds exactly when nodes and wires are in order (`exists_feeds_iff`). So the walk from the
output follows the wires: `liveOrder` lists the live nodes, each after the nodes that feed it.
-/

namespace Dataflow.Graph

open Relation (ReflTransGen TransGen)
open Dependency (IsOrder)

variable {g : Graph}

/-- A wire is added exactly when it is in order and its target is not fed yet. -/
theorem addFeed_eq_ok {feeds feeds' : Feeds} {w : Wire} : g.addFeed feeds w = .ok feeds' ↔
    (w.WellFormed g ∧ feeds.contains w.target = false) ∧
      feeds' = feeds.insert w.target w.source := by
  unfold addFeed
  rw [← wireFault?_eq_none]
  cases g.wireFault? feeds.contains w <;> simp [eq_comm]

/-- Adding wires one by one adds all of them, unless one is not in order or two have the same
target. -/
theorem foldlM_addFeed {wires : List Wire} {feeds feeds' : Feeds}
    (h : wires.foldlM g.addFeed feeds = .ok feeds') :
    ((∀ w ∈ wires, w.WellFormed g ∧ feeds.contains w.target = false) ∧
      (wires.map (·.target)).Nodup) ∧
    ∀ target source, feeds'[target]? = some source ↔
      ⟨source, target⟩ ∈ wires ∨ feeds[target]? = some source := by
  induction wires generalizing feeds with
  | nil =>
      cases h
      simp
  | cons w rest ih =>
      rw [List.foldlM_cons] at h
      cases hadd : g.addFeed feeds w with
      | error fault =>
          rw [hadd] at h
          cases h
      | ok added =>
          rw [hadd] at h
          obtain ⟨⟨hrest, hnodup⟩, hlookup⟩ := ih h
          obtain ⟨⟨hw, hfree⟩, rfl⟩ := addFeed_eq_ok.1 hadd
          have hnew : ∀ other ∈ rest, w.target ≠ other.target ∧
              feeds.contains other.target = false := by
            intro other hother
            have := (hrest other hother).2
            rw [Std.HashMap.contains_insert, Bool.or_eq_false_iff] at this
            exact ⟨by simpa using this.1, this.2⟩
          refine ⟨⟨?_, ?_⟩, ?_⟩
          · intro other hother
            rcases List.mem_cons.1 hother with rfl | hother
            · exact ⟨hw, hfree⟩
            · exact ⟨(hrest other hother).1, (hnew other hother).2⟩
          · rw [List.map_cons, List.nodup_cons]
            refine ⟨fun hmem => ?_, hnodup⟩
            obtain ⟨other, hother, htarget⟩ := List.mem_map.1 hmem
            exact (hnew other hother).1 htarget.symm
          · intro target source
            rw [hlookup, Std.HashMap.getElem?_insert, List.mem_cons]
            -- the wire is looked up under its target alone, and nothing was there before
            by_cases htarget : w.target = target
            · subst htarget
              have hnone : feeds[w.target]? = none := by
                exact Std.HashMap.getElem?_eq_none_of_contains_eq_false hfree
              simp only [beq_self_eq_true, if_true, Option.some.injEq, hnone, reduceCtorEq,
                or_false]
              constructor
              · rintro (hmem | rfl)
                · exact .inr hmem
                · exact .inl rfl
              · rintro (heq | hmem)
                · exact .inr (congrArg Wire.source heq).symm
                · exact .inl hmem
            · have hne : (⟨source, target⟩ : Wire) ≠ w := fun heq =>
                htarget (congrArg Wire.target heq).symm
              rw [if_neg (by simpa using htarget)]
              simp [hne]

/-- Wires that are in order and have different targets can be added. -/
theorem exists_foldlM_addFeed {wires : List Wire} {feeds : Feeds}
    (hwires : ∀ w ∈ wires, w.WellFormed g ∧ feeds.contains w.target = false)
    (hnodup : (wires.map (·.target)).Nodup) :
    ∃ feeds', wires.foldlM g.addFeed feeds = .ok feeds' := by
  induction wires generalizing feeds with
  | nil => exact ⟨feeds, rfl⟩
  | cons w rest ih =>
      rw [List.map_cons, List.nodup_cons] at hnodup
      have hrest : ∀ other ∈ rest, other.WellFormed g ∧
          (feeds.insert w.target w.source).contains other.target = false := by
        intro other hother
        have hne : w.target ≠ other.target := fun heq =>
          hnodup.1 (heq ▸ List.mem_map_of_mem hother)
        obtain ⟨hwell, hfree⟩ := hwires other (List.mem_cons_of_mem _ hother)
        rw [Std.HashMap.contains_insert, hfree]
        exact ⟨hwell, by simpa using hne⟩
      obtain ⟨feeds', h⟩ := ih hrest hnodup.2
      refine ⟨feeds', ?_⟩
      rw [List.foldlM_cons, addFeed_eq_ok.2 ⟨hwires w List.mem_cons_self, rfl⟩]
      exact h

/-- No node has a fault exactly when each is in order. -/
theorem findSome?_nodeFault : (g.nodes.findSome? fun (k, n) => g.nodeFault? k n) = none ↔
    ∀ k n, g.node? k = some n → n.WellFormed g := by
  simp only [List.findSome?_eq_none_iff, Prod.forall, nodes, Arena.mem_toList,
    nodeFault?_eq_none, node?]

/-- Nodes and wires are in order, and no two wires go to the same input. -/
structure Structured (g : Graph) : Prop where
  node : ∀ k n, g.node? k = some n → n.WellFormed g
  wire : ∀ w ∈ g.wires, w.WellFormed g
  targets : (g.wires.toList.map (·.target)).Nodup

/-- Nodes and wires are in order if none of those listed is faulty. -/
theorem structured_of_forall (hnodes : ∀ entry ∈ g.nodes, g.nodeFault? entry.1 entry.2 = none)
    (hwires : ∀ w ∈ g.wires.toList, g.wireFault? (fun _ => false) w = none)
    (htargets : (g.wires.toList.map (·.target)).Nodup) : g.Structured where
  node k n hn := nodeFault?_eq_none.1 (hnodes (k, n) (Arena.mem_toList.2 hn))
  wire w hw := (wireFault?_eq_none.1 (hwires w (Array.mem_toList_iff.2 hw))).1
  targets := htargets

/-- There are feeds exactly when nodes and wires are in order. -/
theorem exists_feeds_iff : (∃ feeds, g.feeds? = .ok feeds) ↔ g.Structured := by
  unfold feeds?
  constructor
  · intro hfeeds
    obtain ⟨feeds, h⟩ := hfeeds
    split at h
    · cases h
    · rename_i hnodes
      obtain ⟨⟨hwires, hnodup⟩, -⟩ := foldlM_addFeed h
      rw [findSome?_nodeFault] at hnodes
      exact ⟨hnodes, fun w hw => (hwires w (Array.mem_toList_iff.2 hw)).1, hnodup⟩
  · intro hparts
    obtain ⟨hnodes, hwires, hnodup⟩ := hparts
    rw [findSome?_nodeFault.2 hnodes]
    exact exists_foldlM_addFeed
      (fun w hw => ⟨hwires w (Array.mem_toList_iff.1 hw), Std.HashMap.contains_empty⟩) hnodup

section

variable {feeds : Feeds} (h : g.feeds? = .ok feeds)
include h

/-- The wires of a graph with feeds are in order. -/
theorem wire_of_feeds {w : Wire} (hw : w ∈ g.wires) : w.WellFormed g :=
  (exists_feeds_iff.1 ⟨feeds, h⟩).wire w hw

/-- An output feeds an input exactly when a wire leads from one to the other. -/
theorem getElem?_feeds {source : OutputSocket} {target : InputSocket} :
    feeds[target]? = some source ↔ ⟨source, target⟩ ∈ g.wires := by
  unfold feeds? at h
  split at h
  · cases h
  · rw [(foldlM_addFeed h).2]
    simp [Array.mem_toList_iff]

/-- The outputs that feed a node are those with a wire to it. -/
theorem mem_sources {k : Key} {source : OutputSocket} :
    source ∈ g.sources feeds k ↔ ∃ index, ⟨source, ⟨k, index⟩⟩ ∈ g.wires := by
  simp only [sources, List.mem_filterMap, List.mem_range, getElem?_feeds h]
  constructor
  · intro hfed
    obtain ⟨index, -, hw⟩ := hfed
    exact ⟨index, hw⟩
  · intro hwired
    obtain ⟨index, hw⟩ := hwired
    obtain ⟨consumer, hconsumer, htarget, -⟩ := (wire_of_feeds h hw).target_lt
    refine ⟨index, ?_, hw⟩
    simpa [hconsumer] using htarget

omit h in
/-- The output that feeds an input of a node is one of those that feed the node. -/
theorem mem_sources_of_feed {k : Key} {n : Node} {index : Nat} {source : OutputSocket}
    (hn : g.node? k = some n) (hindex : index < n.inputs.length)
    (hfeed : feeds[(⟨k, index⟩ : InputSocket)]? = some source) : source ∈ g.sources feeds k := by
  rw [sources, hn]
  exact List.mem_filterMap.2 ⟨index, List.mem_range.2 hindex, hfeed⟩

/-- The inputs of a node that an output feeds. -/
def fedInputs (g : Graph) (feeds : Feeds) (s : OutputSocket) (k : Key) : List InputSocket :=
  ((List.range ((g.node? k).elim 0 (·.inputs.length))).filter fun index =>
    feeds[(⟨k, index⟩ : InputSocket)]? = some s).map (⟨k, ·⟩)

/-- An output feeds the inputs of a node of which it is the source. -/
theorem mem_fedInputs {s : OutputSocket} {k : Key} {target : InputSocket} :
    target ∈ g.fedInputs feeds s k ↔ target.node = k ∧ feeds[target]? = some s := by
  obtain ⟨node, index⟩ := target
  simp only [fedInputs, List.mem_map, List.mem_filter, List.mem_range, decide_eq_true_eq]
  constructor
  · rintro ⟨index', ⟨-, hfeed⟩, heq⟩
    cases heq
    exact ⟨rfl, hfeed⟩
  · rintro ⟨rfl, hfeed⟩
    obtain ⟨consumer, hconsumer, hlt, -⟩ :=
      (wire_of_feeds h ((getElem?_feeds h).1 hfeed)).target_lt
    refine ⟨index, ⟨?_, hfeed⟩, rfl⟩
    rw [hconsumer]
    exact hlt

omit h in
/-- No input is listed twice. -/
theorem nodup_fedInputs (s : OutputSocket) (k : Key) : (g.fedInputs feeds s k).Nodup :=
  (List.nodup_range.filter _).map fun _ _ heq => congrArg InputSocket.index heq

omit h in
/-- An output occurs among the sources of a node once for each input that it feeds. -/
theorem count_sources_eq (s : OutputSocket) (k : Key) :
    (g.sources feeds k).count s = (g.fedInputs feeds s k).length := by
  rw [sources, List.count_filterMap, List.countP_eq_length_filter, fedInputs, List.length_map]
  refine congrArg (fun p => (List.filter p _).length) (funext fun index => ?_)
  rw [Bool.eq_iff_iff]
  simp

/-- An output occurs among the sources of some nodes once for each of their inputs that it
feeds. -/
theorem count_flatMap_sources {nodes : List Key} {s : OutputSocket} {fed : List InputSocket}
    (hnodes : nodes.Nodup) (hfed : fed.Nodup)
    (hmem : ∀ target, target ∈ fed ↔ target.node ∈ nodes ∧ feeds[target]? = some s) :
    (nodes.flatMap (g.sources feeds)).count s = fed.length := by
  have hnodup : (nodes.flatMap (g.fedInputs feeds s)).Nodup := by
    refine List.nodup_flatMap.2 ⟨fun k _ => nodup_fedInputs s k, hnodes.imp fun hne => ?_⟩
    intro target hk hk'
    exact hne (((mem_fedInputs h).1 hk).1.symm.trans ((mem_fedInputs h).1 hk').1)
  -- both lists hold the inputs that the output feeds, each once
  have hperm : (nodes.flatMap (g.fedInputs feeds s)).Perm fed := by
    refine (List.perm_ext_iff_of_nodup hnodup hfed).2 fun target => ?_
    simp only [hmem, List.mem_flatMap, mem_fedInputs h]
    constructor
    · rintro ⟨k, hk, rfl, hfeed⟩
      exact ⟨hk, hfeed⟩
    · rintro ⟨hk, hfeed⟩
      exact ⟨target.node, hk, rfl, hfeed⟩
  rw [List.count_flatMap, ← hperm.length_eq, List.length_flatMap]
  exact congrArg List.sum (List.map_congr_left fun k _ => count_sources_eq s k)

/-- A node depends on the nodes whose values it has along a wire. -/
theorem mem_dependencies {k producer : Key} :
    producer ∈ g.dependencies feeds k ↔ g.Reads k producer := by
  simp only [dependencies, List.mem_map, mem_sources h, Reads]
  constructor
  · intro hsource
    obtain ⟨source, ⟨index, hw⟩, rfl⟩ := hsource
    exact ⟨_, hw, rfl, rfl⟩
  · intro hreads
    obtain ⟨⟨source, k, index⟩, hw, rfl, rfl⟩ := hreads
    exact ⟨source, ⟨index, hw⟩, rfl⟩

/-- The nodes that a node depends on are those that it reads. -/
theorem mem_dependencies_eq :
    (fun key next => next ∈ g.dependencies feeds key) = g.Reads := by
  funext key next
  exact propext (mem_dependencies h)

/-- What a node depends on is reached along wires. -/
theorem reachable_dependencies {root k : Key} :
    Dependency.Reachable (g.dependencies feeds) root k ↔ ReflTransGen g.Reads root k := by
  rw [Dependency.reachable_iff, mem_dependencies_eq h]

/-- There is an order of what a node depends on exactly when nothing of it depends on
itself. -/
theorem exists_liveOrder_iff {root : Key} : (∃ order, g.liveOrder feeds root = .ok order) ↔
    ∀ k, ReflTransGen g.Reads root k → ¬ TransGen g.Reads k k := by
  have hiff := Dependency.exists_order_iff (g.finitelyReachable_dependencies feeds root)
  simp only [reachable_dependencies h, mem_dependencies_eq h] at hiff
  rw [← hiff]
  unfold liveOrder
  split <;> simp_all

end

/-- The live order is an order of what the root depends on. -/
theorem isOrder_liveOrder {feeds : Feeds} {root : Key} {order : List Key}
    (h : g.liveOrder feeds root = .ok order) :
    IsOrder (g.dependencies feeds) root order := by
  unfold liveOrder at h
  split at h
  · rename_i listed hlisted
    cases h
    exact Dependency.isOrder_of_order _ hlisted
  · cases h

end Dataflow.Graph
