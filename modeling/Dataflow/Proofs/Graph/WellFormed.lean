import Mathlib.Data.List.Nodup
import Mathlib.Logic.Relation
import Dataflow.Graph.Structure

/-!
# Well-formed graphs

`Graph.WellFormed` says of the authored nodes, wires and parameters alone when a graph has a
program: each node is in order by itself, each wire joins sockets that exist, no input has two
values, one node is the output, and what the output depends on is known and free of cycles.
The lemmas of this module tie each check of a graph to its part of the definition.
-/

namespace Dataflow

open Relation (ReflTransGen TransGen)

/-- The sockets, literals, role and parameter of a node are in order: there are at most 32 inputs
and 32 outputs, the literal that stands for an unwired input exists, the operation of the graph's
output and its role go together, and a parameter that is read is declared. -/
structure Node.WellFormed (g : Graph) (n : Node) : Prop where
  inputs_le : n.inputs.length ≤ 32
  outputs_le : n.outputs ≤ 32
  literal_lt : ∀ literal, some literal ∈ n.inputs → literal < n.literals.length
  output_iff : n.op = .output ↔ n.role = .output
  declared : ∀ id, n.role = .parameterRead id → (g.parameter? id).isSome

/-- A wire joins an output and an input that exist, and no parameter is bound to the input. -/
structure Wire.WellFormed (g : Graph) (w : Wire) : Prop where
  source_lt : ∃ producer, g.node? w.source.node = some producer ∧
    w.source.index < producer.outputs
  target_lt : ∃ consumer, g.node? w.target.node = some consumer ∧
    w.target.index < consumer.inputs.length ∧
    ¬ (w.target.index = 0 ∧ ∃ id, consumer.role = .parameterRead id)

namespace Graph

/-- The node is the output of the graph. -/
def IsOutput (g : Graph) (k : Key) : Prop :=
  ∃ n, g.node? k = some n ∧ n.op = .output

/-- A wire leads from the producer to the consumer. -/
def Reads (g : Graph) (consumer producer : Key) : Prop :=
  ∃ w ∈ g.wires, w.target.node = consumer ∧ w.source.node = producer

/-- The output of the graph depends on the node, or is it. -/
def Live (g : Graph) (k : Key) : Prop :=
  ∃ root, g.IsOutput root ∧ ReflTransGen g.Reads root k

/-- The graph has a program over the table. Every node is in order, whether the output depends on it
or not, every wire joins sockets that exist, and no two wires go to the same input. Exactly one node
is the output, nothing that it depends on depends on itself, and the operations of these nodes are
in the table. -/
structure WellFormed (g : Graph) (table : Table) : Prop where
  node : ∀ k n, g.node? k = some n → n.WellFormed g
  wire : ∀ w ∈ g.wires, w.WellFormed g
  targets : (g.wires.toList.map (·.target)).Nodup
  sole : ∃! root, g.IsOutput root
  acyclic : ∀ k, g.Live k → ¬ TransGen g.Reads k k
  known : ∀ k n, g.Live k → g.node? k = some n → (table.resolve n.op).isSome

end Graph

namespace Arena

variable {α : Type} {a : Arena α}

/-- A key finds the item that is in its place in its use. -/
theorem get?_eq_some_iff {k : Key} {x : α} :
    a.get? k = some x ↔ a.places[k.index]? = some (some (k.version, x)) := by
  rw [get?, Array.getD_eq_getD_getElem?]
  match a.places[k.index]? with
  | none => simp
  | some none => simp
  | some (some (version, y)) => simp [Option.ite_none_right_eq_some]

/-- The listed items are those that their keys find. -/
theorem mem_toList {k : Key} {x : α} : (k, x) ∈ a.toList ↔ a.get? k = some x := by
  obtain ⟨index, version⟩ := k
  simp only [toList, get?_eq_some_iff, List.mem_filterMap, Prod.exists,
    List.mem_zipIdx_iff_getElem?, Array.getElem?_toList]
  constructor
  · intro hlisted
    obtain ⟨place, i, hplace, hitem⟩ := hlisted
    obtain ⟨⟨v, y⟩, rfl, heq⟩ := Option.map_eq_some_iff.1 hitem
    cases heq
    exact hplace
  · intro hplace
    exact ⟨_, index, hplace, rfl⟩

/-- Items are listed by ascending place. -/
theorem pairwise_toList : a.toList.Pairwise fun x y => x.1.index < y.1.index := by
  have hplaces : (a.places.toList.zipIdx.map (·.2)).Pairwise (· < ·) := by
    rw [List.zipIdx_map_snd]
    exact List.pairwise_lt_range'
  rw [← List.pairwise_map (f := fun x : Key × α => x.1.index)]
  refine hplaces.sublist ?_
  unfold toList
  -- a place that is empty is passed over, and the numbers of the others are kept
  generalize a.places.toList.zipIdx = places
  induction places with
  | nil => exact List.Sublist.refl _
  | cons place rest ih =>
      obtain ⟨content, index⟩ := place
      cases content with
      | none => exact ih.cons _
      | some entry => exact ih.cons_cons _

/-- No key is listed twice. -/
theorem nodup_toList : (a.toList.map (·.1)).Nodup := by
  refine List.pairwise_map.2 (a.pairwise_toList.imp fun hlt heq => ?_)
  rw [heq] at hlt
  exact Nat.lt_irrefl _ hlt

end Arena

/-- No literal is missing exactly when every default has one. -/
theorem Node.missingLiteral?_eq_none {n : Node} {k : Key} : n.missingLiteral? k = none ↔
    ∀ literal, some literal ∈ n.inputs → literal < n.literals.length := by
  simp only [missingLiteral?, List.findSome?_eq_none_iff, Prod.forall,
    List.mem_zipIdx_iff_getElem?]
  constructor
  · intro h literal hmem
    obtain ⟨index, hindex⟩ := List.mem_iff_getElem?.1 hmem
    have := h (some literal) index hindex
    simpa using this
  · intro h default index hindex
    cases default with
    | none => rfl
    | some literal => simp [h literal (List.mem_of_getElem? hindex)]

/-- There are neither more inputs nor more outputs than are supported. -/
theorem Node.not_maxSockets_lt (n : Node) : ¬ maxSockets < max n.inputs.length n.outputs ↔
    n.inputs.length ≤ 32 ∧ n.outputs ≤ 32 := by
  simp only [maxSockets]
  omega

/-- The operation and the role are both those of the graph's output, or neither is. -/
theorem Node.isOutput_eq_iff (n : Node) : ¬ (n.isOutput != (n.role == .output)) = true ↔
    (n.op = .output ↔ n.role = .output) := by
  rw [Bool.not_eq_true, bne_eq_false_iff_eq, Bool.eq_iff_iff]
  simp [isOutput]

/-- Whether a node is in order depends on the identities of the parameters alone. -/
theorem Node.WellFormed.of_identities {g g' : Graph} {n : Node} (hn : n.WellFormed g)
    (h : g'.parameters.map (·.1) = g.parameters.map (·.1)) : n.WellFormed g' := by
  have hdeclared : ∀ {g : Graph} {id : ParameterId},
      (g.parameter? id).isSome ↔ id ∈ g.parameters.map (·.1) := by
    intro g id
    simp [Graph.parameter?, List.lookup_isSome_iff]
  refine { hn with declared := fun id hrole => ?_ }
  rw [hdeclared, h, ← hdeclared]
  exact hn.declared id hrole

/-- A parameter is bound to the first input of a parameter read. -/
theorem Node.readsParameterAt_iff {n : Node} {index : Nat} :
    n.readsParameterAt index = true ↔ index = 0 ∧ ∃ id, n.role = .parameterRead id := by
  unfold readsParameterAt
  split
  · rename_i id hrole
    simp [hrole]
  · rename_i hrole
    simpa using fun _ id => hrole id

namespace Graph

variable {g : Graph}

/-- A node without a fault is in order. -/
theorem nodeFault?_eq_none {k : Key} {n : Node} :
    g.nodeFault? k n = none ↔ n.WellFormed g := by
  unfold nodeFault?
  constructor
  · intro h
    by_cases hcount : maxSockets < max n.inputs.length n.outputs
    · simp [hcount] at h
    · simp only [if_neg hcount, Option.or_eq_none_iff] at h
      obtain ⟨hliteral, hrest⟩ := h
      by_cases hmismatch : (n.isOutput != (n.role == .output)) = true
      · simp [hmismatch] at hrest
      · rw [if_neg hmismatch] at hrest
        obtain ⟨hinputs, houtputs⟩ := n.not_maxSockets_lt.1 hcount
        refine ⟨hinputs, houtputs, Node.missingLiteral?_eq_none.1 hliteral,
          n.isOutput_eq_iff.1 hmismatch, ?_⟩
        intro id hid
        by_contra hmissing
        simp [hid, hmissing] at hrest
  · intro h
    simp only [if_neg (n.not_maxSockets_lt.2 ⟨h.inputs_le, h.outputs_le⟩), Option.or_eq_none_iff]
    refine ⟨Node.missingLiteral?_eq_none.2 h.literal_lt, ?_⟩
    rw [if_neg (n.isOutput_eq_iff.2 h.output_iff)]
    split
    · rename_i id hid
      simp [h.declared id hid]
    · rfl

/-- A wire without a fault joins sockets that exist, and nothing feeds its target yet. -/
theorem wireFault?_eq_none {isFed : InputSocket → Bool} {w : Wire} :
    g.wireFault? isFed w = none ↔ w.WellFormed g ∧ isFed w.target = false := by
  unfold wireFault?
  constructor
  · intro h
    split at h
    · cases h
    · rename_i producer hproducer
      split at h
      · cases h
      · rename_i hsource
        split at h
        · cases h
        · rename_i consumer hconsumer
          split at h
          · cases h
          · rename_i htarget
            split at h
            · cases h
            · rename_i hfree
              simp only [Bool.or_eq_true, not_or, Bool.not_eq_true] at hfree
              refine ⟨⟨⟨producer, hproducer, by omega⟩, consumer, hconsumer, by omega, ?_⟩,
                hfree.2⟩
              rw [← Node.readsParameterAt_iff]
              simp [hfree.1]
  · intro h
    obtain ⟨⟨⟨producer, hproducer, hsource⟩, consumer, hconsumer, htarget, hbound⟩, hfree⟩ := h
    rw [← Node.readsParameterAt_iff, Bool.not_eq_true] at hbound
    simp only [hproducer, hconsumer, hbound, hfree]
    rw [if_neg (by omega), if_neg (by omega)]
    rfl

/-- The nodes that are the output. -/
def outputKeys (g : Graph) : List Key := (g.nodes.filter (·.2.isOutput)).map (·.1)

/-- The nodes that are the output are listed. -/
theorem mem_outputKeys {k : Key} : k ∈ g.outputKeys ↔ g.IsOutput k := by
  simp only [outputKeys, List.mem_map, List.mem_filter, Prod.exists, nodes, Arena.mem_toList,
    IsOutput, Node.isOutput, decide_eq_true_eq, node?]
  exact ⟨fun ⟨_, n, h, rfl⟩ => ⟨n, h⟩, fun ⟨n, h⟩ => ⟨k, n, h, rfl⟩⟩

/-- No node that is the output is listed twice. -/
theorem nodup_outputKeys : g.outputKeys.Nodup :=
  Arena.nodup_toList.sublist (List.filter_sublist.map _)

/-- The output that is found is the only one. -/
theorem soleOutput?_eq_ok {root : Key} :
    g.soleOutput? = .ok root ↔ g.IsOutput root ∧ ∀ k, g.IsOutput k → k = root := by
  have hnodup := g.nodup_outputKeys
  simp only [← mem_outputKeys]
  unfold soleOutput?
  rw [← outputKeys]
  generalize g.outputKeys = outputs at hnodup
  constructor
  · intro h
    split at h <;> cases h
    exact ⟨List.mem_singleton_self root, fun k hk => List.mem_singleton.1 hk⟩
  · intro h
    obtain ⟨hroot, hsole⟩ := h
    match outputs with
    | [] => cases hroot
    | [k] => rw [hsole k List.mem_cons_self]
    | k :: k' :: rest =>
        have heq : k = k' := (hsole k (by simp)).trans (hsole k' (by simp)).symm
        simp [heq] at hnodup

end Graph

end Dataflow
