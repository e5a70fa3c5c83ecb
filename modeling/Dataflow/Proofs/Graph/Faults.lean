import Mathlib.Data.Set.Card
import Dataflow.Proofs.Graph.Feeds

/-!
# The first fault of a structure

A node, a wire or a whole graph can have several faults at once. `Node.FirstFault` and
`Wire.FirstFault` say which one counts, and that what it tells of the graph is true. The checks
report it: that of the node in the first place (`Graph.findSome?_nodeFault_eq_some`), and if there
is none that of the first wire (`Graph.foldlM_addFeed_eq_error`).
-/

namespace Dataflow

/-- What counts as the fault of a node: too many sockets, then a default whose literal is missing,
then a role that does not go with the operation, then a parameter that is not declared. Of several
missing literals the one of the first input counts. -/
inductive Node.FirstFault (g : Graph) (k : Key) (n : Node) : CompileError → Prop
  | tooManySockets (sockets : 32 < n.inputs.length ∨ 32 < n.outputs) :
      FirstFault g k n (.tooManySockets k (max n.inputs.length n.outputs) 32)
  | missingLiteral {before after : List (Option Nat)} {literal : Nat}
      (sockets : n.inputs.length ≤ 32 ∧ n.outputs ≤ 32)
      (inputs : n.inputs = before ++ some literal :: after) (missing : n.literals.length ≤ literal)
      (earlier : ∀ l, some l ∈ before → l < n.literals.length) :
      FirstFault g k n (.missingLiteral ⟨k, before.length⟩ literal)
  | roleMismatch (sockets : n.inputs.length ≤ 32 ∧ n.outputs ≤ 32)
      (literals : ∀ literal, some literal ∈ n.inputs → literal < n.literals.length)
      (mismatch : ¬ (n.op = .output ↔ n.role = .output)) :
      FirstFault g k n (.roleMismatch k n.op n.role)
  | unknownParameter {id : ParameterId} (sockets : n.inputs.length ≤ 32 ∧ n.outputs ≤ 32)
      (literals : ∀ literal, some literal ∈ n.inputs → literal < n.literals.length)
      (role : n.op = .output ↔ n.role = .output) (reads : n.role = .parameterRead id)
      (undeclared : g.parameter? id = none) : FirstFault g k n (.unknownParameter k id)

/-- What counts as the fault of a wire that comes after others: its source, first the node and then
the output, then its target in the same way, and then another value for the target, from a parameter
or from an earlier wire. -/
inductive Wire.FirstFault (g : Graph) (earlier : List Wire) (w : Wire) : CompileError → Prop
  | missingProducer (producer : g.node? w.source.node = none) :
      FirstFault g earlier w (.missingNode w.source.node)
  | noSuchOutput {producer : Node} (found : g.node? w.source.node = some producer)
      (missing : producer.outputs ≤ w.source.index) :
      FirstFault g earlier w (.noSuchOutput w.source)
  | missingConsumer {producer : Node} (found : g.node? w.source.node = some producer)
      (source : w.source.index < producer.outputs) (consumer : g.node? w.target.node = none) :
      FirstFault g earlier w (.missingNode w.target.node)
  | noSuchInput {producer consumer : Node} (found : g.node? w.source.node = some producer)
      (source : w.source.index < producer.outputs)
      (found' : g.node? w.target.node = some consumer)
      (missing : consumer.inputs.length ≤ w.target.index) :
      FirstFault g earlier w (.noSuchInput w.target)
  | inputAlreadyWired {producer consumer : Node} (found : g.node? w.source.node = some producer)
      (source : w.source.index < producer.outputs)
      (found' : g.node? w.target.node = some consumer)
      (target : w.target.index < consumer.inputs.length)
      (taken : (w.target.index = 0 ∧ ∃ id, consumer.role = .parameterRead id) ∨
        ∃ other ∈ earlier, other.target = w.target) :
      FirstFault g earlier w (.inputAlreadyWired w.target)

/-! ## Nodes -/

/-- The missing literal that is found is that of the first input with one. -/
theorem Node.missingLiteral?_eq_some {n : Node} {k : Key} {e : CompileError} :
    n.missingLiteral? k = some e ↔ ∃ before literal after,
      n.inputs = before ++ some literal :: after ∧ n.literals.length ≤ literal ∧
      (∀ l, some l ∈ before → l < n.literals.length) ∧
      e = .missingLiteral ⟨k, before.length⟩ literal := by
  -- the inputs before one are those of a node that has no others
  have hearlier : ∀ before : List (Option Nat),
      { n with inputs := before }.missingLiteral? k = none ↔
        ∀ l, some l ∈ before → l < n.literals.length := fun _ => missingLiteral?_eq_none
  rw [missingLiteral?, List.findSome?_eq_some_iff]
  constructor
  · intro hfound
    obtain ⟨l, ⟨default, index⟩, l', hsplit, hfault, hnone⟩ := hfound
    obtain ⟨before, rest, hinputs, rfl, hrest⟩ := List.zipIdx_eq_append_iff.1 hsplit
    obtain ⟨default, after, rfl, hhead, -⟩ := List.zipIdx_eq_cons_iff.1 hrest.symm
    cases hhead
    cases default with
    | none => cases hfault
    | some literal =>
        simp only [Option.bind_some, Nat.zero_add, Option.ite_none_left_eq_some, Nat.not_lt,
          Option.some.injEq] at hfault
        exact ⟨before, literal, after, hinputs, hfault.1,
          (hearlier before).1 (List.findSome?_eq_none_iff.2 hnone), hfault.2.symm⟩
  · intro hparts
    obtain ⟨before, literal, after, hinputs, hmissing, hbefore, rfl⟩ := hparts
    refine ⟨before.zipIdx, (some literal, before.length), after.zipIdx (before.length + 1),
      ?_, ?_, List.findSome?_eq_none_iff.1 ((hearlier before).2 hbefore)⟩
    · rw [hinputs, List.zipIdx_append, List.zipIdx_cons, Nat.zero_add]
    · simp [hmissing]

/-- A fold that fails does so at an item, and has gone well before it. -/
theorem exists_of_foldlM_eq_error {α β ε : Type} {f : β → α → Except ε β} {items : List α} {b : β}
    {e : ε} (h : items.foldlM f b = .error e) : ∃ earlier a later b',
      items = earlier ++ a :: later ∧ earlier.foldlM f b = .ok b' ∧ f b' a = .error e := by
  induction items generalizing b with
  | nil => cases h
  | cons a rest ih =>
      rw [List.foldlM_cons] at h
      cases hstep : f b a with
      | error fault =>
          rw [hstep] at h
          cases h
          exact ⟨[], a, rest, b, rfl, rfl, hstep⟩
      | ok next =>
          rw [hstep] at h
          obtain ⟨earlier, a', later, b', rfl, hearlier, hfails⟩ := ih h
          refine ⟨a :: earlier, a', later, b', rfl, ?_, hfails⟩
          rw [List.foldlM_cons, hstep]
          exact hearlier

namespace Graph

variable {g : Graph}

/-- The fault of a node that is found is its first one. -/
theorem nodeFault?_eq_some {k : Key} {n : Node} {e : CompileError} :
    g.nodeFault? k n = some e ↔ n.FirstFault g k e := by
  unfold nodeFault?
  constructor
  · intro h
    by_cases hcount : maxSockets < max n.inputs.length n.outputs
    · simp only [if_pos hcount, Option.some.injEq] at h
      subst h
      exact .tooManySockets (by simpa [maxSockets] using hcount)
    · simp only [if_neg hcount, Option.or_eq_some_iff] at h
      have hsockets := n.not_maxSockets_lt.1 hcount
      rcases h with hliteral | ⟨hliteral, h⟩
      · obtain ⟨before, literal, after, hinputs, hmissing, hbefore, rfl⟩ :=
          Node.missingLiteral?_eq_some.1 hliteral
        exact .missingLiteral hsockets hinputs hmissing hbefore
      · have hliterals := Node.missingLiteral?_eq_none.1 hliteral
        split at h
        · rename_i hmismatch
          cases h
          exact .roleMismatch hsockets hliterals fun hrole => n.isOutput_eq_iff.2 hrole hmismatch
        · rename_i hmatch
          split at h
          · rename_i id hreads
            simp only [Option.ite_none_left_eq_some, Option.some.injEq] at h
            obtain ⟨hundeclared, rfl⟩ := h
            exact .unknownParameter hsockets hliterals (n.isOutput_eq_iff.1 hmatch) hreads
              (by simpa using hundeclared)
          · cases h
  · intro h
    cases h with
    | tooManySockets sockets => simp [maxSockets, sockets]
    | missingLiteral sockets inputs missing earlier =>
        have hliteral := Node.missingLiteral?_eq_some (k := k).2
          ⟨_, _, _, inputs, missing, earlier, rfl⟩
        simp only [if_neg (n.not_maxSockets_lt.2 sockets), hliteral, Option.some_or]
    | roleMismatch sockets literals mismatch =>
        have hmismatch := not_not.1 (mt n.isOutput_eq_iff.1 mismatch)
        simp only [if_neg (n.not_maxSockets_lt.2 sockets),
          Node.missingLiteral?_eq_none.2 literals, Option.none_or, if_pos hmismatch]
    | unknownParameter sockets literals role reads undeclared =>
        simp only [if_neg (n.not_maxSockets_lt.2 sockets),
          Node.missingLiteral?_eq_none.2 literals, Option.none_or,
          if_neg (n.isOutput_eq_iff.2 role)]
        simp only [reads, undeclared]
        rfl

/-- The nodes listed before one are those in earlier places. -/
theorem mem_before_iff {before after : List (Key × Node)} {entry other : Key × Node}
    (hsplit : g.nodes = before ++ entry :: after) :
    other ∈ before ↔ other ∈ g.nodes ∧ other.1.index < entry.1.index := by
  have hsorted : g.nodes.Pairwise fun x y => x.1.index < y.1.index := g.arena.pairwise_toList
  rw [hsplit, List.pairwise_append, List.pairwise_cons] at hsorted
  obtain ⟨-, ⟨hafter, -⟩, hbefore⟩ := hsorted
  rw [hsplit, List.mem_append, List.mem_cons]
  constructor
  · exact fun hother => ⟨.inl hother, hbefore other hother entry List.mem_cons_self⟩
  · rintro ⟨hother | rfl | hother, hlt⟩
    · exact hother
    · exact absurd hlt (Nat.lt_irrefl _)
    · exact absurd hlt (hafter other hother).asymm

/-- The first faulty node is the one of which the fault is found. -/
theorem findSome?_nodeFault_eq_some {e : CompileError} :
    (g.nodes.findSome? fun (k, n) => g.nodeFault? k n) = some e ↔
      ∃ k n, g.node? k = some n ∧ n.FirstFault g k e ∧
        ∀ k' n', g.node? k' = some n' → k'.index < k.index → n'.WellFormed g := by
  rw [List.findSome?_eq_some_iff]
  constructor
  · intro hfound
    obtain ⟨before, ⟨k, n⟩, after, hsplit, hfault, hnone⟩ := hfound
    have hn : (k, n) ∈ g.nodes := by
      rw [hsplit]
      simp
    refine ⟨k, n, Arena.mem_toList.1 hn, nodeFault?_eq_some.1 hfault, fun k' n' hn' hlt => ?_⟩
    exact nodeFault?_eq_none.1
      (hnone (k', n') ((mem_before_iff hsplit).2 ⟨Arena.mem_toList.2 hn', hlt⟩))
  · intro hfirst
    obtain ⟨k, n, hn, hfault, hfirst⟩ := hfirst
    obtain ⟨before, after, hsplit⟩ := List.append_of_mem (Arena.mem_toList.2 hn)
    refine ⟨before, (k, n), after, hsplit, nodeFault?_eq_some.2 hfault, fun other hother => ?_⟩
    obtain ⟨hlisted, hlt⟩ := (mem_before_iff hsplit).1 hother
    exact nodeFault?_eq_none.2 (hfirst other.1 other.2 (Arena.mem_toList.1 hlisted) hlt)

/-! ## Wires -/

/-- The fault of a wire that is found is its first one. -/
theorem wireFault?_eq_some {isFed : InputSocket → Bool} {earlier : List Wire} {w : Wire}
    {e : CompileError} (hfed : isFed w.target = true ↔ ∃ other ∈ earlier, other.target = w.target) :
    g.wireFault? isFed w = some e ↔ w.FirstFault g earlier e := by
  unfold wireFault?
  constructor
  · intro h
    split at h
    · rename_i hproducer
      cases h
      exact .missingProducer hproducer
    · rename_i producer hproducer
      split at h
      · rename_i hsource
        cases h
        exact .noSuchOutput hproducer hsource
      · rename_i hsource
        rw [Nat.not_le] at hsource
        split at h
        · rename_i hconsumer
          cases h
          exact .missingConsumer hproducer hsource hconsumer
        · rename_i consumer hconsumer
          split at h
          · rename_i htarget
            cases h
            exact .noSuchInput hproducer hsource hconsumer htarget
          · rename_i htarget
            rw [Nat.not_le] at htarget
            simp only [Option.ite_none_right_eq_some, Bool.or_eq_true, Option.some.injEq,
              Node.readsParameterAt_iff, hfed] at h
            obtain ⟨htaken, rfl⟩ := h
            exact .inputAlreadyWired hproducer hsource hconsumer htarget htaken
  · intro h
    cases h with
    | missingProducer producer => simp only [producer]
    | noSuchOutput found missing => simp only [found, if_pos missing]
    | missingConsumer found source consumer =>
        simp only [found, if_neg (Nat.not_le.2 source), consumer]
    | noSuchInput found source found' missing =>
        simp only [found, if_neg (Nat.not_le.2 source), found', if_pos missing]
    | inputAlreadyWired found source found' target taken =>
        rw [← Node.readsParameterAt_iff, ← hfed, ← Bool.or_eq_true] at taken
        simp only [found, if_neg (Nat.not_le.2 source), found', if_neg (Nat.not_le.2 target),
          if_pos taken]

/-- A wire is not added exactly when it is faulty. -/
theorem addFeed_eq_error {feeds : Feeds} {w : Wire} {e : CompileError} :
    g.addFeed feeds w = .error e ↔ g.wireFault? feeds.contains w = some e := by
  unfold addFeed
  cases g.wireFault? feeds.contains w <;> simp

/-- After wires have been added one by one, their targets are fed and no others are. -/
theorem contains_of_foldlM_addFeed {wires : List Wire} {feeds : Feeds}
    (h : wires.foldlM g.addFeed ∅ = .ok feeds) (target : InputSocket) :
    feeds.contains target = true ↔ ∃ w ∈ wires, w.target = target := by
  have hlookup := (foldlM_addFeed h).2 target
  simp only [Std.HashMap.getElem?_empty, reduceCtorEq, or_false] at hlookup
  rw [Std.HashMap.contains_eq_isSome_getElem?, Option.isSome_iff_exists]
  constructor
  · intro hfed
    obtain ⟨source, hsource⟩ := hfed
    exact ⟨_, (hlookup source).1 hsource, rfl⟩
  · intro hwire
    obtain ⟨w, hw, rfl⟩ := hwire
    exact ⟨w.source, (hlookup w.source).2 hw⟩

/-- Adding wires one by one fails at the first faulty one. -/
theorem foldlM_addFeed_eq_error {wires : List Wire} {e : CompileError} :
    wires.foldlM g.addFeed ∅ = .error e ↔ ∃ earlier w later, wires = earlier ++ w :: later ∧
      (∀ other ∈ earlier, other.WellFormed g) ∧ (earlier.map (·.target)).Nodup ∧
      w.FirstFault g earlier e := by
  constructor
  · intro h
    obtain ⟨earlier, w, later, feeds, hsplit, hearlier, hfault⟩ := exists_of_foldlM_eq_error h
    obtain ⟨⟨hwires, hnodup⟩, -⟩ := foldlM_addFeed hearlier
    refine ⟨earlier, w, later, hsplit, fun other hother => (hwires other hother).1, hnodup, ?_⟩
    exact (wireFault?_eq_some (contains_of_foldlM_addFeed hearlier _)).1 (addFeed_eq_error.1 hfault)
  · intro hfirst
    obtain ⟨earlier, w, later, rfl, hwires, hnodup, hfault⟩ := hfirst
    obtain ⟨feeds, hearlier⟩ := exists_foldlM_addFeed
      (fun other hother => ⟨hwires other hother, Std.HashMap.contains_empty⟩) hnodup
    have hfails := addFeed_eq_error.2
      ((wireFault?_eq_some (contains_of_foldlM_addFeed hearlier _)).2 hfault)
    rw [List.foldlM_append, hearlier]
    show (w :: later).foldlM g.addFeed feeds = _
    rw [List.foldlM_cons, hfails]
    rfl

/-! ## Structure -/

/-- What counts as the fault of the structure of a graph: that of the faulty node in the first
place, then, if all nodes are in order, that of the first faulty wire. -/
inductive StructureFault (g : Graph) (e : CompileError) : Prop
  | node {k : Key} {n : Node} (found : g.node? k = some n) (fault : n.FirstFault g k e)
      (earlier : ∀ k' n', g.node? k' = some n' → k'.index < k.index → n'.WellFormed g)
  | wire {earlier later : List Wire} {w : Wire}
      (nodes : ∀ k n, g.node? k = some n → n.WellFormed g)
      (wires : g.wires.toList = earlier ++ w :: later)
      (sound : ∀ other ∈ earlier, other.WellFormed g) (targets : (earlier.map (·.target)).Nodup)
      (fault : w.FirstFault g earlier e)

/-- The check of the structure reports what counts as its fault. -/
theorem feeds?_eq_error {e : CompileError} : g.feeds? = .error e ↔ g.StructureFault e := by
  unfold feeds?
  constructor
  · intro h
    split at h
    · rename_i fault hfault
      cases h
      obtain ⟨k, n, hn, hfirst, hearlier⟩ := findSome?_nodeFault_eq_some.1 hfault
      exact .node hn hfirst hearlier
    · rename_i hnone
      obtain ⟨earlier, w, later, hwires, hsound, htargets, hfirst⟩ := foldlM_addFeed_eq_error.1 h
      exact .wire (findSome?_nodeFault.1 hnone) hwires hsound htargets hfirst
  · intro h
    cases h with
    | node found fault earlier =>
        rw [findSome?_nodeFault_eq_some.2 ⟨_, _, found, fault, earlier⟩]
    | wire nodes wires sound targets fault =>
        rw [findSome?_nodeFault.2 nodes]
        exact foldlM_addFeed_eq_error.2 ⟨_, _, _, wires, sound, targets, fault⟩

/-! ## Outputs -/

/-- As many nodes are the output as are listed. -/
theorem ncard_isOutput : {k | g.IsOutput k}.ncard = g.outputKeys.length := by
  have hset : {k | g.IsOutput k} = (g.outputKeys.toFinset : Set Key) := by
    ext k
    simp [mem_outputKeys]
  rw [hset, Set.ncard_coe_finset, List.toFinset_card_of_nodup nodup_outputKeys]

/-- No output is found when none or several nodes are. -/
theorem soleOutput?_eq_error {e : CompileError} : g.soleOutput? = .error e ↔
    (e = .noOutputNode ∧ ∀ k, ¬ g.IsOutput k) ∨
    (e = .multipleOutputNodes {k | g.IsOutput k}.ncard ∧ 1 < {k | g.IsOutput k}.ncard) := by
  rw [ncard_isOutput]
  simp only [← mem_outputKeys]
  unfold soleOutput?
  rw [← outputKeys]
  cases g.outputKeys with
  | nil => simp [eq_comm]
  | cons k rest =>
      cases rest with
      | nil => simp
      | cons k' rest =>
          have hsome : ¬ ∀ other, other ∉ k :: k' :: rest := fun h => h k List.mem_cons_self
          simp only [hsome, and_false, false_or]
          simp [eq_comm]

end Graph

end Dataflow
