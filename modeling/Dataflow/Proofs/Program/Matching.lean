import Mathlib.Logic.Equiv.Defs
import Dataflow.Proofs.Dependency.Run
import Dataflow.Proofs.Program.Layout
import Dataflow.Proofs.Slot.Renaming

/-!
# Graphs with the same live part

Two graphs match if, with keys renamed, what the output of one depends on is what the output of the
other depends on (`Graph.LiveMatch`). The walk, the allocator and the lookups follow the renaming,
so matching graphs whose nodes and wires are in order have the same program up to the renaming
(`LiveMatch.compile_eq_ok`). Only the number of dropped nodes may differ, and what parameters are
called and start with.
-/

namespace Dataflow

/-- The output of the renamed node. -/
def OutputSocket.rename (σ : Key → Key) (s : OutputSocket) : OutputSocket := ⟨σ s.node, s.index⟩

/-- The input of the renamed node. -/
def InputSocket.rename (σ : Key → Key) (s : InputSocket) : InputSocket := ⟨σ s.node, s.index⟩

/-- The wire between the renamed nodes. -/
def Wire.rename (σ : Key → Key) (w : Wire) : Wire := ⟨w.source.rename σ, w.target.rename σ⟩

/-- The instruction of the renamed node. -/
def Instruction.rename (σ : Key → Key) (i : Instruction) : Instruction :=
  { i with source := σ i.source }

/-- The program of the renamed nodes. -/
def Program.rename (σ : Key → Key) (p : Program) : Program :=
  { p with instructions := p.instructions.map (Instruction.rename σ) }

/-- Nothing is renamed if every node keeps its key. -/
theorem Program.rename_refl (p : Program) : p.rename (Equiv.refl Key) = p := by
  have hmap : p.instructions.map (Instruction.rename (Equiv.refl Key)) = p.instructions :=
    List.map_id _
  rw [rename, hmap]

/-- A wire that is in order is in order between the renamed nodes, if these are the same. -/
theorem Wire.WellFormed.rename {g g' : Graph} {w : Wire} (h : w.WellFormed g) (σ : Key → Key)
    (hsource : g'.node? (σ w.source.node) = g.node? w.source.node)
    (htarget : g'.node? (σ w.target.node) = g.node? w.target.node) :
    (w.rename σ).WellFormed g' where
  source_lt := by
    obtain ⟨producer, hproducer, hlt⟩ := h.source_lt
    exact ⟨producer, hsource.trans hproducer, hlt⟩
  target_lt := by
    obtain ⟨consumer, hconsumer, hlt⟩ := h.target_lt
    exact ⟨consumer, htarget.trans hconsumer, hlt⟩

/-- Different outputs are renamed differently. -/
theorem OutputSocket.rename_injective {σ : Key → Key} (hσ : Function.Injective σ) :
    Function.Injective (rename σ) := by
  rintro ⟨k, index⟩ ⟨k', index'⟩ h
  obtain ⟨hk, hindex⟩ := OutputSocket.mk.inj h
  rw [OutputSocket.mk.injEq]
  exact ⟨hσ hk, hindex⟩

namespace Layout

/-- When all items are placed, a first one is, and then the others. -/
theorem exists_of_mapM_cons {α β : Type} {f : α → Layout β} {x : α} {xs : List α}
    {a last : Allocator OutputSocket} {bs : List β}
    (h : (x :: xs).mapM f a = .ok (bs, last)) :
    ∃ b a' rest, f x a = .ok (b, a') ∧ xs.mapM f a' = .ok (rest, last) ∧ bs = b :: rest := by
  cases hfirst : f x a with
  | error fault =>
      rw [mapM_cons_error hfirst] at h
      cases h
  | ok placed =>
      obtain ⟨b, a'⟩ := placed
      cases hrest : xs.mapM f a' with
      | error fault =>
          rw [mapM_cons_of_error hfirst hrest] at h
          cases h
      | ok others =>
          obtain ⟨rest, last'⟩ := others
          rw [mapM_cons hfirst hrest] at h
          cases h
          exact ⟨b, a', rest, rfl, hrest, rfl⟩

/-- If each item is placed as another one is, from an allocator that stands for the one at hand, so
are all of them. What each placement keeps of the allocator may be relied on. -/
theorem mapM_map_of_invariant {α α' β β' : Type} {f : α → Layout β} (f' : α' → Layout β')
    (τ : α → α') (ρ : β → β') (φ : Allocator OutputSocket → Allocator OutputSocket)
    (Kept : Allocator OutputSocket → Prop) {xs : List α}
    (hplace : ∀ x ∈ xs, ∀ a b a', Kept a → f x a = .ok (b, a') →
      f' (τ x) (φ a) = .ok (ρ b, φ a') ∧ Kept a')
    {a last : Allocator OutputSocket} {bs : List β} (hkept : Kept a)
    (h : xs.mapM f a = .ok (bs, last)) :
    (xs.map τ).mapM f' (φ a) = .ok (bs.map ρ, φ last) ∧ Kept last := by
  induction xs generalizing a bs with
  | nil =>
      cases h
      exact ⟨rfl, hkept⟩
  | cons x xs ih =>
      obtain ⟨b, a', rest, hfirst, hrest, rfl⟩ := exists_of_mapM_cons h
      obtain ⟨hfirst', hkept'⟩ := hplace x List.mem_cons_self _ _ _ hkept hfirst
      obtain ⟨hrest', hlast⟩ := ih (fun y hy => hplace y (List.mem_cons_of_mem _ hy)) hkept' hrest
      exact ⟨mapM_cons hfirst' hrest', hlast⟩

/-- If each item is placed as another one is, whatever the allocator, so are all of them. -/
theorem mapM_map {α α' β β' : Type} {f : α → Layout β} (f' : α' → Layout β') (τ : α → α')
    (ρ : β → β') (φ : Allocator OutputSocket → Allocator OutputSocket) {xs : List α}
    (hplace : ∀ x ∈ xs, ∀ a b a', f x a = .ok (b, a') → f' (τ x) (φ a) = .ok (ρ b, φ a'))
    {a last : Allocator OutputSocket} {bs : List β} (h : xs.mapM f a = .ok (bs, last)) :
    (xs.map τ).mapM f' (φ a) = .ok (bs.map ρ, φ last) :=
  (mapM_map_of_invariant f' τ ρ φ (fun _ => True)
    (fun x hx a b a' _ hfirst => ⟨hplace x hx a b a' hfirst, trivial⟩) trivial h).1

end Layout

namespace Wiring

variable {w w' : Wiring} {g g' : Graph} {table : Table} {σ : Key → Key} {k : Key} {n : Node}
  {a a' : Allocator OutputSocket}

/-- Placing a node finds it and its operation, and binds its inputs and then its outputs. -/
theorem exists_of_place {i : Instruction} (h : w.place g table k a = .ok (i, a')) :
    ∃ n opIndex inputSlots between outputSlots, g.node? k = some n ∧
      table.resolve n.op = some opIndex ∧
      ((List.range n.inputs.length).mapM fun index => w.bindInput n ⟨k, index⟩) a =
        .ok (inputSlots, between) ∧
      ((List.range n.outputs).mapM fun index => w.bindOutput ⟨k, index⟩) between =
        .ok (outputSlots, a') ∧
      i = {
        op := n.op, opIndex, role := n.role, source := k, literals := n.literals
        inputSlots, outputSlots, inputCache := n.defaults } := by
  unfold place at h
  cases hnode : g.node? k with
  | none =>
      rw [hnode] at h
      cases h
  | some n =>
      cases hknown : table.resolve n.op with
      | none =>
          simp only [hnode, hknown] at h
          cases h
      | some opIndex =>
          simp only [hnode, hknown, bind, StateT.bind] at h
          cases hinputs : ((List.range n.inputs.length).mapM fun index =>
              w.bindInput n ⟨k, index⟩) a with
          | error fault =>
              rw [hinputs] at h
              cases h
          | ok inputs =>
              obtain ⟨inputSlots, between⟩ := inputs
              cases houtputs : ((List.range n.outputs).mapM fun index =>
                  w.bindOutput ⟨k, index⟩) between with
              | error fault =>
                  simp only [hinputs, Except.bind, houtputs] at h
                  cases h
              | ok outputs =>
                  obtain ⟨outputSlots, last⟩ := outputs
                  simp only [hinputs, Except.bind, houtputs] at h
                  cases h
                  exact ⟨n, opIndex, inputSlots, between, outputSlots, rfl, hknown, hinputs,
                    houtputs, rfl⟩

/-- A node that is found is placed once its inputs and then its outputs are bound. -/
theorem place_of_bind {opIndex : Nat} {inputSlots outputSlots : List (Option Slot)}
    {between : Allocator OutputSocket} (hnode : g.node? k = some n)
    (hknown : table.resolve n.op = some opIndex)
    (hinputs : ((List.range n.inputs.length).mapM fun index => w.bindInput n ⟨k, index⟩) a =
      .ok (inputSlots, between))
    (houtputs : ((List.range n.outputs).mapM fun index => w.bindOutput ⟨k, index⟩) between =
      .ok (outputSlots, a')) :
    w.place g table k a = .ok ({
      op := n.op, opIndex, role := n.role, source := k, literals := n.literals
      inputSlots, outputSlots, inputCache := n.defaults }, a') := by
  simp only [place, hnode, hknown, bind, StateT.bind, hinputs, houtputs, Except.bind]
  rfl

/-- What is looked up for the renamed node is what is looked up for the node, renamed: the renamed
outputs feed the inputs, as many inputs read the outputs, and parameters have the same slots. -/
structure Matches (w w' : Wiring) (σ : Key → Key) (k : Key) : Prop where
  feeds : ∀ index, w'.feeds[(⟨σ k, index⟩ : InputSocket)]? =
    (w.feeds[(⟨k, index⟩ : InputSocket)]?).map (OutputSocket.rename σ)
  readers : ∀ index, w'.readers.getD ⟨σ k, index⟩ 0 = w.readers.getD ⟨k, index⟩ 0
  parameterSlot : ∀ id, w'.parameterSlot? id = w.parameterSlot? id

/-- An input of the renamed node gets the slot of the input. -/
theorem Matches.bindInput (h : w.Matches w' σ k) (hσ : Function.Injective σ) {index : Nat}
    {slot : Option Slot} (hbind : w.bindInput n ⟨k, index⟩ a = .ok (slot, a')) :
    w'.bindInput n ⟨σ k, index⟩ (a.rename (OutputSocket.rename σ)) =
      .ok (slot, a'.rename (OutputSocket.rename σ)) := by
  unfold Wiring.bindInput at hbind ⊢
  rw [h.feeds]
  cases hfeed : w.feeds[(⟨k, index⟩ : InputSocket)]? with
  | none =>
      simp only [hfeed, Option.map_none, h.parameterSlot] at hbind ⊢
      cases hrole : n.role <;> simp only [hrole] at hbind ⊢ <;> cases hbind <;> rfl
  | some source =>
      simp only [hfeed, Option.map_some] at hbind ⊢
      cases huse : a.use source with
      | error fault =>
          rw [huse] at hbind
          cases hbind
      | ok used =>
          obtain ⟨slot', a₁⟩ := used
          rw [huse] at hbind
          cases hbind
          rw [Allocator.use_rename (OutputSocket.rename_injective hσ) huse]

/-- An output of the renamed node gets the slot of the output. -/
theorem Matches.bindOutput (h : w.Matches w' σ k) (hσ : Function.Injective σ) {index : Nat}
    {slot : Option Slot} (hbind : w.bindOutput ⟨k, index⟩ a = .ok (slot, a')) :
    w'.bindOutput ⟨σ k, index⟩ (a.rename (OutputSocket.rename σ)) =
      .ok (slot, a'.rename (OutputSocket.rename σ)) := by
  have hregister := Allocator.register_rename (OutputSocket.rename_injective hσ) a ⟨k, index⟩
    (w.readers.getD ⟨k, index⟩ 0)
  rw [Wiring.bindOutput, Except.ok.injEq] at hbind
  rw [hbind] at hregister
  rw [Wiring.bindOutput, h.readers]
  exact congrArg Except.ok hregister

/-- The renamed node is placed as the node is. -/
theorem Matches.place (h : w.Matches w' σ k) (hσ : Function.Injective σ)
    (hnode : g'.node? (σ k) = g.node? k) {i : Instruction}
    (hplace : w.place g table k a = .ok (i, a')) :
    w'.place g' table (σ k) (a.rename (OutputSocket.rename σ)) =
      .ok (i.rename σ, a'.rename (OutputSocket.rename σ)) := by
  obtain ⟨n, opIndex, inputSlots, between, outputSlots, hn, hknown, hinputs, houtputs, rfl⟩ :=
    exists_of_place hplace
  refine place_of_bind (hnode.trans hn) hknown
    (?_ : _ = Except.ok (inputSlots, between.rename (OutputSocket.rename σ))) ?_
  · have hrenamed := Layout.mapM_map (fun index => w'.bindInput n ⟨σ k, index⟩) id id
      (.rename (OutputSocket.rename σ)) (fun _ _ _ _ _ hbind => h.bindInput hσ hbind) hinputs
    rwa [List.map_id, List.map_id] at hrenamed
  · have hrenamed := Layout.mapM_map (fun index => w'.bindOutput ⟨σ k, index⟩) id id
      (.rename (OutputSocket.rename σ)) (fun _ _ _ _ _ hbind => h.bindOutput hσ hbind) houtputs
    rwa [List.map_id, List.map_id] at hrenamed

end Wiring

namespace Graph

/-- With keys renamed, what the output of one graph depends on is what the output of the other one
depends on, and parameters have the same identities in the same order. -/
structure LiveMatch (σ : Key ≃ Key) (g g' : Graph) : Prop where
  output : ∀ k, g'.IsOutput (σ k) ↔ g.IsOutput k
  node : ∀ k, g.Live k → g'.node? (σ k) = g.node? k
  wire : ∀ w, g.Live w.target.node → (w.rename σ ∈ g'.wires ↔ w ∈ g.wires)
  identities : g'.parameters.map (·.1) = g.parameters.map (·.1)

variable {g g' : Graph} {table : Table} {feeds feeds' : Feeds} {root k : Key} {order : List Key}
  {last : Allocator OutputSocket} {p : Program} {σ : Key ≃ Key}

/-- A program is put together from the instructions of the live nodes, placed one after another. -/
theorem exists_placed_of_ok (h : g.compile table = .ok p) :
    ∃ feeds root order last instructions placed, g.Compilation table feeds root order last p ∧
      order.mapM ((g.wiring feeds order).place g table)
        (.reservedFirst g.parameters.length) = .ok (instructions, placed) ∧
      p = {
        instructions, parameters := g.placedParameters, table
        output := if instructions.isEmpty then none else some (instructions.length - 1)
        slotCount := placed.next
        stats := {
          liveNodes := instructions.length
          eliminatedNodes := g.nodeCount - instructions.length
          slotCount := placed.next
          peakLiveSlots := placed.peak } } := by
  obtain ⟨feeds, root, order, last, hcompilation⟩ := compilation_of_ok h
  refine ⟨feeds, root, order, last, ?_⟩
  cases hplaced : order.mapM ((g.wiring feeds order).place g table)
      (.reservedFirst g.parameters.length) with
  | error fault =>
      simp only [compile, hcompilation.feeds_eq, hcompilation.root_eq, hcompilation.order_eq,
        layOut_eq_error hplaced, bind, Except.bind] at h
      cases h
  | ok result =>
      have hp := h.symm.trans (compile_of_layOut_eq_ok hcompilation.feeds_eq hcompilation.root_eq
        hcompilation.order_eq (layOut_eq_ok hplaced))
      exact ⟨result.1, result.2, hcompilation, rfl, Except.ok.inj hp⟩

namespace LiveMatch

/-- The output of the other graph is the renamed one. -/
theorem soleOutput?_eq (h : g.LiveMatch σ g') (hroot : g.soleOutput? = .ok root) :
    g'.soleOutput? = .ok (σ root) := by
  obtain ⟨houtput, hsole⟩ := soleOutput?_eq_ok.1 hroot
  refine soleOutput?_eq_ok.2 ⟨(h.output root).2 houtput, fun k hk => ?_⟩
  rw [← σ.apply_symm_apply k, h.output] at hk
  rw [← hsole _ hk, σ.apply_symm_apply]

/-- The wires to a live node come from the renamed outputs. -/
theorem getElem?_feeds_eq (h : g.LiveMatch σ g') (hfeeds : g.feeds? = .ok feeds)
    (hfeeds' : g'.feeds? = .ok feeds') (hlive : g.Live k) (index : Nat) :
    feeds'[(⟨σ k, index⟩ : InputSocket)]? =
      (feeds[(⟨k, index⟩ : InputSocket)]?).map (OutputSocket.rename σ) := by
  refine Option.ext fun source' => ?_
  obtain ⟨source, rfl⟩ : ∃ source : OutputSocket, source.rename σ = source' :=
    ⟨source'.rename σ.symm, by simp [OutputSocket.rename]⟩
  have hinjective := Option.map_injective (OutputSocket.rename_injective σ.injective)
  calc feeds'[(⟨σ k, index⟩ : InputSocket)]? = some (source.rename σ)
    _ ↔ (⟨source, ⟨k, index⟩⟩ : Wire).rename σ ∈ g'.wires := getElem?_feeds hfeeds'
    _ ↔ ⟨source, ⟨k, index⟩⟩ ∈ g.wires := h.wire _ hlive
    _ ↔ feeds[(⟨k, index⟩ : InputSocket)]? = some source := (getElem?_feeds hfeeds).symm
    _ ↔ (feeds[(⟨k, index⟩ : InputSocket)]?).map (OutputSocket.rename σ) =
        some (source.rename σ) := (hinjective.eq_iff' rfl).symm

section

variable (h : g.LiveMatch σ g') (hfeeds : g.feeds? = .ok feeds) (hfeeds' : g'.feeds? = .ok feeds')
include h hfeeds hfeeds'

/-- A live node is fed by the renamed outputs. -/
theorem sources_eq (hlive : g.Live k) :
    g'.sources feeds' (σ k) = (g.sources feeds k).map (OutputSocket.rename σ) := by
  rw [sources, sources, h.node k hlive, List.map_filterMap]
  exact congrArg (List.filterMap · _)
    (funext fun index => h.getElem?_feeds_eq hfeeds hfeeds' hlive index)

/-- A live node depends on the renamed nodes. -/
theorem dependencies_eq (hlive : g.Live k) :
    g'.dependencies feeds' (σ k) = (g.dependencies feeds k).map σ := by
  rw [dependencies, dependencies, h.sources_eq hfeeds hfeeds' hlive, List.map_map, List.map_map]
  rfl

/-- The live nodes are ordered as in the other graph. -/
theorem liveOrder_eq (hroot : g.IsOutput root) (horder : g.liveOrder feeds root = .ok order) :
    g'.liveOrder feeds' (σ root) = .ok (order.map σ) := by
  have hsame : ∀ key, Dependency.Reachable (g.dependencies feeds) root key →
      g'.dependencies feeds' (σ key) = (g.dependencies feeds key).map σ := fun key hkey =>
    h.dependencies_eq hfeeds hfeeds' ⟨root, hroot, (reachable_dependencies hfeeds).1 hkey⟩
  have hrename := Dependency.order_rename σ.injective
    (g.finitelyReachable_dependencies feeds root) hsame
    (g'.finitelyReachable_dependencies feeds' (σ root))
  unfold liveOrder at horder ⊢
  rw [hrename]
  cases hlisted : Dependency.order (g.dependencies feeds) root
      (g.finitelyReachable_dependencies feeds root) with
  | error cycle =>
      rw [hlisted] at horder
      cases horder
  | ok listed =>
      rw [hlisted] at horder
      cases horder
      rfl

/-- What is looked up for a live node is the same up to the renaming. -/
theorem wiring_matches (hnodup : order.Nodup) (horder : ∀ k ∈ order, g.Live k) (hk : k ∈ order) :
    (g.wiring feeds order).Matches (g'.wiring feeds' (order.map σ)) σ k where
  feeds index := h.getElem?_feeds_eq hfeeds hfeeds' (horder k hk) index
  readers index := by
    have hread : (order.map σ).flatMap (g'.sources feeds') =
        (order.flatMap (g.sources feeds)).map (OutputSocket.rename σ) := by
      rw [List.flatMap_map, List.map_flatMap]
      exact List.flatMap_congr fun k hk => h.sources_eq hfeeds hfeeds' (horder k hk)
    rw [wiring, wiring, getD_readers hfeeds' (hnodup.map σ.injective), getD_readers hfeeds hnodup,
      hread]
    exact List.count_map_of_injective _ _ (OutputSocket.rename_injective σ.injective) ⟨k, index⟩
  parameterSlot id := find?_allocate_slot id 0 h.identities

end

/-- Graphs that match have the same program up to the renaming, if the nodes and wires of both are
in order. -/
theorem compile_eq_ok (h : g.LiveMatch σ g') (hp : g.compile table = .ok p)
    (hfeeds' : g'.feeds? = .ok feeds') :
    g'.compile table = .ok { p.rename σ with
      parameters := g'.placedParameters
      stats := { p.stats with eliminatedNodes := g'.nodeCount - p.instructions.length } } := by
  obtain ⟨feeds, root, order, last, instructions, placed, hcompilation, hplaced, rfl⟩ :=
    exists_placed_of_ok hp
  have hfeeds := hcompilation.feeds_eq
  have hlive : ∀ k ∈ order, g.Live k := fun k hk => hcompilation.mem_order.1 hk
  have horder := h.liveOrder_eq hfeeds hfeeds' (soleOutput?_eq_ok.1 hcompilation.root_eq).1
    hcompilation.order_eq
  have hplaced' := Layout.mapM_map ((g'.wiring feeds' (order.map σ)).place g' table) σ
    (Instruction.rename σ) (.rename (OutputSocket.rename σ))
    (fun k hk _ _ _ hplace =>
      (h.wiring_matches hfeeds hfeeds' hcompilation.isOrder.nodup hlive hk).place σ.injective
        (h.node k (hlive k hk)) hplace) hplaced
  have hreserved : (Allocator.reservedFirst g.parameters.length).rename (OutputSocket.rename σ) =
      .reservedFirst g'.parameters.length := by
    have hlength := congrArg List.length h.identities
    rw [List.length_map, List.length_map] at hlength
    rw [hlength]
    rfl
  rw [hreserved] at hplaced'
  rw [compile_of_layOut_eq_ok hfeeds' (h.soleOutput?_eq hcompilation.root_eq) horder
    (layOut_eq_ok hplaced')]
  simp only [Program.rename, Allocator.rename, List.isEmpty_map, List.length_map]

end LiveMatch

end Graph

end Dataflow
