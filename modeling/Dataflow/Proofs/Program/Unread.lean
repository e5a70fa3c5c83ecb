import Dataflow.Program.Notice
import Dataflow.Proofs.Program.Agreement
import Dataflow.Proofs.Program.Matching
import Dataflow.Proofs.Program.Slots

/-!
# Parameters that no live node reads

A parameter has a slot whether or not it is read. If no live node reads it, no instruction reads the
slot (`Compilation.avoids`), and the value that the parameter is declared with appears nowhere else
in the program (`compile_agreeExcept`). These are the parameters that a compilation warns of
(`filter_compileNotices`).
-/

namespace Dataflow

/-- No live node that is bound to the parameter has an input. -/
def Graph.Unread (g : Graph) (id : ParameterId) : Prop :=
  ∀ k n, g.Live k → g.node? k = some n → n.role = .parameterRead id → n.inputs = []

/-- The slot belongs to a parameter with the identity. -/
def SlotOf (parameters : List Parameter) (id : ParameterId) (slot : Slot) : Prop :=
  (id, slot) ∈ parameters.map fun q => (q.id, q.slot)

/-- The parameters are the same up to the value, and the same if the identity is another one. -/
def Parameter.AgreeExcept (id : ParameterId) (q q' : Parameter) : Prop :=
  q' = { q with value := q'.value } ∧ (q.id ≠ id → q' = q)

/-- The graphs are the same up to the value that a parameter is declared with. -/
structure Graph.AgreeExcept (id : ParameterId) (g g' : Graph) : Prop where
  arena_eq : g'.arena = g.arena
  wires_eq : g'.wires = g.wires
  parameters : List.Forall₂ (fun entry entry' =>
    entry' = (entry.1, { entry.2 with value := entry'.2.value }) ∧
      (entry.1 ≠ id → entry' = entry)) g.parameters g'.parameters

/-- The programs are the same up to the value of a parameter, of which they do not read the slot. -/
structure Program.AgreeExcept (id : ParameterId) (p p' : Program) : Prop where
  rest_eq : p' = { p with parameters := p'.parameters }
  parameters : List.Forall₂ (Parameter.AgreeExcept id) p.parameters p'.parameters
  avoids : ∀ i ∈ p.instructions, i.Avoids (SlotOf p.parameters id)

/-- The notice tells that a parameter is not read. -/
def Notice.tellsUnread : Notice → Bool
  | .unreadParameter _ => true
  | _ => false

/-- Parameters that are declared with the same values up to one get slots alike. -/
theorem forall₂_allocate {id : ParameterId} (first : Nat)
    {parameters parameters' : List (ParameterId × ParameterDescription)}
    (h : List.Forall₂ (fun entry entry' =>
      entry' = (entry.1, { entry.2 with value := entry'.2.value }) ∧
        (entry.1 ≠ id → entry' = entry)) parameters parameters') :
    List.Forall₂ (Parameter.AgreeExcept id) (Parameter.allocate first parameters)
      (Parameter.allocate first parameters') := by
  induction h generalizing first with
  | nil => exact .nil
  | @cons entry entry' rest rest' hfirst _ ih =>
      obtain ⟨key, q⟩ := entry
      obtain ⟨key', q'⟩ := entry'
      obtain ⟨hsame, hother⟩ := hfirst
      obtain ⟨rfl, hq⟩ := Prod.mk.inj hsame
      refine .cons ⟨?_, fun hne => ?_⟩ (ih (first + 1))
      · show (⟨key', q'.name, q'.value, ⟨first⟩⟩ : Parameter) = ⟨key', q.name, q'.value, ⟨first⟩⟩
        rw [congrArg ParameterDescription.name hq]
      · show (⟨key', q'.name, q'.value, ⟨first⟩⟩ : Parameter) = ⟨key', q.name, q.value, ⟨first⟩⟩
        rw [(Prod.mk.inj (hother hne)).2]

/-- Which parameters with slots are chosen by their identity depends on the declaration alone. -/
theorem map_name_filter_allocate (chosen : ParameterId → Bool) (first : Nat)
    (parameters : List (ParameterId × ParameterDescription)) :
    ((Parameter.allocate first parameters).filter fun q => chosen q.id).map (·.name) =
      (parameters.filter fun entry => chosen entry.1).map (·.2.name) := by
  induction parameters generalizing first with
  | nil => rfl
  | cons entry rest ih =>
      obtain ⟨key, q⟩ := entry
      show (List.filter _ (⟨key, q.name, q.value, ⟨first⟩⟩ :: Parameter.allocate (first + 1) rest)
        |>.map _) = _
      rw [List.filter_cons, List.filter_cons]
      cases hkey : chosen key with
      | false => simpa [hkey] using ih (first + 1)
      | true => simpa [hkey] using ih (first + 1)

namespace Graph

variable {g g' : Graph} {table : Table} {p : Program} {id : ParameterId}

namespace Compilation

variable {feeds : Feeds} {root : Key} {order : List Key} {last : Allocator OutputSocket}
  (h : g.Compilation table feeds root order last p)
include h

/-- No instruction reads the slot of a parameter that no live node reads. -/
theorem avoids (hunread : g.Unread id) {i : Instruction} (hi : i ∈ p.instructions) :
    i.Avoids (SlotOf p.parameters id) := by
  intro slot hslot howned
  obtain ⟨q, hq, heq⟩ := List.mem_map.1 howned
  obtain ⟨rfl, rfl⟩ := Prod.mk.inj heq
  obtain ⟨index, hslot⟩ := List.mem_iff_getElem?.1 hslot
  rcases h.inputSlot_cases hi hslot with
    ⟨w, -, -, before, producer, between, after, -, -, -, hapart⟩ | ⟨id, q', rfl, hrole, hq', hslot'⟩
  · exact hapart q hq rfl
  · -- slots are not shared, so the parameter that the instruction stands for is this one
    have hnodup : (p.parameters.map (·.slot)).Nodup := h.parameters_eq ▸ nodup_slot_allocate 0 _
    obtain rfl := List.inj_on_of_nodup_map hnodup (List.mem_of_find?_eq_some hq') hq hslot'
    have hid : q'.id = id := by simpa using List.find?_some hq'
    obtain ⟨hlive, n, hn⟩ := h.exists_node hi
    have hinputs := (h.length_slots hi hn).1
    have hnone := hunread i.source n hlive hn ((h.node_eq hi hn).2.1.symm.trans (hid ▸ hrole))
    rw [hnone] at hinputs
    exact absurd (List.getElem?_eq_some_iff.1 hslot).1 (by rw [hinputs]; exact Nat.lt_irrefl 0)

/-- A parameter is read exactly if a live node reads it. -/
theorem reads_eq_false : p.reads id = false ↔ g.Unread id := by
  simp only [Program.reads, List.any_eq_false, Instruction.reads, Bool.and_eq_true, beq_iff_eq,
    Bool.not_eq_true', List.isEmpty_eq_false_iff, not_and, not_not]
  constructor
  · intro hreads k n hlive hn hrole
    rw [← h.mem_map_source] at hlive
    obtain ⟨i, hi, rfl⟩ := List.mem_map.1 hlive
    have hinputs := (h.length_slots hi hn).1
    have hnone := hreads i hi ((h.node_eq hi hn).2.1.trans hrole)
    rwa [hnone, List.length_nil, eq_comm, List.length_eq_zero_iff] at hinputs
  · intro hunread i hi hrole
    obtain ⟨hlive, n, hn⟩ := h.exists_node hi
    have hinputs := (h.length_slots hi hn).1
    rw [hunread i.source n hlive hn ((h.node_eq hi hn).2.1.symm.trans hrole)] at hinputs
    exact List.length_eq_zero_iff.1 hinputs

end Compilation

namespace AgreeExcept

/-- Every graph agrees with itself. -/
theorem refl (id : ParameterId) (g : Graph) : g.AgreeExcept id g where
  arena_eq := rfl
  wires_eq := rfl
  parameters := List.forall₂_same.2 fun _ _ => ⟨rfl, fun _ => rfl⟩

/-- The identities of the parameters are the same. -/
theorem identities_eq (h : g.AgreeExcept id g') :
    g'.parameters.map (·.1) = g.parameters.map (·.1) := by
  have hsame : List.Forall₂ (· = ·) (g.parameters.map (·.1)) (g'.parameters.map (·.1)) := by
    rw [List.forall₂_map_left_iff, List.forall₂_map_right_iff]
    exact h.parameters.imp fun entry entry' hentry => by rw [hentry.1]
  rw [List.forall₂_eq_eq_eq] at hsame
  exact hsame.symm

/-- What the outputs depend on is the same. -/
theorem liveMatch (h : g.AgreeExcept id g') : g.LiveMatch (Equiv.refl Key) g' where
  output k := by
    rw [IsOutput, IsOutput, node?, node?, h.arena_eq]
    rfl
  node k _ := by
    rw [node?, node?, h.arena_eq]
    rfl
  wire w _ := by
    rw [h.wires_eq]
    rfl
  identities := h.identities_eq

/-- If the nodes and wires of a graph are in order, so are those of the other one. -/
theorem exists_feeds (h : g.AgreeExcept id g') (hfeeds : ∃ feeds, g.feeds? = .ok feeds) :
    ∃ feeds', g'.feeds? = .ok feeds' := by
  have hnode : ∀ k, g'.node? k = g.node? k := fun k => by rw [node?, node?, h.arena_eq]
  obtain ⟨hnodes, hwires, htargets⟩ := exists_feeds_iff.1 hfeeds
  refine exists_feeds_iff.2 ⟨fun k n hn => ?_, fun w hw => ?_, ?_⟩
  · rw [hnode] at hn
    exact (hnodes k n hn).of_identities h.identities_eq
  · rw [h.wires_eq] at hw
    exact (hwires w hw).rename (fun k => k) (hnode _) (hnode _)
  · rwa [h.wires_eq]

end AgreeExcept

/-- A graph in which an unread parameter is declared with another value has the same program up to
the value of the parameter. -/
theorem compile_agreeExcept (hp : g.compile table = .ok p) (hunread : g.Unread id)
    (hsame : g.AgreeExcept id g') : ∃ p', g'.compile table = .ok p' ∧ p.AgreeExcept id p' := by
  obtain ⟨feeds, _, _, _, hcompilation⟩ := compilation_of_ok hp
  obtain ⟨feeds', hfeeds'⟩ := hsame.exists_feeds ⟨feeds, hcompilation.feeds_eq⟩
  have hcompile := hsame.liveMatch.compile_eq_ok hp hfeeds'
  have hdropped : g'.nodeCount - p.instructions.length = p.stats.eliminatedNodes := by
    rw [nodeCount, hsame.arena_eq, hcompilation.stats_eq]
    rfl
  rw [Program.rename_refl, hdropped] at hcompile
  refine ⟨_, hcompile, rfl, ?_, fun i hi => hcompilation.avoids hunread hi⟩
  rw [hcompilation.parameters_eq]
  exact forall₂_allocate 0 hsame.parameters

open Classical in
/-- A compilation tells in the order of their declaration which parameters no live node reads. -/
theorem filter_compileNotices (hp : g.compile table = .ok p) :
    p.compileNotices.filter Notice.tellsUnread =
      (g.parameters.filter fun entry => g.Unread entry.1).map fun entry =>
        .unreadParameter entry.2.name := by
  obtain ⟨feeds, _, _, _, hcompilation⟩ := compilation_of_ok hp
  have hchosen : ∀ id, (!p.reads id) = decide (g.Unread id) := by
    intro id
    rw [Bool.eq_iff_iff, Bool.not_eq_true', hcompilation.reads_eq_false, decide_eq_true_eq]
  have htold : ((p.parameters.filter fun q => !p.reads q.id).map fun q =>
      Notice.unreadParameter q.name).filter Notice.tellsUnread =
        (g.parameters.filter fun entry => g.Unread entry.1).map fun entry =>
          .unreadParameter entry.2.name := by
    have hnames := congrArg (List.map Notice.unreadParameter)
      (map_name_filter_allocate (fun id => !p.reads id) 0 g.parameters)
    rw [← placedParameters] at hnames
    simp only [List.map_map, Function.comp_def, hchosen] at hnames
    rw [hcompilation.parameters_eq, List.filter_eq_self.2]
    · simpa only [hchosen] using hnames
    · intro notice hnotice
      obtain ⟨q, -, rfl⟩ := List.mem_map.1 hnotice
      rfl
  -- the other notices are about the output and about what was done
  rw [Program.compileNotices, List.filter_append, List.filter_append, htold]
  split
  · split <;> simp [Notice.tellsUnread]
  · simp [Notice.tellsUnread]

end Graph

end Dataflow
