import Dataflow.Proofs.Program.Computation
import Dataflow.Proofs.Program.Unread
import Dataflow.Proofs.Runner.Requests

/-!
# Unread parameters influence nothing

Two runners are followed that hold the same programs and are asked the same, except for the values
of one parameter that no live node reads. They agree in all but the value of the parameter and the
content of its slot (`Runner.AgreeExcept`), so they give the same answers
(`Graph.unread_unseen`). Operations may do what they like and leave outputs unwritten: no
instruction reads the slot, whatever is left in the others.
-/

namespace Dataflow

/-- The requests are the same, or set the parameter to different values, or load programs of graphs
that differ in the value of the parameter and do not read it. -/
inductive Request.AgreeExcept (id : ParameterId) : Request → Request → Prop
  | act (action : Action) : AgreeExcept id (.act action) (.act action)
  | set (v v' : Value) :
      AgreeExcept id (.act (.setParameter id v)) (.act (.setParameter id v'))
  | load {g g' : Graph} {table : Table} {p p' : Program} (unread : g.Unread id)
      (same : g.AgreeExcept id g') (compiled : g.compile table = .ok p)
      (compiled' : g'.compile table = .ok p') : AgreeExcept id (.load p) (.load p')

/-- The runners are the same up to the value of a parameter and its slot, which no instruction
reads. -/
structure Runner.AgreeExcept (id : ParameterId) (r r' : Runner) : Prop where
  rest_eq : r' = { r with parameters := r'.parameters, memory := r'.memory }
  parameters : List.Forall₂ (Parameter.AgreeExcept id) r.parameters r'.parameters
  memory : r.memory.AgreeOff (SlotOf r.parameters id) r'.memory
  avoids : ∀ i ∈ r.instructions, i.Avoids (SlotOf r.parameters id)

/-- Parameters that agree up to one can be put into memories that agree off its slot. -/
theorem Memory.AgreeOff.putAll {hidden : Slot → Prop} {id : ParameterId} {m m' : Memory}
    (h : m.AgreeOff hidden m') {parameters parameters' : List Parameter}
    (hsame : List.Forall₂ (Parameter.AgreeExcept id) parameters parameters')
    (hhidden : ∀ slot, SlotOf parameters id slot → hidden slot) :
    (m.putAll parameters).AgreeOff hidden (m'.putAll parameters') := by
  induction hsame generalizing m m' with
  | nil => exact h
  | @cons q q' rest rest' hfirst _ ih =>
      obtain ⟨hq, hother⟩ := hfirst
      have hwrite : (m.write q.slot q.value).AgreeOff hidden (m'.write q'.slot q'.value) := by
        by_cases hid : q.id = id
        · have hslot : q'.slot = q.slot := by rw [hq]
          rw [hslot]
          exact h.write_hidden (hhidden _ (hid ▸ List.mem_cons_self)) _ _
        · rw [hother hid]
          exact h.write _ _
      exact ih hwrite fun slot hslot => hhidden slot (List.mem_cons_of_mem _ hslot)

/-- Changing the first item that is meant in two lists keeps a relation between their items. -/
theorem forall₂_updateFirst? {α : Type} {R : α → α → Prop} {meant : α → Bool} {f f' : α → α}
    (hmeant : ∀ a a', R a a' → meant a' = meant a)
    (hchange : ∀ a a', R a a' → meant a → R (f a) (f' a')) {items items' : List α}
    (h : List.Forall₂ R items items') : List.Forall₂ R ((updateFirst? meant f items).getD items)
      ((updateFirst? meant f' items').getD items') := by
  induction h with
  | nil => exact .nil
  | @cons a a' rest rest' hfirst hrest ih =>
      rw [getD_updateFirst?_cons, getD_updateFirst?_cons, hmeant a a' hfirst]
      split
      · rename_i ha
        exact .cons (hchange a a' hfirst ha) hrest
      · exact .cons hfirst ih

namespace Runner.AgreeExcept

variable {r r' : Runner} {p p' : Program} {id : ParameterId}

/-- Programs that agree have empty slots alike. -/
theorem fresh (h : p.AgreeExcept id p') {hidden : Slot → Prop} (source : Random.Source) :
    (Memory.fresh p.slotCount source).AgreeOff hidden (.fresh p'.slotCount source) := by
  have hslotCount : p'.slotCount = p.slotCount := by rw [h.rest_eq]
  rw [hslotCount]
  exact .refl _

/-- Runners that start with programs that agree do so themselves. -/
theorem start (h : p.AgreeExcept id p') (config : Config) (entropy : Random.Source) :
    (start p config entropy).AgreeExcept id (start p' config entropy) where
  rest_eq := by
    rw [h.rest_eq]
    rfl
  parameters := h.parameters
  memory := fresh h _
  avoids := h.avoids

/-- Runners that load programs that agree do so themselves, if they agreed in what is not loaded. -/
theorem load (h : p.AgreeExcept id p')
    (hrest : r' = { r with parameters := r'.parameters, memory := r'.memory })
    (hsource : r'.memory.source = r.memory.source) :
    (r.load p).AgreeExcept id (r'.load p') where
  rest_eq := by
    rw [hrest, h.rest_eq]
    rfl
  parameters := h.parameters
  memory := by
    show (Memory.fresh _ r.memory.source).AgreeOff _ (Memory.fresh _ r'.memory.source)
    rw [hsource]
    exact fresh h _
  avoids := h.avoids

/-- Runners of which parameters are set that agree stay alike. -/
theorem set (h : r.AgreeExcept id r') {meant : Parameter → Bool} {v v' : Value}
    (hmeant : ∀ q q', q.AgreeExcept id q' → meant q' = meant q)
    (hvalue : v' = v ∨ ∀ q, meant q → q.id = id) :
    Runner.AgreeExcept id
      { r with parameters := (updateFirst? meant (fun q => { q with value := v })
          r.parameters).getD r.parameters }
      { r' with parameters := (updateFirst? meant (fun q => { q with value := v' })
          r'.parameters).getD r'.parameters } := by
  have howned : ((updateFirst? meant (fun q => { q with value := v }) r.parameters).getD
      r.parameters).map (fun q => (q.id, q.slot)) = r.parameters.map fun q => (q.id, q.slot) :=
    map_updateFirst? meant (fun q => { q with value := v }) (fun _ => rfl) r.parameters
  have hsame : SlotOf ((updateFirst? meant (fun q => { q with value := v }) r.parameters).getD
      r.parameters) id = SlotOf r.parameters id := by
    unfold SlotOf
    rw [howned]
  have hchange : ∀ q q' : Parameter, q.AgreeExcept id q' → meant q →
      Parameter.AgreeExcept id { q with value := v } { q' with value := v' } := by
    rintro q q' ⟨hq, hother⟩ hchosen
    refine ⟨by rw [hq], fun hne => ?_⟩
    rw [hvalue.resolve_right fun hall => hne (hall q hchosen), hother hne]
  exact {
    rest_eq := by
      rw [h.rest_eq]
    parameters := forall₂_updateFirst? hmeant hchange h.parameters
    memory := hsame ▸ h.memory
    avoids := hsame ▸ h.avoids }

/-- Time may pass alike. -/
theorem wait (h : r.AgreeExcept id r') (accumulated : Float32) :
    Runner.AgreeExcept id { r with accumulated } { r' with accumulated } where
  rest_eq := by rw [h.rest_eq]
  parameters := h.parameters
  memory := h.memory
  avoids := h.avoids

/-- Runners that agree evaluate alike. -/
theorem evaluate (h : r.AgreeExcept id r') : r'.evaluate.1 = r.evaluate.1 ∧
    r.evaluate.2.AgreeExcept id r'.evaluate.2 := by
  obtain ⟨hrest, hparameters, hmemory, havoids⟩ := h
  generalize r'.parameters = parameters' at hrest hparameters
  generalize r'.memory = m' at hrest hmemory
  subst hrest
  by_cases hne : r.instructions = []
  · have hempty : r.instructions.isEmpty = true := List.isEmpty_iff.2 hne
    simp only [Runner.evaluate, hempty, if_true]
    exact ⟨trivial, rfl, hparameters, hmemory, havoids⟩
  · have hput := hmemory.putAll hparameters fun _ hslot => hslot
    have hrun : (executeAll r.table r.instructions (m'.putAll parameters')).1 =
        (executeAll r.table r.instructions (r.memory.putAll r.parameters)).1 ∧
        (executeAll r.table r.instructions (r.memory.putAll r.parameters)).2.AgreeOff
          (SlotOf r.parameters id) (executeAll r.table r.instructions (m'.putAll parameters')).2 :=
      hput.executeAll havoids
    have hne' : ({ r with parameters := parameters', memory := m' } : Runner).instructions ≠ [] :=
      hne
    rw [evaluate_of_ne_nil hne, evaluate_of_ne_nil hne']
    refine ⟨rfl, ?_, hparameters, hrun.2, avoids_executeAll havoids⟩
    simp only [hrun.1]
    rfl

/-- Runners that agree serve requests alike that do. -/
theorem serve (h : r.AgreeExcept id r') {request request' : Request}
    (hrequest : request.AgreeExcept id request') :
    (r'.serve request').1 = (r.serve request).1 ∧
      (r.serve request).2.AgreeExcept id (r'.serve request').2 := by
  cases hrequest with
  | load unread same compiled compiled' =>
      obtain ⟨p', hp', hagree⟩ := Graph.compile_agreeExcept compiled unread same
      rw [compiled'] at hp'
      cases hp'
      exact ⟨rfl, load hagree h.rest_eq h.memory.source_eq⟩
  | set v v' =>
      refine ⟨rfl, ?_⟩
      show (r.perform _).2.AgreeExcept id (r'.perform _).2
      rw [perform_setParameter, perform_setParameter]
      refine h.set (fun q q' hq => ?_) (.inr fun q hq => by simpa using hq)
      rw [hq.1]
  | act action =>
      cases action with
      | setParameter id' v =>
          refine ⟨rfl, ?_⟩
          show (r.perform _).2.AgreeExcept id (r'.perform _).2
          rw [perform_setParameter, perform_setParameter]
          refine h.set (fun q q' hq => ?_) (.inl rfl)
          rw [hq.1]
      | setParameterByName name v =>
          refine ⟨rfl, ?_⟩
          show (r.perform _).2.AgreeExcept id (r'.perform _).2
          rw [perform_setParameterByName, perform_setParameterByName]
          refine h.set (fun q q' hq => ?_) (.inl rfl)
          rw [hq.1]
      | tick delta =>
          have hadvance : r'.config.advance r'.accumulated delta =
              r.config.advance r.accumulated delta := by rw [h.rest_eq]
          show (r'.perform _).1 = (r.perform _).1 ∧ (r.perform _).2.AgreeExcept id (r'.perform _).2
          rw [perform_tick, perform_tick, hadvance]
          split
          · exact (h.wait _).evaluate
          · exact ⟨rfl, h.wait _⟩
      | evaluate => exact h.evaluate

/-- Runners that agree give the same answers to requests that do. -/
theorem answers_eq (h : r.AgreeExcept id r') {requests requests' : List Request}
    (hrequests : List.Forall₂ (Request.AgreeExcept id) requests requests') :
    r'.answers requests' = r.answers requests := by
  induction hrequests generalizing r r' with
  | nil => rfl
  | @cons request request' rest rest' hfirst _ ih =>
      obtain ⟨hevaluated, hagree⟩ := h.serve hfirst
      have houtputs : (r'.serve request').2.outputs = (r.serve request).2.outputs := by
        rw [hagree.rest_eq]
      rw [answers, answers, hevaluated, houtputs, ih hagree]

end Runner.AgreeExcept

namespace Graph

variable {g : Graph} {table : Table} {p : Program}

open Classical in
/-- Parameters that no live node reads influence nothing. A graph in which one is declared with
another value has a program, and runners that start with the two programs, or load them, give the
same answers to requests that differ at most in the values of the parameter, whatever the operations
of the table do. A compilation warns of exactly these parameters. -/
theorem unread_unseen (hp : g.compile table = .ok p) :
    (∀ id, g.Unread id → ∀ g' : Graph, g.AgreeExcept id g' → ∃ p', g'.compile table = .ok p' ∧
      ∀ requests requests' : List Request,
        List.Forall₂ (Request.AgreeExcept id) requests requests' →
          (∀ config entropy, (Runner.start p' config entropy).answers requests' =
            (Runner.start p config entropy).answers requests) ∧
          ∀ r : Runner, (r.load p').answers requests' = (r.load p).answers requests) ∧
    p.compileNotices.filter Notice.tellsUnread =
      (g.parameters.filter fun entry => g.Unread entry.1).map fun entry =>
        .unreadParameter entry.2.name := by
  refine ⟨fun id hunread g' hsame => ?_, filter_compileNotices hp⟩
  obtain ⟨p', hp', hagree⟩ := compile_agreeExcept hp hunread hsame
  refine ⟨p', hp', fun requests requests' hrequests => ⟨fun config entropy => ?_, fun r => ?_⟩⟩
  · exact (Runner.AgreeExcept.start hagree config entropy).answers_eq hrequests
  · exact (Runner.AgreeExcept.load hagree rfl rfl).answers_eq hrequests

/-- A graph that gives out one of its parameters. The node that reads the other one is not live. -/
def spared : Graph where
  arena := ⟨#[none, some (1, .parameterRead ⟨7⟩), some (1, .parameterRead ⟨8⟩), some (1, .output)],
    []⟩
  wires := #[⟨⟨⟨1, 1⟩, 0⟩, ⟨⟨3, 1⟩, 0⟩⟩]
  parameters := [(⟨7⟩, ⟨"gain", .float (.plain 2)⟩), (⟨8⟩, ⟨"spare", .float (.plain 0)⟩)]

/-- The graph with another value for the parameter that is not read. -/
def sparedAnew : Graph :=
  { spared with
    parameters := [(⟨7⟩, ⟨"gain", .float (.plain 2)⟩), (⟨8⟩, ⟨"spare", .float (.plain 5)⟩)] }

/-- The instructions of the live nodes. -/
def sparedInstructions : List Instruction :=
  [⟨.parameterRead, 17, .parameterRead ⟨7⟩, ⟨1, 1⟩, [], [some ⟨0⟩], [some ⟨2⟩], [.empty]⟩,
    ⟨.output, 0, .output, ⟨3, 1⟩, [], [some ⟨2⟩], [], [.empty]⟩]

/-- The program of the graph that gives out one of its parameters. -/
def sparedProgram : Program :=
  ⟨sparedInstructions, [⟨⟨7⟩, "gain", .float (.plain 2), ⟨0⟩⟩,
    ⟨⟨8⟩, "spare", .float (.plain 0), ⟨1⟩⟩], some 1, 3, Catalog.table, ⟨2, 1, 3, 3⟩⟩

set_option maxRecDepth 10000 in
/-- The graph that gives out one of its parameters has this program. -/
theorem compile_spared : spared.compile Catalog.table = .ok sparedProgram :=
  compile_eq_ok ⟨3, 1⟩ [⟨1, 1⟩, ⟨3, 1⟩] 7 sparedInstructions ⟨[], [2], 3, 2, 3⟩
    (by decide) (by decide) (by decide) rfl rfl rfl

open Classical in
/-- Whatever a parameter that is not read is declared with and set to, the answers are the same. -/
theorem spared_unseen : spared.Unread ⟨8⟩ ∧ spared.AgreeExcept ⟨8⟩ sparedAnew ∧
    (∃ p', sparedAnew.compile Catalog.table = .ok p' ∧
      (Runner.start p' .default (.ofSeed 1)).answers
          [.act (.setParameter ⟨8⟩ (.float (.plain 9))), .act .evaluate, .load sparedProgram,
            .act .evaluate] =
        (Runner.start sparedProgram .default (.ofSeed 1)).answers
          [.act (.setParameter ⟨8⟩ (.float (.plain 4))), .act .evaluate, .load sparedProgram,
            .act .evaluate]) ∧
    (spared.parameters.filter fun entry => spared.Unread entry.1).map
      (fun entry => Notice.unreadParameter entry.2.name) = [.unreadParameter "spare"] := by
  have hunread : spared.Unread ⟨8⟩ := by
    intro k n hlive hn hrole
    have hk : k ∈ [⟨1, 1⟩, ⟨3, 1⟩] := (mem_map_source_of_ok compile_spared).2 hlive
    simp only [List.mem_cons, List.not_mem_nil, or_false] at hk
    rcases hk with rfl | rfl <;> cases hn <;> cases hrole
  have hsame : spared.AgreeExcept ⟨8⟩ sparedAnew := by
    refine ⟨rfl, rfl, .cons ⟨rfl, fun _ => rfl⟩ (.cons ⟨rfl, fun hne => absurd rfl hne⟩ .nil)⟩
  obtain ⟨hunseen, hnotices⟩ := unread_unseen compile_spared
  obtain ⟨p', hp', hanswers⟩ := hunseen ⟨8⟩ hunread sparedAnew hsame
  refine ⟨hunread, hsame, ⟨p', hp', ?_⟩, hnotices.symm.trans rfl⟩
  exact (hanswers _ _ (.cons (.set _ _) (.cons (.act _) (.cons
    (.load hunread (.refl _ _) compile_spared compile_spared) (.cons (.act _) .nil))))).1 _ _

end Graph

end Dataflow
