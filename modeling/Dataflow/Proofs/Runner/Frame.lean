import Dataflow.Proofs.Program.Liveness
import Dataflow.Proofs.Runner.Ticks

/-!
# What requests leave alone

What a runner publishes, its slots and the cached inputs of its instructions change only in an
evaluation that is reported, or when another program is loaded, and every report counts once
(`Runner.Framed`). After an evaluation as many numbers are published as the output of the program
that was loaded last has inputs (`Runner.served_frames`).
-/

namespace Dataflow

/-- The first item that is meant is changed, and no other. -/
theorem updateFirst?_eq_some {α : Type} {meant : α → Bool} {f : α → α} {items items' : List α} :
    updateFirst? meant f items = some items' ↔ ∃ before a after,
      items = before ++ a :: after ∧ (∀ b ∈ before, meant b = false) ∧ meant a = true ∧
        items' = before ++ f a :: after := by
  induction items generalizing items' with
  | nil =>
      constructor
      · intro h
        cases h
      · intro h
        obtain ⟨before, a, after, hsplit, -⟩ := h
        exact absurd hsplit.symm (List.append_ne_nil_of_right_ne_nil before (List.cons_ne_nil a _))
  | cons first rest ih =>
      rw [updateFirst?]
      by_cases hfirst : meant first = true
      · rw [if_pos hfirst, Option.some.injEq]
        constructor
        · intro heq
          exact ⟨[], first, rest, rfl, by simp, hfirst, heq.symm⟩
        · intro h
          obtain ⟨before, a, after, hsplit, hbefore, -, heq⟩ := h
          cases before with
          | nil =>
              cases hsplit
              exact heq.symm
          | cons b before =>
              cases hsplit
              rw [hbefore first List.mem_cons_self] at hfirst
              cases hfirst
      · rw [if_neg hfirst, Option.map_eq_some_iff]
        constructor
        · intro h
          obtain ⟨rest', hrest, rfl⟩ := h
          obtain ⟨before, a, after, rfl, hbefore, ha, rfl⟩ := ih.1 hrest
          refine ⟨first :: before, a, after, rfl, ?_, ha, rfl⟩
          exact List.forall_mem_cons.2 ⟨Bool.not_eq_true _ ▸ hfirst, hbefore⟩
        · intro h
          obtain ⟨before, a, after, hsplit, hbefore, ha, rfl⟩ := h
          cases before with
          | nil =>
              cases hsplit
              exact absurd ha hfirst
          | cons b before =>
              cases hsplit
              exact ⟨_, ih.2 ⟨before, a, after, rfl,
                fun b hb => hbefore b (List.mem_cons_of_mem _ hb), ha, rfl⟩, rfl⟩

/-- Nothing is changed if no item is meant. -/
theorem updateFirst?_eq_none {α : Type} {meant : α → Bool} {f : α → α} {items : List α} :
    updateFirst? meant f items = none ↔ ∀ a ∈ items, meant a = false := by
  induction items with
  | nil => simp [updateFirst?]
  | cons first rest ih =>
      rw [updateFirst?, List.forall_mem_cons]
      by_cases hfirst : meant first = true
      · simp [hfirst]
      · rw [if_neg hfirst, Option.map_eq_none_iff, ih]
        exact (and_iff_right (Bool.not_eq_true _ ▸ hfirst)).symm

/-- The program that is held after a request. -/
def Program.next (p : Program) : Request → Program
  | .act _ => p
  | .load q => q

/-- The program that was loaded last. -/
def Program.loaded (p : Program) (requests : List Request) : Program :=
  requests.foldl Program.next p

/-- After requests that load programs that a host can have, it is one of these that is held. -/
theorem Program.Obtained.loaded {p : Program} (h : p.Obtained) {requests : List Request}
    (hrequests : ∀ request ∈ requests, request.Admissible) : (p.loaded requests).Obtained := by
  induction requests generalizing p with
  | nil => exact h
  | cons request rest ih =>
      obtain ⟨hfirst, hrest⟩ := List.forall_mem_cons.1 hrequests
      refine ih ?_ hrest
      cases request with
      | act action => exact h
      | load q => exact hfirst

/-- A program with instructions publishes the inputs of one that stands for an output. -/
theorem Program.Obtained.exists_sink {p : Program} (h : p.Obtained) (hne : p.instructions ≠ []) :
    ∃ sink ∈ p.instructions, p.outputInstruction? = some sink ∧ sink.op = .output := by
  cases h with
  | empty built => exact absurd rfl hne
  | compiled built compiled =>
      obtain ⟨_, _, _, _, hcompilation⟩ := Graph.compilation_of_ok compiled
      have hcovers := hcompilation.covers
      obtain ⟨sink, hlast, hsink, hroot⟩ := hcovers.last
      have hmem : sink ∈ p.instructions := List.mem_of_getLast? hlast
      obtain ⟨n, hn, hop, -, -⟩ := hcovers.node sink hmem
      obtain ⟨n', hn', houtput⟩ := (hroot sink.source).2 rfl
      rw [hn] at hn'
      cases hn'
      exact ⟨sink, hmem, hsink, hop.trans houtput⟩

/-- What stands in a place of one list is related to what stands there in the other one. -/
theorem exists_getElem?_of_forall₂ {α β : Type} {R : α → β → Prop} {items : List α}
    {others : List β} (h : List.Forall₂ R items others) {index : Nat} {b : β}
    (hb : others[index]? = some b) : ∃ a, items[index]? = some a ∧ R a b := by
  induction h generalizing index with
  | nil => cases hb
  | cons hfirst _ ih =>
      cases index with
      | zero =>
          cases hb
          exact ⟨_, rfl, hfirst⟩
      | succ index => exact ih hb

namespace Runner

/-- Setting a parameter sets the first one that is found and no other, and leads to the next state,
or none is found, and it is refused and the state stays the same. -/
def SetsFirst (r : Runner) (found : Parameter → Bool) (v : Value) (refusal : RunnerError)
    (outcome : Except RunnerError Runner) (next : Runner) : Prop :=
  (∃ before q after, r.parameters = before ++ q :: after ∧
    (∀ earlier ∈ before, found earlier = false) ∧ found q = true ∧
    next = { r with parameters := before ++ { q with value := v } :: after } ∧
    outcome = .ok next) ∨
  ((∀ q ∈ r.parameters, found q = false) ∧ outcome = .error refusal ∧ next = r)

/-- What requests may change of a runner. Evaluations are counted as they are reported, and only a
tick and an evaluation that is asked for report one. As long as none is reported, what is published,
the slots and the instructions with their cached inputs stay (`quiet`). Another program comes with
its own instructions and empty slots, and what was published stays. A delta that is not finite
changes nothing, and a parameter is set by its identity or its name if it is found. -/
structure Framed (r : Runner) : Prop where
  counts : ∀ request,
    (r.serve request).2.evaluations = r.evaluations + (r.serve request).1.toNat
  reports : ∀ request, (r.serve request).1 = true → request.delta?.isSome ∨ request.isEvaluate
  quiet : ∀ action, (r.perform action).1 = false →
    (r.perform action).2.outputs = r.outputs ∧ (r.perform action).2.memory = r.memory ∧
      (r.perform action).2.instructions = r.instructions
  load : ∀ p, (r.load p).outputs = r.outputs ∧ (r.load p).instructions = p.instructions ∧
    (r.load p).memory = .fresh p.slotCount r.memory.source
  ignored : ∀ delta : Float32, ¬ delta.isFinite → r.tick delta = (false, r)
  setParameter : ∀ id v, r.SetsFirst (·.id = id) v (.unknownParameter id) (r.setParameter id v)
    (r.perform (.setParameter id v)).2
  setParameterByName : ∀ name v, r.SetsFirst (·.name = name) v (.unknownParameterName name)
    (r.setParameterByName name v) (r.perform (.setParameterByName name v)).2

/-- How many of the requests are ticks and evaluations that report that the graph was evaluated. -/
def reported (r : Runner) : List Request → Nat
  | [] => 0
  | request :: rest =>
      ((request.delta?.isSome || request.isEvaluate) && (r.serve request).1).toNat +
        (r.serve request).2.reported rest

variable {r : Runner} {p : Program}

/-! ## One request -/

/-- An evaluation that takes place is counted. -/
theorem evaluations_evaluate (r : Runner) :
    r.evaluate.2.evaluations = r.evaluations + r.evaluate.1.toNat := by
  by_cases hnil : r.instructions = []
  · rw [evaluate_of_nil hnil]
    rfl
  · rw [evaluate_of_ne_nil hnil]
    rfl

/-- Requests count the evaluations that they report. -/
theorem evaluations_serve (r : Runner) (request : Request) :
    (r.serve request).2.evaluations = r.evaluations + (r.serve request).1.toNat := by
  cases request with
  | load p => rfl
  | act action =>
      show (r.perform action).2.evaluations = r.evaluations + (r.perform action).1.toNat
      cases action with
      | setParameter id v =>
          rw [perform_setParameter]
          rfl
      | setParameterByName name v =>
          rw [perform_setParameterByName]
          rfl
      | evaluate => exact r.evaluations_evaluate
      | tick delta =>
          rw [perform_tick]
          split
          · exact evaluations_evaluate _
          · rfl

/-- Only a tick and an evaluation that is asked for report one. -/
theorem delta?_or_isEvaluate_of_serve {request : Request} (h : (r.serve request).1 = true) :
    request.delta?.isSome ∨ request.isEvaluate := by
  cases request with
  | load p => cases h
  | act action =>
      cases action with
      | setParameter | setParameterByName => cases h
      | tick delta => exact .inl rfl
      | evaluate => exact .inr rfl

/-- Changing the first parameter that is found is refused exactly if there is none. -/
theorem setsFirst_updateFirst? (r : Runner) (found : Parameter → Bool) (v : Value)
    (refusal : RunnerError) {outcome : Except RunnerError Runner}
    (houtcome : outcome =
      match updateFirst? found (fun q => { q with value := v }) r.parameters with
      | some parameters => .ok { r with parameters }
      | none => .error refusal) :
    r.SetsFirst found v refusal outcome (outcome.toOption.getD r) := by
  subst houtcome
  cases hset : updateFirst? found (fun q => { q with value := v }) r.parameters with
  | none => exact .inr ⟨updateFirst?_eq_none.1 hset, rfl, rfl⟩
  | some parameters =>
      obtain ⟨before, q, after, hsplit, hbefore, hq, rfl⟩ := updateFirst?_eq_some.1 hset
      exact .inl ⟨before, q, after, hsplit, hbefore, hq, rfl, rfl⟩

/-- In every state requests change what they may and nothing else. -/
theorem framed (r : Runner) : r.Framed where
  counts := r.evaluations_serve
  reports _ h := delta?_or_isEvaluate_of_serve h
  quiet action h := by
    obtain ⟨hresembles, houtputs⟩ := resembles_perform h
    exact ⟨houtputs, hresembles.memory_eq, hresembles.instructions_eq⟩
  load _ := ⟨rfl, rfl, rfl⟩
  ignored delta hdelta := by
    show r.perform (.tick delta) = (false, r)
    rw [perform_tick, Config.advance_of_not_isFinite hdelta]
    rfl
  setParameter id v := r.setsFirst_updateFirst? (·.id = id) v (.unknownParameter id) rfl
  setParameterByName name v :=
    r.setsFirst_updateFirst? (·.name = name) v (.unknownParameterName name) rfl

/-! ## Histories -/

/-- The evaluations are those that were reported. -/
theorem evaluations_served_eq (r : Runner) (requests : List Request) :
    (r.served requests).evaluations = r.evaluations + r.reported requests := by
  induction requests generalizing r with
  | nil => rfl
  | cons request rest ih =>
      have hreported : ((request.delta?.isSome || request.isEvaluate) &&
          (r.serve request).1) = (r.serve request).1 := by
        cases hserve : (r.serve request).1 with
        | false => exact Bool.and_false _
        | true => simpa using delta?_or_isEvaluate_of_serve hserve
      show ((r.serve request).2.served rest).evaluations = _
      rw [ih, evaluations_serve, reported, hreported, Nat.add_assoc]

/-- A request reports one evaluation at most. -/
theorem reported_le (r : Runner) (requests : List Request) :
    r.reported requests ≤ requests.length := by
  induction requests generalizing r with
  | nil => exact Nat.le_refl _
  | cons request rest ih =>
      rw [reported, List.length_cons, Nat.add_comm]
      exact Nat.add_le_add (ih _) (Bool.toNat_le _)

/-- No more evaluations are counted than there were requests, so a count of 64 bits holds them in
every history of fewer than `2 ^ 64` requests. -/
theorem evaluations_served_le (r : Runner) (requests : List Request) :
    (r.served requests).evaluations ≤ r.evaluations + requests.length := by
  rw [evaluations_served_eq]
  exact Nat.add_le_add_left (r.reported_le requests) _

/-- The instructions of a runner are bound as in the program, of which it publishes the output. -/
structure Bound (r : Runner) (p : Program) : Prop where
  instructions : List.Forall₂ Instruction.Alike r.instructions p.instructions
  output_eq : r.output = p.output

/-- A runner that holds the instructions of a program is bound as in it. -/
theorem Bound.of_eq (hinstructions : r.instructions = p.instructions)
    (houtput : r.output = p.output) : r.Bound p where
  instructions := by
    rw [hinstructions]
    exact List.forall₂_same.2 fun i _ => .refl i
  output_eq := houtput

namespace Bound

variable (h : r.Bound p) (hp : p.Obtained)
include h hp

/-- The instructions run like those of the program, and are bound like them afterwards. -/
theorem executeAll_eq (m : Memory) :
    executeAll r.table r.instructions m = executeAll r.table p.instructions m ∧
      List.Forall₂ Instruction.Alike (executeAll r.table p.instructions m).1 p.instructions :=
  executeAll_of_alike h.instructions (fun i hi => (hp.sound.cache i hi).symm) m

/-- An evaluation keeps a runner bound as in its program. -/
theorem evaluate : r.evaluate.2.Bound p := by
  by_cases hnil : r.instructions = []
  · rwa [evaluate_of_nil hnil]
  · obtain ⟨hrun, halike⟩ := h.executeAll_eq hp (r.memory.putAll r.parameters)
    rw [evaluate_of_ne_nil hnil, hrun]
    exact ⟨halike, h.output_eq⟩

/-- A runner is bound as in the program that was loaded last. -/
theorem serve (request : Request) : (r.serve request).2.Bound (p.next request) := by
  cases request with
  | load q => exact .of_eq rfl rfl
  | act action =>
      show (r.perform action).2.Bound p
      cases action with
      | setParameter id v =>
          rw [perform_setParameter]
          exact ⟨h.instructions, h.output_eq⟩
      | setParameterByName name v =>
          rw [perform_setParameterByName]
          exact ⟨h.instructions, h.output_eq⟩
      | evaluate => exact h.evaluate hp
      | tick delta =>
          rw [perform_tick]
          split
          · exact evaluate ⟨h.instructions, h.output_eq⟩ hp
          · exact ⟨h.instructions, h.output_eq⟩

/-- After requests a runner is bound as in the program that was loaded last. -/
theorem served {requests : List Request}
    (hrequests : ∀ request ∈ requests, request.Admissible) :
    (r.served requests).Bound (p.loaded requests) := by
  induction requests generalizing r p with
  | nil => exact h
  | cons request rest ih =>
      obtain ⟨hfirst, hrest⟩ := List.forall_mem_cons.1 hrequests
      have hnext : (p.next request).Obtained :=
        hp.loaded (List.forall_mem_singleton.2 hfirst)
      exact ih (h.serve hp request) hnext hrest

/-- An evaluation that takes place publishes a number for each input of the output. -/
theorem length_outputs (hevaluated : r.evaluate.1 = true) :
    ∃ sink, p.outputInstruction? = some sink ∧ sink.op = .output ∧
      r.evaluate.2.outputs.length = sink.inputSlots.length := by
  have hne : r.instructions ≠ [] := by
    intro hnil
    rw [evaluate_of_nil hnil] at hevaluated
    cases hevaluated
  have hpne : p.instructions ≠ [] := by
    intro hnil
    have hbound := h.instructions
    rw [hnil, List.forall₂_nil_right_iff] at hbound
    exact hne hbound
  obtain ⟨sink, hmem, hsink, hop⟩ := hp.exists_sink hpne
  obtain ⟨index, hindex, hplace⟩ := Option.bind_eq_some_iff.1 hsink
  obtain ⟨hrun, halike⟩ := h.executeAll_eq hp (r.memory.putAll r.parameters)
  obtain ⟨ran, hran, hsame⟩ := exists_getElem?_of_forall₂ halike hplace
  refine ⟨sink, hsink, hop, ?_⟩
  rw [evaluate_of_ne_nil hne, hrun]
  show (r.published _).length = _
  rw [published, h.output_eq, hindex, Option.bind_some, hran, List.length_map, hsame.length_eq,
    hp.sound.cache sink hmem]

end Bound

/-- Whatever a host asks of a runner, the evaluations are the ticks and the evaluations that were
asked for of which it was reported that they took place. In every state that is reached, only these
and the loading of a program change what is published, the slots or the cached inputs; a delta that
is not finite and a parameter that cannot be set change nothing; and setting a parameter changes the
value of the first one that is found. After each evaluation as many numbers are published as the
output of the program that was loaded last has inputs. -/
theorem served_frames (hp : p.Obtained) (config : Config) (entropy : Random.Source)
    {requests : List Request} (hrequests : ∀ request ∈ requests, request.Admissible) :
    ((start p config entropy).served requests).evaluations =
      (start p config entropy).reported requests ∧
    ((start p config entropy).served requests).Framed ∧
    ∀ request, (((start p config entropy).served requests).serve request).1 = true →
      ∃ sink, (p.loaded requests).outputInstruction? = some sink ∧ sink.op = .output ∧
        (((start p config entropy).served requests).serve request).2.outputs.length =
          sink.inputSlots.length := by
  have hstart : (start p config entropy).Bound p := .of_eq rfl rfl
  have hbound := hstart.served hp hrequests
  refine ⟨?_, framed _, fun request hreported => ?_⟩
  · rw [evaluations_served_eq]
    exact Nat.zero_add _
  · cases request with
    | load q => cases hreported
    | act action =>
        obtain ⟨accumulated, hperform⟩ := perform_of_evaluated hreported
        rw [serve, hperform] at hreported ⊢
        exact Bound.length_outputs ⟨hbound.instructions, hbound.output_eq⟩ (hp.loaded hrequests)
          hreported

/-- A runner evaluates a graph, goes on without one and gets it back. The evaluation after that
publishes one number, for the one input of the output. -/
theorem overgrown_frames :
    Graph.overgrownProgram.Obtained ∧
    (∀ request ∈ [.act .evaluate, .load (.empty Catalog.table), .act (.tick 1),
      .load Graph.overgrownProgram], Request.Admissible request) ∧
    (let r := (start Graph.overgrownProgram .default (.ofSeed 1)).served [.act .evaluate,
      .load (.empty Catalog.table), .act (.tick 1), .load Graph.overgrownProgram]
    r.Framed ∧ r.evaluate.1 = true ∧ r.evaluate.2.outputs.length = 1) := by
  have hp : Graph.overgrownProgram.Obtained := .compiled Catalog.built Graph.compile_overgrown
  have hrequests : ∀ request ∈ [.act .evaluate, .load (.empty Catalog.table), .act (.tick 1),
      .load Graph.overgrownProgram], Request.Admissible request := by
    simp only [List.forall_mem_cons, Request.Admissible]
    exact ⟨trivial, .empty Catalog.built, trivial, hp, by simp⟩
  obtain ⟨-, hframed, houtputs⟩ := served_frames hp .default (.ofSeed 1) hrequests
  obtain ⟨sink, hsink, -, hlength⟩ := houtputs (.act .evaluate) rfl
  cases hsink
  exact ⟨hp, hrequests, hframed, rfl, hlength⟩

end Runner

end Dataflow
