import Mathlib.Data.List.Chain
import Dataflow.Dependency.Order

/-!
# What a walk keeps

A walk is in a `Consistent` state from start to end: marks, path and list agree, the keys of
the path depend on each other from the root inward, and every listed key comes after its own
dependencies. `Walk.consistent_next` says that a step keeps this, and `Walk.run_ends` carries
it to the state in which a run ends.
-/

namespace Dataflow.Dependency

open Relation (ReflTransGen TransGen)

variable {κ : Type} {dependencies : κ → List κ} {root : κ}

/-- Every key of a list, latest first, comes after all of its dependencies. -/
def Settled (dependencies : κ → List κ) : List κ → Prop
  | [] => True
  | key :: earlier =>
      (∀ dependency ∈ dependencies key, dependency ∈ earlier) ∧ Settled dependencies earlier

/-- The frames of a path, innermost first. What a frame's key depends on is still pending, is
listed, or is the key of the next frame inward. -/
def Explored (dependencies : κ → List κ) (listed : List κ) :
    Option κ → List (Frame κ) → Prop
  | _, [] => True
  | inward, frame :: outer =>
      (∀ dependency ∈ frame.pending, dependency ∈ dependencies frame.key) ∧
      (∀ dependency ∈ inward, dependency ∈ dependencies frame.key) ∧
      (∀ dependency ∈ dependencies frame.key,
        dependency ∈ frame.pending ∨ dependency ∈ listed ∨ dependency ∈ inward) ∧
      Explored dependencies listed (some frame.key) outer

/-- A list of keys, at least one and none of them twice, of which each depends on the next and the
last on the first. -/
structure IsCycle (dependencies : κ → List κ) (path : List κ) : Prop where
  nonempty : path ≠ []
  nodup : path.Nodup
  chain : path.IsChain fun key next => next ∈ dependencies key
  closed : ∀ first ∈ path.head?, ∀ last ∈ path.getLast?, first ∈ dependencies last

/-- What is listed may grow, and the key inward may move to the list. -/
theorem Explored.mono {listed listed' : List κ} (hlisted : ∀ key ∈ listed, key ∈ listed')
    {inward : Option κ} {frames : List (Frame κ)}
    (h : Explored dependencies listed inward frames) :
    Explored dependencies listed' inward frames := by
  induction frames generalizing inward with
  | nil => trivial
  | cons frame outer ih =>
      obtain ⟨hpending, hinward, hmet, houter⟩ := h
      refine ⟨hpending, hinward, fun dependency hdependency => ?_, ih houter⟩
      rcases hmet dependency hdependency with h | h | h
      · exact .inl h
      · exact .inr (.inl (hlisted _ h))
      · exact .inr (.inr h)

/-- Once the key inward is listed, the path ends one frame further out. -/
theorem Explored.pop {listed : List κ} {key : κ} {frames : List (Frame κ)}
    (h : Explored dependencies listed (some key) frames) :
    Explored dependencies (key :: listed) none frames := by
  cases frames with
  | nil => trivial
  | cons frame outer =>
      obtain ⟨hpending, -, hmet, houter⟩ := h
      refine ⟨hpending, fun _ h => absurd h (Option.not_mem_none _),
        fun dependency hdependency => ?_, houter.mono fun _ => List.mem_cons_of_mem _⟩
      rcases hmet dependency hdependency with h | h | h
      · exact .inl h
      · exact .inr (.inl (List.mem_cons_of_mem _ h))
      · obtain rfl : key = dependency := Option.some.inj h
        exact .inr (.inl List.mem_cons_self)

/-- Along a path each key is a dependency of the next one outward. -/
theorem Explored.isChain {listed : List κ} {inward : Option κ} {frames : List (Frame κ)}
    (h : Explored dependencies listed inward frames) :
    (frames.map (·.key)).IsChain fun key outward => key ∈ dependencies outward := by
  induction frames generalizing inward with
  | nil => exact .nil
  | cons frame outer ih =>
      refine .cons (ih h.2.2.2) fun outward houtward => ?_
      cases outer with
      | nil => cases houtward
      | cons next rest =>
          obtain rfl : next.key = outward := Option.some.inj houtward
          exact h.2.2.2.2.1 _ rfl

/-- A cycle leads from its first key back to it. -/
theorem IsCycle.transGen {path : List κ} (h : IsCycle dependencies path) :
    ∃ key ∈ path, TransGen (fun key next => next ∈ dependencies key) key key := by
  obtain ⟨first, rest, rfl⟩ := List.exists_cons_of_ne_nil h.nonempty
  have hback := h.closed first rfl _ (List.getLast?_eq_some_getLast h.nonempty)
  have hlast : ReflTransGen (fun key next => next ∈ dependencies key) first
      ((first :: rest).getLast h.nonempty) :=
    List.relationReflTransGen_of_exists_isChain_cons rest h.chain rfl
  exact ⟨first, List.mem_cons_self, .tail' hlast hback⟩

namespace Walk

variable [DecidableEq κ] [Hashable κ]

/-- What a step does when the walk goes on: it ends a frame, passes over a finished dependency,
or opens a frame for a dependency that it meets for the first time. -/
theorem next_running {w w' : Walk κ} (h : w.next dependencies = .running w') :
    (∃ key outer, w.frames = ⟨key, []⟩ :: outer ∧
      w' = ⟨outer, w.marks.insert key .finished, key :: w.listed⟩) ∨
    (∃ key dependency pending outer, w.frames = ⟨key, dependency :: pending⟩ :: outer ∧
      w.marks[dependency]? = some .finished ∧
      w' = { w with frames := ⟨key, pending⟩ :: outer }) ∨
    (∃ key dependency pending outer, w.frames = ⟨key, dependency :: pending⟩ :: outer ∧
      w.marks[dependency]? = none ∧
      w' = { w with
        frames := ⟨dependency, dependencies dependency⟩ :: ⟨key, pending⟩ :: outer
        marks := w.marks.insert dependency .active }) := by
  unfold next at h
  split at h
  · cases h
  · rename_i key outer hframes
    cases h
    exact .inl ⟨key, outer, hframes, rfl⟩
  · rename_i key dependency pending outer hframes
    split at h <;> cases h
    · rename_i hmark
      exact .inr (.inl ⟨key, dependency, pending, outer, hframes, hmark, rfl⟩)
    · rename_i hmark
      exact .inr (.inr ⟨key, dependency, pending, outer, hframes, hmark, rfl⟩)

/-- How a walk ends: no frame is left, or a dependency is on the path. -/
theorem next_ended {w : Walk κ} {result : Except (Cycle κ) (List κ)}
    (h : w.next dependencies = .ended result) :
    (w.frames = [] ∧ result = .ok w.listed.reverse) ∨
    (∃ key dependency pending outer, w.frames = ⟨key, dependency :: pending⟩ :: outer ∧
      w.marks[dependency]? = some .active ∧
      result = .error (closeCycle w.frames dependency)) := by
  unfold next at h
  split at h
  · rename_i hframes
    cases h
    exact .inl ⟨hframes, rfl⟩
  · cases h
  · rename_i key dependency pending outer hframes
    split at h <;> cases h
    rename_i hmark
    exact .inr ⟨key, dependency, pending, outer, hframes, hmark, rfl⟩

section Runs

variable {finite : FinitelyReachable dependencies root} {w w' : Walk κ}

/-- A run goes on with the next step. -/
theorem run_of_running (reachable : w.PendingReachable dependencies root)
    (hnext : w.next dependencies = .running w') :
    run dependencies root finite w reachable =
      run dependencies root finite w' (reachable.next hnext) := by
  rw [run]
  split
  · rename_i hended
    cases hnext.symm.trans hended
  · rename_i hrunning
    cases hnext.symm.trans hrunning
    rfl

/-- A run gives what the walk ends with. -/
theorem run_of_ended (reachable : w.PendingReachable dependencies root)
    {result : Except (Cycle κ) (List κ)} (hnext : w.next dependencies = .ended result) :
    run dependencies root finite w reachable = result := by
  rw [run]
  split
  · rename_i hended
    cases hnext.symm.trans hended
    rfl
  · rename_i hrunning
    cases hnext.symm.trans hrunning

end Runs

/-- A run ends in a state that has whatever its first state has and steps keep. -/
theorem run_ends {finite : FinitelyReachable dependencies root} {holds : Walk κ → Prop}
    (hstep : ∀ w w', holds w → w.next dependencies = .running w' → holds w')
    (w : Walk κ) (reachable : w.PendingReachable dependencies root) (h : holds w) :
    ∃ last, holds last ∧
      last.next dependencies = .ended (run dependencies root finite w reachable) := by
  induction w, reachable using run.induct dependencies root finite with
  | case1 w reachable result hnext =>
      rw [run_of_ended reachable hnext]
      exact ⟨w, h, hnext⟩
  | case2 w reachable w' hnext ih =>
      rw [run_of_running reachable hnext]
      exact ih (hstep w w' h hnext)

/-- Marks, path and list of a walk from `root` agree with each other. The active keys are those of
the path and the finished ones those of the list, each once. The path leads from frame to frame, and
nothing that a frame has met is lost (`explored`). Listed keys come after their dependencies, every
key that was met can be reached, and the path starts at the root, which is the last key to be
listed. -/
structure Consistent (dependencies : κ → List κ) (root : κ) (w : Walk κ) : Prop where
  active : ∀ key, w.marks[key]? = some .active ↔ key ∈ w.frames.map (·.key)
  finished : ∀ key, w.marks[key]? = some .finished ↔ key ∈ w.listed
  pathNodup : (w.frames.map (·.key)).Nodup
  listedNodup : w.listed.Nodup
  explored : Explored dependencies w.listed none w.frames
  settled : Settled dependencies w.listed
  reachable : ∀ key, key ∈ w.frames.map (·.key) ∨ key ∈ w.listed →
    Reachable dependencies root key
  rootLast : (w.frames.map (·.key)).getLast?.or w.listed.head? = some root

/-- The walk that has met the root alone is consistent. -/
theorem consistent_start : (start dependencies root).Consistent dependencies root where
  active key := by
    simp only [start, Std.HashMap.getElem?_insert]
    grind
  finished key := by
    simp only [start, Std.HashMap.getElem?_insert]
    grind
  pathNodup := by simp [start]
  listedNodup := by simp [start]
  explored := by simp [start, Explored]
  settled := trivial
  reachable key h := by
    obtain rfl : key = root := by simpa [start] using h
    exact .root
  rootLast := by simp [start]

section Steps

variable {marks : Std.HashMap κ Mark} {listed pending : List κ} {outer : List (Frame κ)}
  {key dependency : κ}

/-- A mark is the one that was given last, or an earlier one of another key. -/
theorem marks_insert_eq_some {other : κ} {mark mark' : Mark} :
    (marks.insert key mark)[other]? = some mark' ↔
      key = other ∧ mark = mark' ∨ key ≠ other ∧ marks[other]? = some mark' := by
  rw [Std.HashMap.getElem?_insert]
  by_cases hother : key = other
  · simp [hother]
  · simp [hother]

/-- Ending a frame moves its key from the path to the list. -/
theorem Consistent.close (h : Consistent dependencies root ⟨⟨key, []⟩ :: outer, marks, listed⟩) :
    Consistent dependencies root ⟨outer, marks.insert key .finished, key :: listed⟩ := by
  have hpath := h.pathNodup
  simp only [List.map_cons, List.nodup_cons] at hpath
  have hactive := h.active
  have hfinished := h.finished
  simp only [List.map_cons, List.mem_cons] at hactive hfinished
  have hunlisted : key ∉ listed := by
    intro hlisted
    have hmarks := ((hactive key).2 (.inl rfl)).symm.trans ((hfinished key).2 hlisted)
    cases hmarks
  have hdeps : ∀ d ∈ dependencies key, d ∈ listed := by
    intro d hd
    rcases h.explored.2.2.1 d hd with h | h | h
    · cases h
    · exact h
    · exact absurd h (Option.not_mem_none _)
  constructor
  case active =>
    intro other
    rw [marks_insert_eq_some, hactive]
    grind
  case finished =>
    intro other
    rw [marks_insert_eq_some, hfinished, List.mem_cons]
    grind
  case pathNodup => exact hpath.2
  case listedNodup => exact List.nodup_cons.2 ⟨hunlisted, h.listedNodup⟩
  case explored => exact h.explored.2.2.2.pop
  case settled => exact ⟨hdeps, h.settled⟩
  case reachable =>
    intro other hother
    refine h.reachable other ?_
    simp only [List.map_cons, List.mem_cons] at hother ⊢
    tauto
  case rootLast =>
    have hroot := h.rootLast
    -- the root is now the latest of the list, or stays the last key of the path
    cases outer with
    | nil => simpa using hroot
    | cons frame rest =>
        simp only [List.map_cons, List.getLast?_cons_cons] at hroot ⊢
        rw [List.getLast?_eq_some_getLast (List.cons_ne_nil _ _)] at hroot ⊢
        exact hroot

/-- Passing over a finished dependency changes the frame alone. -/
theorem Consistent.skip
    (h : Consistent dependencies root ⟨⟨key, dependency :: pending⟩ :: outer, marks, listed⟩)
    (hmark : marks[dependency]? = some .finished) :
    Consistent dependencies root ⟨⟨key, pending⟩ :: outer, marks, listed⟩ := by
  obtain ⟨hpending, hinward, hmet, houter⟩ := h.explored
  refine { h with explored := ⟨fun d hd => hpending d (List.mem_cons_of_mem _ hd), hinward, ?_,
    houter⟩ }
  intro d hd
  rcases hmet d hd with hp | hl | hi
  · rcases List.mem_cons.1 hp with rfl | hp
    · exact .inr (.inl ((h.finished d).1 hmark))
    · exact .inl hp
  · exact .inr (.inl hl)
  · exact .inr (.inr hi)

/-- A dependency that was not met before becomes the innermost key of the path. -/
theorem Consistent.open
    (h : Consistent dependencies root ⟨⟨key, dependency :: pending⟩ :: outer, marks, listed⟩)
    (hmark : marks[dependency]? = none) :
    Consistent dependencies root
      ⟨⟨dependency, dependencies dependency⟩ :: ⟨key, pending⟩ :: outer,
        marks.insert dependency .active, listed⟩ := by
  obtain ⟨hpending, -, hmet, houter⟩ := h.explored
  have hfeeds := hpending dependency List.mem_cons_self
  have hactive := h.active
  have hfinished := h.finished
  simp only [List.map_cons, List.mem_cons] at hactive hfinished
  have hnew : ¬(dependency = key ∨ dependency ∈ outer.map (·.key)) := by
    intro hmem
    have hmarks := hmark.symm.trans ((hactive dependency).2 hmem)
    cases hmarks
  have hunlisted : dependency ∉ listed := by
    intro hlisted
    have hmarks := hmark.symm.trans ((hfinished dependency).2 hlisted)
    cases hmarks
  constructor
  case active =>
    intro other
    rw [marks_insert_eq_some, hactive, List.map_cons, List.map_cons, List.mem_cons, List.mem_cons]
    grind
  case finished =>
    intro other
    rw [marks_insert_eq_some, hfinished]
    grind
  case pathNodup =>
    have hpath := h.pathNodup
    simp only [List.map_cons, List.nodup_cons, List.mem_cons] at hpath ⊢
    exact ⟨hnew, hpath⟩
  case listedNodup => exact h.listedNodup
  case explored =>
    refine ⟨fun _ hd => hd, fun _ hd => absurd hd (Option.not_mem_none _), fun _ hd => .inl hd,
      fun d hd => hpending d (List.mem_cons_of_mem _ hd), ?_, ?_, houter⟩
    · intro d hd
      obtain rfl : dependency = d := Option.some.inj hd
      exact hfeeds
    · intro d hd
      rcases hmet d hd with hp | hl | hi
      · rcases List.mem_cons.1 hp with rfl | hp
        · exact .inr (.inr rfl)
        · exact .inl hp
      · exact .inr (.inl hl)
      · exact absurd hi (Option.not_mem_none _)
  case settled => exact h.settled
  case reachable =>
    intro other hother
    simp only [List.map_cons, List.mem_cons] at hother
    by_cases hd : other = dependency
    · subst hd
      exact .step (h.reachable key (.inl (by simp))) hfeeds
    · exact h.reachable other (by simpa [hd] using hother)
  case rootLast =>
    have hroot := h.rootLast
    simpa using hroot

end Steps

/-- A step keeps a walk consistent. -/
theorem consistent_next {w w' : Walk κ} (h : w.Consistent dependencies root)
    (hnext : w.next dependencies = .running w') : w'.Consistent dependencies root := by
  obtain ⟨frames, marks, listed⟩ := w
  rcases next_running hnext with ⟨key, outer, rfl, rfl⟩ |
    ⟨key, dependency, pending, outer, rfl, hmark, rfl⟩ |
    ⟨key, dependency, pending, outer, rfl, hmark, rfl⟩
  · exact h.close
  · exact h.skip hmark
  · exact h.open hmark

end Walk

/-- Keys of a settled list depend on keys of it only. -/
theorem Settled.mem {listed : List κ} (h : Settled dependencies listed) {key dependency : κ}
    (hkey : key ∈ listed) (hdependency : dependency ∈ dependencies key) :
    dependency ∈ listed := by
  induction listed with
  | nil => cases hkey
  | cons latest earlier ih =>
      rcases List.mem_cons.1 hkey with rfl | hkey
      · exact List.mem_cons_of_mem _ (h.1 _ hdependency)
      · exact List.mem_cons_of_mem _ (ih h.2 hkey)

/-- No key of a settled list without repetitions leads back to itself. -/
theorem Settled.not_transGen {listed : List κ} (h : Settled dependencies listed)
    (hnodup : listed.Nodup) {key : κ} (hkey : key ∈ listed) :
    ¬ TransGen (fun key next => next ∈ dependencies key) key key := by
  induction listed with
  | nil => cases hkey
  | cons latest earlier ih =>
      obtain ⟨hlatest, hnodup⟩ := List.nodup_cons.1 hnodup
      -- what is listed earlier leads to nothing but what is listed earlier
      have hearlier : ∀ a b, a ∈ earlier →
          TransGen (fun key next => next ∈ dependencies key) a b → b ∈ earlier := by
        intro a b ha hab
        induction hab with
        | single hstep => exact h.2.mem ha hstep
        | tail _ hstep ih => exact h.2.mem ih hstep
      intro hcycle
      rcases List.mem_cons.1 hkey with rfl | hkey
      · obtain ⟨next, hstep, hrest⟩ := TransGen.head'_iff.1 hcycle
        rcases Relation.reflTransGen_iff_eq_or_transGen.1 hrest with rfl | hrest
        · exact hlatest (h.1 _ hstep)
        · exact hlatest (hearlier _ _ (h.1 _ hstep) hrest)
      · exact ih h.2 hnodup hkey hcycle

end Dataflow.Dependency
