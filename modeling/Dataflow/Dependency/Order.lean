import Dataflow.Dependency.Reachable
import Dataflow.Dependency.Walk

/-!
# Dependency order

`order` takes the steps of a walk until it ends. A walk ends whenever finitely many keys can
be reached: a step either marks a reachable key that had no mark, or marks none and leaves
less work on the path. `Walk.measure_next` states this, and `Walk.run` recurses on it.
-/

namespace Dataflow.Dependency

variable {κ : Type}

namespace Walk

variable [DecidableEq κ] [Hashable κ]

/-- How many keys of a list have no mark. -/
def unmarked (bound : List κ) (w : Walk κ) : Nat :=
  bound.countP fun key => !w.marks.contains key

/-- The work left on the path: a step for each pending dependency and one for each frame. -/
def work (w : Walk κ) : Nat :=
  (w.frames.flatMap (·.pending)).length + w.frames.length

/-- Every dependency that is yet to be visited can be reached from the root. -/
def PendingReachable (dependencies : κ → List κ) (root : κ) (w : Walk κ) : Prop :=
  ∀ frame ∈ w.frames, ∀ dependency ∈ frame.pending, Reachable dependencies root dependency

/-- What is pending at the start of a walk are dependencies of the root. -/
theorem pendingReachable_start (dependencies : κ → List κ) (root : κ) :
    (start dependencies root).PendingReachable dependencies root := by
  intro frame hframe dependency hpending
  obtain rfl : frame = ⟨root, dependencies root⟩ := by simpa [start] using hframe
  exact .step .root hpending

/-- A step keeps what is pending reachable. -/
theorem PendingReachable.next {dependencies : κ → List κ} {root : κ} {w w' : Walk κ}
    (h : w.PendingReachable dependencies root) (hnext : w.next dependencies = .running w') :
    w'.PendingReachable dependencies root := by
  obtain ⟨frames, marks, listed⟩ := w
  unfold Walk.next at hnext
  split at hnext
  · cases hnext
  · rename_i key outer hframes
    cases hnext
    simp only at hframes
    subst hframes
    exact fun frame hframe => h frame (List.mem_cons_of_mem _ hframe)
  · rename_i key dependency pending outer hframes
    simp only at hframes
    subst hframes
    have hhead : ∀ d ∈ pending, Reachable dependencies root d := fun d hd =>
      h _ List.mem_cons_self d (List.mem_cons_of_mem _ hd)
    have htail : ∀ frame ∈ outer, ∀ d ∈ frame.pending, Reachable dependencies root d :=
      fun frame hframe => h frame (List.mem_cons_of_mem _ hframe)
    split at hnext <;> cases hnext
    · intro frame hframe
      rcases List.mem_cons.1 hframe with rfl | hframe
      · exact hhead
      · exact htail frame hframe
    · intro frame hframe
      rcases List.mem_cons.1 hframe with rfl | hframe
      · exact fun d hd => .step (h _ List.mem_cons_self _ List.mem_cons_self) hd
      · rcases List.mem_cons.1 hframe with rfl | hframe
        · exact hhead
        · exact htail frame hframe

/-- Marking a key leaves no more keys unmarked. -/
theorem unmarked_insert_le (bound : List κ) (w : Walk κ) (frames : List (Frame κ)) (key : κ)
    (mark : Mark) (listed : List κ) :
    unmarked bound ⟨frames, w.marks.insert key mark, listed⟩ ≤ w.unmarked bound := by
  refine List.countP_mono_left fun k _ hk => ?_
  simp only [Std.HashMap.contains_insert, Bool.not_or, Bool.and_eq_true] at hk
  exact hk.2

/-- Marking an unmarked key of the list leaves fewer keys unmarked. -/
theorem unmarked_insert_lt {bound : List κ} {w : Walk κ} (frames : List (Frame κ)) {key : κ}
    (mark : Mark) (listed : List κ) (hmem : key ∈ bound) (hnew : w.marks[key]? = none) :
    unmarked bound ⟨frames, w.marks.insert key mark, listed⟩ < w.unmarked bound := by
  unfold unmarked
  induction bound with
  | nil => cases hmem
  | cons k rest ih =>
      have hrest := unmarked_insert_le rest w frames key mark listed
      simp only [unmarked, Std.HashMap.contains_insert] at hrest
      by_cases hk : k = key
      · subst hk
        have hout : w.marks.contains k = false := by
          rw [Std.HashMap.contains_eq_isSome_getElem?, hnew]; rfl
        simp only [List.countP_cons, Std.HashMap.contains_insert, hout, BEq.rfl, Bool.true_or,
          Bool.not_true, Bool.not_false, if_true, Bool.false_eq_true, if_false]
        omega
      · have hmem' : key ∈ rest := by
          rcases List.mem_cons.1 hmem with rfl | h
          · exact absurd rfl hk
          · exact h
        have hlt := ih hmem'
        have hne : (key == k) = false := by simpa using fun h => hk h.symm
        simp only [Std.HashMap.contains_insert] at hlt
        simp only [List.countP_cons, Std.HashMap.contains_insert, hne, Bool.false_or]
        omega

/-- A step marks a key of the bound, or marks none and leaves less work. -/
theorem measure_next {dependencies : κ → List κ} {root : κ} {bound : List κ} {w w' : Walk κ}
    (hbound : ∀ key, Reachable dependencies root key → key ∈ bound)
    (h : w.PendingReachable dependencies root) (hnext : w.next dependencies = .running w') :
    w'.unmarked bound < w.unmarked bound ∨
      w'.unmarked bound = w.unmarked bound ∧ w'.work < w.work := by
  obtain ⟨frames, marks, listed⟩ := w
  unfold Walk.next at hnext
  split at hnext
  · cases hnext
  · rename_i key outer hframes
    cases hnext
    simp only at hframes
    subst hframes
    have := unmarked_insert_le bound ⟨⟨key, []⟩ :: outer, marks, listed⟩ outer key .finished
      (key :: listed)
    have hwork : work ⟨outer, marks.insert key .finished, key :: listed⟩ <
        work ⟨⟨key, []⟩ :: outer, marks, listed⟩ := by
      simp [work]
    simp only at this hwork ⊢
    omega
  · rename_i key dependency pending outer hframes
    simp only at hframes
    subst hframes
    split at hnext
    · cases hnext
    · cases hnext
      refine .inr ⟨rfl, ?_⟩
      simp [work]
    · rename_i hmark
      cases hnext
      exact .inl (unmarked_insert_lt _ _ _
        (hbound _ (h _ List.mem_cons_self _ List.mem_cons_self)) hmark)

/-- Steps until the walk ends. -/
def run (dependencies : κ → List κ) (root : κ) (finite : FinitelyReachable dependencies root)
    (w : Walk κ) (reachable : w.PendingReachable dependencies root) :
    Except (Cycle κ) (List κ) :=
  match hnext : w.next dependencies with
  | .ended result => result
  | .running w' => run dependencies root finite w' (reachable.next hnext)
termination_by (w.unmarked (Classical.choose finite), w.work)
decreasing_by
  rcases measure_next (Classical.choose_spec finite) reachable hnext with h | ⟨h, h'⟩
  · exact Prod.Lex.left _ _ h
  · rw [h]
    exact Prod.Lex.right _ h'

end Walk

/-- Everything that `root` depends on, each key after its dependencies and `root` last, or a
cycle among them. -/
def order [DecidableEq κ] [Hashable κ] (dependencies : κ → List κ) (root : κ)
    (finite : FinitelyReachable dependencies root) : Except (Cycle κ) (List κ) :=
  Walk.run dependencies root finite (.start dependencies root)
    (Walk.pendingReachable_start dependencies root)

end Dataflow.Dependency
