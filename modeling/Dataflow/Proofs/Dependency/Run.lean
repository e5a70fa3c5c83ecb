import Mathlib.Algebra.Order.BigOperators.Group.Finset
import Dataflow.Proofs.Dependency.Order

/-!
# Runs of a walk

`Walk.after` takes a number of steps. Every step uses up a dependency or a key that is yet to be
visited, so a walk has ended after as many steps as there are of these, and one more
(`Walk.after_eq_ended`). A walk over renamed keys does the same steps (`order_rename`), and what a
walk meets can be reached from the root, so the dependencies of other keys do not matter
(`order_congr`). `order_lists_reachable` says what an order is, and `order_reports_cycle` when there
is a cycle in its place.
-/

namespace Dataflow.Dependency

open Relation (TransGen)

variable {κ : Type} {dependencies dependencies' : κ → List κ} {root : κ}

namespace Walk

variable [DecidableEq κ] [Hashable κ]

/-- Where a walk is after a number of steps, unless it has ended before. -/
def after (dependencies : κ → List κ) : Nat → Walk κ → Progress κ
  | 0, w => .running w
  | steps + 1, w =>
      match w.next dependencies with
      | .running w' => after dependencies steps w'
      | .ended result => .ended result

/-- A step, and then the others. -/
theorem after_succ_of_running {w w' : Walk κ} (steps : Nat)
    (h : w.next dependencies = .running w') :
    w.after dependencies (steps + 1) = w'.after dependencies steps := by
  rw [after, h]

/-- A walk that ends with its next step takes no other. -/
theorem after_succ_of_ended {w : Walk κ} {result : Except (Cycle κ) (List κ)} (steps : Nat)
    (h : w.next dependencies = .ended result) :
    w.after dependencies (steps + 1) = .ended result := by
  rw [after, h]

/-- A walk that ends after some steps gives the result of its run. -/
theorem run_of_after {finite : FinitelyReachable dependencies root} {w : Walk κ}
    {result : Except (Cycle κ) (List κ)} (reachable : w.PendingReachable dependencies root)
    (steps : Nat) (h : w.after dependencies steps = .ended result) :
    run dependencies root finite w reachable = result := by
  induction steps generalizing w with
  | zero => cases h
  | succ steps ih =>
      cases hnext : w.next dependencies with
      | ended result' =>
          rw [after_succ_of_ended steps hnext] at h
          cases h
          exact run_of_ended reachable hnext
      | running w' =>
          rw [after_succ_of_running steps hnext] at h
          exact (run_of_running reachable hnext).trans (ih (reachable.next hnext) h)

/-! ## How many steps there are -/

/-- The steps that keys of a set without a mark will take: one for each of these keys and one for
each of its dependencies. -/
def unmet (dependencies : κ → List κ) (bound : Finset κ) (marks : Std.HashMap κ Mark) : Nat :=
  ∑ key ∈ bound with marks[key]? = none, ((dependencies key).length + 1)

/-- Marking a key leaves no more steps for the others. -/
theorem unmet_insert_le (bound : Finset κ) (marks : Std.HashMap κ Mark) (key : κ) (mark : Mark) :
    unmet dependencies bound (marks.insert key mark) ≤ unmet dependencies bound marks := by
  refine Finset.sum_le_sum_of_subset fun other hother => ?_
  rw [Finset.mem_filter, Std.HashMap.getElem?_insert] at hother
  rw [Finset.mem_filter]
  grind

/-- Marking a key that had no mark takes its steps away from those of the others. -/
theorem unmet_insert {bound : Finset κ} {marks : Std.HashMap κ Mark} {key : κ} (mark : Mark)
    (hmem : key ∈ bound) (hnew : marks[key]? = none) :
    (dependencies key).length + 1 + unmet dependencies bound (marks.insert key mark) =
      unmet dependencies bound marks := by
  have herase : (bound.filter fun other => (marks.insert key mark)[other]? = none) =
      (bound.filter fun other => marks[other]? = none).erase key := by
    ext other
    rw [Finset.mem_erase, Finset.mem_filter, Finset.mem_filter, Std.HashMap.getElem?_insert]
    grind
  unfold unmet
  rw [herase]
  exact Finset.add_sum_erase _ (fun key => (dependencies key).length + 1)
    (Finset.mem_filter.2 ⟨hmem, hnew⟩)

/-- Every step that does not end the walk leaves less to do, on the path or beyond it. -/
theorem work_add_unmet_lt {bound : Finset κ} {w w' : Walk κ}
    (hbound : ∀ key, Reachable dependencies root key → key ∈ bound)
    (h : w.PendingReachable dependencies root) (hnext : w.next dependencies = .running w') :
    w'.work + unmet dependencies bound w'.marks < w.work + unmet dependencies bound w.marks := by
  obtain ⟨frames, marks, listed⟩ := w
  rcases next_running hnext with ⟨key, outer, rfl, rfl⟩ |
    ⟨key, dependency, pending, outer, rfl, hmark, rfl⟩ |
    ⟨key, dependency, pending, outer, rfl, hmark, rfl⟩
  · have hle : unmet dependencies bound (marks.insert key .finished) ≤
        unmet dependencies bound marks := unmet_insert_le bound marks key .finished
    simp only [work, List.flatMap_cons, List.length_append, List.length_cons,
      List.length_nil]
    omega
  · simp only [work, List.flatMap_cons, List.length_append, List.length_cons]
    omega
  · -- the steps of the dependency move to the path, and the one that leads to it is done
    have hmem := hbound dependency (h _ List.mem_cons_self _ List.mem_cons_self)
    have hsplit : (dependencies dependency).length + 1 +
        unmet dependencies bound (marks.insert dependency .active) =
          unmet dependencies bound marks := unmet_insert .active hmem hmark
    simp only [work, List.flatMap_cons, List.length_append, List.length_cons]
    omega

/-- A walk has ended once it has taken more steps than there are to do, with the result of its
run. -/
theorem after_eq_ended_of_lt (finite : FinitelyReachable dependencies root) {bound : Finset κ}
    (hbound : ∀ key, Reachable dependencies root key → key ∈ bound) {steps : Nat} {w : Walk κ}
    (reachable : w.PendingReachable dependencies root)
    (hsteps : w.work + unmet dependencies bound w.marks < steps) :
    w.after dependencies steps = .ended (run dependencies root finite w reachable) := by
  induction steps generalizing w with
  | zero => omega
  | succ steps ih =>
      cases hnext : w.next dependencies with
      | ended result =>
          have hafter := after_succ_of_ended steps hnext
          rw [hafter, run_of_after reachable _ hafter]
      | running w' =>
          have hless := work_add_unmet_lt hbound reachable hnext
          have hrest := ih (reachable.next hnext) (by omega)
          have hafter := (after_succ_of_running steps hnext).trans hrest
          rw [hafter, run_of_after reachable _ hafter]

/-- A walk from the root ends within one step for each key of a set that holds what can be reached,
one for each of their dependencies, and one more. -/
theorem after_eq_ended (finite : FinitelyReachable dependencies root) {bound : Finset κ}
    (hbound : ∀ key, Reachable dependencies root key → key ∈ bound) :
    (start dependencies root).after dependencies
      (∑ key ∈ bound, ((dependencies key).length + 1) + 1) =
        .ended (order dependencies root finite) := by
  refine after_eq_ended_of_lt finite hbound _ (Nat.lt_succ_of_le (Nat.le_of_eq ?_))
  have hroot : (dependencies root).length + 1 +
      unmet dependencies bound ((∅ : Std.HashMap κ Mark).insert root .active) =
        unmet dependencies bound ∅ :=
    unmet_insert .active (hbound root .root) Std.HashMap.getElem?_empty
  have hall : unmet dependencies bound ∅ = ∑ key ∈ bound, ((dependencies key).length + 1) := by
    simp [unmet]
  rw [← hall, ← hroot]
  simp [start, work]

end Walk

/-- What holds the root and the dependencies of all that it holds, holds what can be reached. -/
theorem Reachable.mem_of_closed {bound : List κ} (hroot : root ∈ bound)
    (hclosed : ∀ key ∈ bound, ∀ dependency ∈ dependencies key, dependency ∈ bound) {key : κ}
    (h : Reachable dependencies root key) : key ∈ bound := by
  induction h with
  | root => exact hroot
  | step _ hmem ih => exact hclosed _ ih _ hmem

/-! ## Renamed keys -/

section

variable {κ' : Type} {σ : κ → κ'} {renamed : κ' → List κ'}

/-- The cycle with its keys renamed. -/
def Cycle.rename (σ : κ → κ') (c : Cycle κ) : Cycle κ' := ⟨c.path.map σ⟩

/-- The frame with its keys renamed. -/
def Frame.rename (σ : κ → κ') (frame : Frame κ) : Frame κ' :=
  ⟨σ frame.key, frame.pending.map σ⟩

/-- The order or the cycle with its keys renamed. -/
def renameResult (σ : κ → κ') : Except (Cycle κ) (List κ) → Except (Cycle κ') (List κ')
  | .ok listed => .ok (listed.map σ)
  | .error cycle => .error (cycle.rename σ)

/-- What can be reached over renamed keys is what can be reached, renamed. -/
theorem Reachable.exists_of_rename
    (hsame : ∀ key, Reachable dependencies root key → renamed (σ key) = (dependencies key).map σ)
    {key' : κ'} (h : Reachable renamed (σ root) key') :
    ∃ key, Reachable dependencies root key ∧ σ key = key' := by
  induction h with
  | root => exact ⟨root, .root, rfl⟩
  | step _ hmem ih =>
      obtain ⟨key, hkey, rfl⟩ := ih
      rw [hsame key hkey] at hmem
      obtain ⟨dependency, hdependency, rfl⟩ := List.mem_map.1 hmem
      exact ⟨dependency, .step hkey hdependency, rfl⟩

/-- Renaming leaves as many keys that can be reached. -/
theorem FinitelyReachable.rename (finite : FinitelyReachable dependencies root)
    (hsame : ∀ key, Reachable dependencies root key →
      renamed (σ key) = (dependencies key).map σ) : FinitelyReachable renamed (σ root) := by
  obtain ⟨bound, hbound⟩ := finite
  refine ⟨bound.map σ, fun key' hkey' => ?_⟩
  obtain ⟨key, hkey, rfl⟩ := hkey'.exists_of_rename hsame
  exact List.mem_map_of_mem (hbound key hkey)

variable [DecidableEq κ] [Hashable κ] [DecidableEq κ'] [Hashable κ']

omit [Hashable κ] [Hashable κ'] in
/-- The cycle that a renamed key closes is the renamed one. -/
theorem closeCycle_rename (hσ : Function.Injective σ) (frames : List (Frame κ)) (key : κ) :
    closeCycle (frames.map (Frame.rename σ)) (σ key) = (closeCycle frames key).rename σ := by
  have htake : ((frames.map (·.key)).map σ).takeWhile (· != σ key) =
      ((frames.map (·.key)).takeWhile (· != key)).map σ := by
    rw [List.takeWhile_map]
    refine congrArg (List.map σ) (congrArg (List.takeWhile · _) (funext fun other => ?_))
    simp [bne, hσ.eq_iff]
  simp only [List.map_map] at htake
  simp only [closeCycle, Cycle.rename, List.map_cons, List.map_reverse, List.map_map,
    ← htake]
  rfl

namespace Walk

/-- The walk over renamed keys is where the other walk is: its frames, marks and list are those of
the other walk. -/
structure Renames (σ : κ → κ') (w : Walk κ) (w' : Walk κ') : Prop where
  frames : w'.frames = w.frames.map (Frame.rename σ)
  marks : ∀ key, w'.marks[σ key]? = w.marks[key]?
  listed : w'.listed = w.listed.map σ

variable {w next : Walk κ} {w' : Walk κ'}

/-- A mark that both walks give is the same in both. -/
theorem marks_insert_rename (hσ : Function.Injective σ) {marks : Std.HashMap κ Mark}
    {marks' : Std.HashMap κ' Mark} (hmarks : ∀ key, marks'[σ key]? = marks[key]?) (key : κ)
    (mark : Mark) (other : κ) :
    (marks'.insert (σ key) mark)[σ other]? = (marks.insert key mark)[other]? := by
  rw [Std.HashMap.getElem?_insert, Std.HashMap.getElem?_insert, hmarks]
  simp [hσ.eq_iff]

/-- A walk over renamed keys starts where the other walk does. -/
theorem renames_start (hσ : Function.Injective σ)
    (hroot : renamed (σ root) = (dependencies root).map σ) :
    (start dependencies root).Renames σ (start renamed (σ root)) where
  frames := by simp [start, Frame.rename, hroot]
  marks := marks_insert_rename hσ (fun _ => by simp) root .active
  listed := rfl

/-- A walk over renamed keys does the steps of the other walk. -/
theorem Renames.next_running (hσ : Function.Injective σ)
    (hsame : ∀ key, Reachable dependencies root key → renamed (σ key) = (dependencies key).map σ)
    (h : w.Renames σ w') (hreachable : w.PendingReachable dependencies root)
    (hnext : w.next dependencies = .running next) :
    ∃ next', w'.next renamed = .running next' ∧ next.Renames σ next' := by
  obtain ⟨hframes, hmarks, hlisted⟩ := h
  rcases Walk.next_running hnext with ⟨key, outer, heq, rfl⟩ |
    ⟨key, dependency, pending, outer, heq, hmark, rfl⟩ |
    ⟨key, dependency, pending, outer, heq, hmark, rfl⟩
  · refine ⟨⟨outer.map (Frame.rename σ), w'.marks.insert (σ key) .finished,
      σ key :: w'.listed⟩, ?_, rfl, marks_insert_rename hσ hmarks key .finished, ?_⟩
    · rw [Walk.next, hframes, heq]
      rfl
    · rw [hlisted]
      rfl
  · refine ⟨{ w' with frames := ⟨σ key, pending.map σ⟩ :: outer.map (Frame.rename σ) }, ?_,
      rfl, hmarks, hlisted⟩
    rw [Walk.next, hframes, heq]
    simp only [List.map_cons, Frame.rename, hmarks, hmark]
  · have hdependency : Reachable dependencies root dependency :=
      hreachable _ (heq ▸ List.mem_cons_self) _ List.mem_cons_self
    refine ⟨{ w' with
      frames := ⟨σ dependency, renamed (σ dependency)⟩ :: ⟨σ key, pending.map σ⟩ ::
        outer.map (Frame.rename σ)
      marks := w'.marks.insert (σ dependency) .active }, ?_, ?_,
      marks_insert_rename hσ hmarks dependency .active, hlisted⟩
    · rw [Walk.next, hframes, heq]
      simp only [List.map_cons, Frame.rename, hmarks, hmark]
    · rw [hsame dependency hdependency]
      rfl

/-- A walk over renamed keys ends as the other walk does. -/
theorem Renames.next_ended (hσ : Function.Injective σ) (h : w.Renames σ w')
    {result : Except (Cycle κ) (List κ)} (hnext : w.next dependencies = .ended result) :
    w'.next renamed = .ended (renameResult σ result) := by
  obtain ⟨hframes, hmarks, hlisted⟩ := h
  rcases Walk.next_ended hnext with ⟨heq, rfl⟩ |
    ⟨key, dependency, pending, outer, heq, hmark, rfl⟩
  · rw [Walk.next, hframes, heq, hlisted, ← List.map_reverse]
    rfl
  · have hclosed := closeCycle_rename hσ w.frames dependency
    rw [← hframes] at hclosed
    rw [renameResult, ← hclosed, Walk.next, hframes, heq]
    simp only [List.map_cons, Frame.rename, hmarks, hmark]

/-- As many steps over renamed keys end a walk as end the other one. -/
theorem Renames.after (hσ : Function.Injective σ)
    (hsame : ∀ key, Reachable dependencies root key → renamed (σ key) = (dependencies key).map σ)
    (h : w.Renames σ w') (hreachable : w.PendingReachable dependencies root) (steps : Nat)
    {result : Except (Cycle κ) (List κ)} (hafter : w.after dependencies steps = .ended result) :
    w'.after renamed steps = .ended (renameResult σ result) := by
  induction steps generalizing w w' with
  | zero => cases hafter
  | succ steps ih =>
      cases hnext : w.next dependencies with
      | running next =>
          obtain ⟨next', hnext', hrenames⟩ := h.next_running hσ hsame hreachable hnext
          rw [after_succ_of_running steps hnext] at hafter
          rw [after_succ_of_running steps hnext']
          exact ih hrenames (hreachable.next hnext) hafter
      | ended ended =>
          rw [after_succ_of_ended steps hnext] at hafter
          cases hafter
          exact after_succ_of_ended steps (h.next_ended hσ hnext)

end Walk

/-- The order, or the cycle, follows a renaming of the keys that can be reached. -/
theorem order_rename (hσ : Function.Injective σ) (finite : FinitelyReachable dependencies root)
    (hsame : ∀ key, Reachable dependencies root key → renamed (σ key) = (dependencies key).map σ)
    (finite' : FinitelyReachable renamed (σ root)) :
    order renamed (σ root) finite' = renameResult σ (order dependencies root finite) := by
  obtain ⟨bound, hbound⟩ := id finite
  have hmem : ∀ key, Reachable dependencies root key → key ∈ bound.toFinset := fun key hkey =>
    List.mem_toFinset.2 (hbound key hkey)
  have hended := Walk.after_eq_ended finite hmem
  have hrenames := Walk.renames_start hσ (hsame root .root)
  exact Walk.run_of_after _ _
    (hrenames.after hσ hsame (Walk.pendingReachable_start _ _) _ hended)

end

variable [DecidableEq κ] [Hashable κ]

/-- The order, or the cycle, depends on the dependencies of what can be reached. -/
theorem order_congr (finite : FinitelyReachable dependencies root)
    (hsame : ∀ key, Reachable dependencies root key → dependencies' key = dependencies key) :
    ∃ finite' : FinitelyReachable dependencies' root,
      order dependencies' root finite' = order dependencies root finite := by
  have hsame' : ∀ key, Reachable dependencies root key →
      dependencies' (id key) = (dependencies key).map id :=
    fun key hkey => by rw [List.map_id, id, hsame key hkey]
  have finite' : FinitelyReachable dependencies' root := finite.rename hsame'
  refine ⟨finite', (order_rename Function.injective_id finite hsame' finite').trans ?_⟩
  cases order dependencies root finite with
  | ok listed => exact congrArg Except.ok (List.map_id listed)
  | error cycle =>
      exact congrArg (fun path => Except.error (Cycle.mk path)) (List.map_id cycle.path)

/-- A walk ends if finitely many keys can be reached. The order that it gives lists these keys, each
once and after its dependencies, with the root last. What it gives depends on the dependencies of
these keys alone. -/
theorem order_lists_reachable (finite : FinitelyReachable dependencies root) :
    (∃ steps, (Walk.start dependencies root).after dependencies steps =
      .ended (order dependencies root finite)) ∧
    (∀ listed, order dependencies root finite = .ok listed → listed.Nodup ∧
      (∀ key, key ∈ listed ↔ Reachable dependencies root key) ∧ listed.getLast? = some root ∧
      ∀ earlier key later, listed = earlier ++ key :: later →
        ∀ dependency ∈ dependencies key, dependency ∈ earlier) ∧
    ∀ dependencies' : κ → List κ,
      (∀ key, Reachable dependencies root key → dependencies' key = dependencies key) →
      ∃ finite' : FinitelyReachable dependencies' root,
        order dependencies' root finite' = order dependencies root finite := by
  refine ⟨?_, fun listed hlisted => ?_, fun dependencies' => order_congr finite⟩
  · obtain ⟨bound, hbound⟩ := id finite
    exact ⟨_, Walk.after_eq_ended finite fun key hkey => List.mem_toFinset.2 (hbound key hkey)⟩
  · have horder := isOrder_of_order finite hlisted
    refine ⟨horder.nodup, horder.mem_iff, horder.getLast, ?_⟩
    rintro earlier key later rfl dependency hdependency
    exact horder.mem_before hdependency

/-- Dependencies of which the keys up to three lead to each other, and the others on without
end. -/
def endless : Nat → List Nat
  | 0 => []
  | 1 => [0]
  | 2 => [0]
  | 3 => [1, 2, 1]
  | key => [key + 1]

/-- From three the keys up to three are listed, whatever the others depend on. -/
theorem order_endless : ∃ finite : FinitelyReachable endless 3,
    order endless 3 finite = .ok [0, 1, 2, 3] ∧
    (∃ steps, (Walk.start endless 3).after endless steps = .ended (.ok [0, 1, 2, 3])) ∧
    (∀ key, key ∈ [0, 1, 2, 3] ↔ Reachable endless 3 key) ∧
    ∃ finite', order (fun key => if key ≤ 3 then endless key else []) 3 finite' =
      .ok [0, 1, 2, 3] := by
  have hmem : ∀ key, Reachable endless 3 key → key ∈ [0, 1, 2, 3] := fun key hkey =>
    hkey.mem_of_closed (by decide) (by decide)
  have finite : FinitelyReachable endless 3 := ⟨[0, 1, 2, 3], hmem⟩
  have hwalk : walkListed endless 10 [⟨3, endless 3⟩] [] = some (.ok [0, 1, 2, 3]) := rfl
  have horder := order_of_walkListed finite hwalk
  obtain ⟨hends, hlists, hcongr⟩ := order_lists_reachable finite
  have hsame : ∀ key, Reachable endless 3 key →
      (if key ≤ 3 then endless key else []) = endless key := by
    intro key hkey
    have hle : key ≤ 3 := by
      have hlisted := hmem key hkey
      simp only [List.mem_cons, List.not_mem_nil, or_false] at hlisted
      omega
    exact if_pos hle
  obtain ⟨finite', horder'⟩ := hcongr _ hsame
  rw [horder] at hends horder'
  exact ⟨finite, horder, hends, (hlists _ horder).2.1, finite', horder'⟩

/-- A walk reports a cycle exactly when one can be reached. What it reports is a cycle without
repeated keys that can be reached. -/
theorem order_reports_cycle (finite : FinitelyReachable dependencies root) :
    ((∃ cycle, order dependencies root finite = .error cycle) ↔
      ∃ key, Reachable dependencies root key ∧
        TransGen (fun key next => next ∈ dependencies key) key key) ∧
    ∀ cycle, order dependencies root finite = .error cycle →
      IsCycle dependencies cycle.path ∧ ∀ key ∈ cycle.path, Reachable dependencies root key := by
  refine ⟨⟨?_, ?_⟩, fun cycle => isCycle_of_order finite⟩
  · intro hfails
    obtain ⟨cycle, h⟩ := hfails
    obtain ⟨hcycle, hreachable⟩ := isCycle_of_order finite h
    obtain ⟨key, hkey, hback⟩ := hcycle.transGen
    exact ⟨key, hreachable key hkey, hback⟩
  · intro hcyclic
    obtain ⟨key, hkey, hback⟩ := hcyclic
    cases h : order dependencies root finite with
    | error cycle => exact ⟨cycle, rfl⟩
    | ok listed => exact absurd hback ((exists_order_iff finite).1 ⟨listed, h⟩ key hkey)

/-- Dependencies of which one and three lead to each other, and the keys from four on without
end. -/
def entangled : Nat → List Nat
  | 0 => [1]
  | 1 => [2, 3]
  | 2 => []
  | 3 => [2, 1]
  | key => [key + 1]

/-- From zero the cycle of one and three is met. -/
theorem order_entangled : ∃ finite : FinitelyReachable entangled 0,
    order entangled 0 finite = .error ⟨[1, 3]⟩ ∧ IsCycle entangled [1, 3] ∧
    (∀ key ∈ [1, 3], Reachable entangled 0 key) ∧
    ∃ key, Reachable entangled 0 key ∧
      TransGen (fun key next => next ∈ entangled key) key key := by
  have finite : FinitelyReachable entangled 0 :=
    ⟨[0, 1, 2, 3], fun _ hkey => hkey.mem_of_closed (by decide) (by decide)⟩
  have hwalk : walkListed entangled 7 [⟨0, entangled 0⟩] [] = some (.error ⟨[1, 3]⟩) := rfl
  have horder := order_of_walkListed finite hwalk
  obtain ⟨hiff, hcycle⟩ := order_reports_cycle finite
  exact ⟨finite, horder, (hcycle _ horder).1, (hcycle _ horder).2, hiff.1 ⟨_, horder⟩⟩

end Dataflow.Dependency
