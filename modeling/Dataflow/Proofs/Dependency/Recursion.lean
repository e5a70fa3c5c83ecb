import Mathlib.Data.Finset.Card
import Mathlib.Data.Finset.SDiff
import Dataflow.Proofs.Dependency.Run

/-!
# Recursive walks

`visit` is a depth-first walk by recursion: it visits keys in order, a key that is met for the first
time together with all it depends on, and lists a key once this is done. The walk that keeps its
path as a stack of frames gives the same order and the same cycle (`order_eq_depthFirst`). A
dependency that comes again has been dealt with the first time, so a list of dependencies can do
without it (`Thinned`, `order_recurses`).
-/

namespace Dataflow.Dependency

variable {κ : Type} [DecidableEq κ] [Hashable κ]
  {dependencies dependencies' : κ → List κ} {root : κ}

omit [Hashable κ] in
/-- A key that comes onto the path leaves fewer keys off it. -/
theorem card_sdiff_concat_lt {bound path : List κ} {key : κ} (hbound : key ∈ bound)
    (hpath : key ∉ path) :
    (bound.toFinset \ (path ++ [key]).toFinset).card < (bound.toFinset \ path.toFinset).card := by
  refine Finset.card_lt_card ((Finset.ssubset_iff_of_subset ?_).2 ⟨key, ?_, ?_⟩)
  · refine Finset.sdiff_subset_sdiff (Finset.Subset.refl _) fun other hother => ?_
    exact List.mem_toFinset.2 (List.mem_append_left _ (List.mem_toFinset.1 hother))
  · simp [hbound, hpath]
  · simp

omit [Hashable κ] in
/-- Visits the pending keys in order and lists each after what it depends on, behind the keys that
are finished. The path leads from the root to the key whose dependencies are pending; the first of
them that is on it closes a cycle. -/
def visit (dependencies : κ → List κ) (root : κ) (finite : FinitelyReachable dependencies root)
    (path finished pending : List κ)
    (reachable : ∀ key ∈ pending, Reachable dependencies root key) :
    Except (Cycle κ) (List κ) :=
  match pending with
  | [] => .ok finished
  | key :: rest =>
      if key ∈ path then .error ⟨path.dropWhile (· ≠ key)⟩
      else if key ∈ finished then
        visit dependencies root finite path finished rest fun other hother =>
          reachable other (List.mem_cons_of_mem _ hother)
      else
        match visit dependencies root finite (path ++ [key]) finished (dependencies key)
          fun _ hother => .step (reachable key List.mem_cons_self) hother with
        | .error cycle => .error cycle
        | .ok finished =>
            visit dependencies root finite path (finished ++ [key]) rest fun other hother =>
              reachable other (List.mem_cons_of_mem _ hother)
termination_by (((Classical.choose finite).toFinset \ path.toFinset).card, pending.length)
decreasing_by
  · exact Prod.Lex.right _ (Nat.lt_succ_self _)
  · exact Prod.Lex.left _ _ (card_sdiff_concat_lt
      (Classical.choose_spec finite key (reachable key List.mem_cons_self)) ‹key ∉ path›)
  · exact Prod.Lex.right _ (Nat.lt_succ_self _)

omit [Hashable κ] in
/-- The depth-first walk from the root: everything that it depends on, each key after its
dependencies, or a cycle among them. -/
def depthFirst (dependencies : κ → List κ) (root : κ)
    (finite : FinitelyReachable dependencies root) : Except (Cycle κ) (List κ) :=
  visit dependencies root finite [] [] [root] fun _ hkey => List.mem_singleton.1 hkey ▸ .root

/-! ## A stack of frames in place of recursion -/

namespace Walk

variable {finite : FinitelyReachable dependencies root} {w w' : Walk κ}

/-- A walk comes to the result of a visit of what its innermost frame has pending: it ends with the
cycle, or goes on once nothing is pending there and the finished keys are listed. -/
def ComesTo (finite : FinitelyReachable dependencies root) (w : Walk κ)
    (reachable : w.PendingReachable dependencies root) (key : κ) (outer : List (Frame κ)) :
    Except (Cycle κ) (List κ) → Prop
  | .error cycle => run dependencies root finite w reachable = .error cycle
  | .ok finished => ∃ (w' : Walk κ) (reachable' : w'.PendingReachable dependencies root),
      w'.Consistent dependencies root ∧ w'.frames = ⟨key, []⟩ :: outer ∧
      w'.listed.reverse = finished ∧
      run dependencies root finite w reachable = run dependencies root finite w' reachable'

/-- Walks with the same run come to the same. -/
theorem ComesTo.of_run {reachable : w.PendingReachable dependencies root}
    {reachable' : w'.PendingReachable dependencies root} {key : κ} {outer : List (Frame κ)}
    {result : Except (Cycle κ) (List κ)} (h : w'.ComesTo finite reachable' key outer result)
    (hrun : run dependencies root finite w reachable =
      run dependencies root finite w' reachable') :
    w.ComesTo finite reachable key outer result := by
  cases result with
  | error cycle => exact hrun.trans h
  | ok finished =>
      obtain ⟨last, hreachable, hconsistent, hframes, hlisted, hlast⟩ := h
      exact ⟨last, hreachable, hconsistent, hframes, hlisted, hrun.trans hlast⟩

end Walk

omit [Hashable κ] in
/-- On the path from the root the cycle that a dependency closes begins where it stands. -/
theorem closeCycle_eq {frames : List (Frame κ)} {key : κ} (hnodup : (frames.map (·.key)).Nodup)
    (hmem : key ∈ frames.map (·.key)) :
    closeCycle frames key = ⟨(frames.map (·.key)).reverse.dropWhile (· ≠ key)⟩ := by
  unfold closeCycle
  generalize frames.map (·.key) = keys at *
  obtain ⟨inner, outer, rfl, hinner⟩ := List.eq_append_cons_of_mem hmem
  have houter : key ∉ outer := (List.nodup_cons.1 (List.nodup_append.1 hnodup).2.1).1
  have htake : (inner ++ key :: outer).takeWhile (· != key) = inner := by
    rw [List.takeWhile_append_of_pos fun other hother => by
      simpa using fun h : other = key => hinner (h ▸ hother)]
    simp
  have hdrop : (inner ++ key :: outer).reverse.dropWhile (· ≠ key) = key :: inner.reverse := by
    rw [List.reverse_append, List.reverse_cons, List.append_assoc,
      List.dropWhile_append_of_pos fun other hother => by
        simpa using fun h : other = key => houter (h ▸ List.mem_reverse.1 hother)]
    simp
  rw [htake, hdrop]

/-- A walk opens a frame for a dependency that is neither on the path nor listed. -/
theorem Walk.Consistent.next_of_new {w : Walk κ} (h : w.Consistent dependencies root)
    {key dependency : κ} {rest : List κ} {outer : List (Frame κ)}
    (hframes : w.frames = ⟨key, dependency :: rest⟩ :: outer)
    (hpath : dependency ∉ w.frames.map (·.key)) (hlisted : dependency ∉ w.listed) :
    w.next dependencies = .running { w with
      frames := ⟨dependency, dependencies dependency⟩ :: ⟨key, rest⟩ :: outer
      marks := w.marks.insert dependency .active } := by
  have hmark : w.marks[dependency]? = none := by
    cases hmark : w.marks[dependency]? with
    | none => rfl
    | some mark =>
        cases mark with
        | active => exact absurd ((h.active dependency).1 hmark) hpath
        | finished => exact absurd ((h.finished dependency).1 hmark) hlisted
  rw [Walk.next, hframes]
  simp only [hmark]

/-- The steps of a walk come to the result of the recursive visit of what its innermost frame has
pending, given the same path and the same finished keys. -/
theorem comesTo_visit {finite : FinitelyReachable dependencies root}
    (path finished pending : List κ)
    (reachable : ∀ key ∈ pending, Reachable dependencies root key) {w : Walk κ} {key : κ}
    {outer : List (Frame κ)} (hconsistent : w.Consistent dependencies root)
    (hreachable : w.PendingReachable dependencies root)
    (hframes : w.frames = ⟨key, pending⟩ :: outer)
    (hpath : w.frames.map (·.key) = path.reverse) (hfinished : w.listed = finished.reverse) :
    w.ComesTo finite hreachable key outer
      (visit dependencies root finite path finished pending reachable) := by
  fun_induction visit dependencies root finite path finished pending reachable
    generalizing w key outer with
  | case1 path finished =>
      exact ⟨w, hreachable, hconsistent, hframes, by rw [hfinished, List.reverse_reverse], rfl⟩
  | case2 path finished dependency rest _ hmem =>
      have hactive : dependency ∈ w.frames.map (·.key) := hpath ▸ List.mem_reverse.2 hmem
      have hmark := (hconsistent.active dependency).2 hactive
      have hnext : w.next dependencies = .ended (.error (closeCycle w.frames dependency)) := by
        rw [Walk.next, hframes]
        simp only [hmark]
      have hcycle := closeCycle_eq hconsistent.pathNodup hactive
      rw [hpath, List.reverse_reverse] at hcycle
      exact (Walk.run_of_ended hreachable hnext).trans (congrArg _ hcycle)
  | case3 path finished dependency rest _ _ hmem _ ih =>
      have hmark := (hconsistent.finished dependency).2 (hfinished ▸ List.mem_reverse.2 hmem)
      have hnext : w.next dependencies = .running { w with frames := ⟨key, rest⟩ :: outer } := by
        rw [Walk.next, hframes]
        simp only [hmark]
      have hrest := ih (Walk.consistent_next hconsistent hnext) (hreachable.next hnext) rfl
        (by simp [← hpath, hframes]) hfinished
      exact hrest.of_run (Walk.run_of_running hreachable hnext)
  | case4 path finished dependency rest _ hnew hunlisted cycle hvisit _ ih =>
      have hnext := hconsistent.next_of_new hframes (by simpa [hpath] using hnew)
        (by simpa [hfinished] using hunlisted)
      have hopened := ih (Walk.consistent_next hconsistent hnext) (hreachable.next hnext) rfl
        (by simp [← hpath, hframes]) hfinished
      rw [hvisit] at hopened
      exact (Walk.run_of_running hreachable hnext).trans hopened
  | case5 path finished dependency rest _ hnew hunlisted finished' hvisit _ ihInner ihRest =>
      have hnext := hconsistent.next_of_new hframes (by simpa [hpath] using hnew)
        (by simpa [hfinished] using hunlisted)
      have hopened := ihInner (Walk.consistent_next hconsistent hnext) (hreachable.next hnext) rfl
        (by simp [← hpath, hframes]) hfinished
      rw [hvisit] at hopened
      -- once the dependency's own are finished, its frame ends and the others are visited
      obtain ⟨last, hreachable', hconsistent', hframes', hlisted', hrun⟩ := hopened
      have hclose : last.next dependencies = .running ⟨⟨key, rest⟩ :: outer,
          last.marks.insert dependency .finished, dependency :: last.listed⟩ := by
        rw [Walk.next, hframes']
      have hrest := ihRest (Walk.consistent_next hconsistent' hclose) (hreachable'.next hclose) rfl
        (by simp [← hpath, hframes]) (by simp [← hlisted'])
      exact Walk.ComesTo.of_run hrest ((Walk.run_of_running hreachable hnext).trans
        (hrun.trans (Walk.run_of_running hreachable' hclose)))

/-- The walk with a stack of frames and the recursive one give the same order, or the same cycle. -/
theorem order_eq_depthFirst (finite : FinitelyReachable dependencies root) :
    order dependencies root finite = depthFirst dependencies root finite := by
  have hreachable : ∀ key ∈ dependencies root, Reachable dependencies root key :=
    fun _ hother => .step .root hother
  have hcomes := @comesTo_visit _ _ _ _ _ finite [root] [] (dependencies root) hreachable _ _ _
    Walk.consistent_start (Walk.pendingReachable_start dependencies root) rfl rfl rfl
  rw [depthFirst, visit, if_neg List.not_mem_nil, if_neg List.not_mem_nil]
  show Walk.run _ _ _ _ _ =
    match visit dependencies root finite [root] [] (dependencies root) _ with
    | .error cycle => .error cycle
    | .ok finished => visit dependencies root finite [] (finished ++ [root]) [] _
  cases hvisit : visit dependencies root finite [root] [] (dependencies root)
      fun _ hother => .step .root hother with
  | error cycle =>
      rw [hvisit] at hcomes
      exact hcomes
  | ok finished =>
      rw [hvisit] at hcomes
      obtain ⟨last, hreachable, -, hframes, hlisted, hrun⟩ := hcomes
      -- the frame of the root ends, and with it the walk
      have hclose : last.next dependencies =
          .running ⟨[], last.marks.insert root .finished, root :: last.listed⟩ := by
        rw [Walk.next, hframes]
      have hended : Walk.next dependencies
          ⟨[], last.marks.insert root .finished, root :: last.listed⟩ =
            .ended (.ok (finished ++ [root])) := by
        rw [Walk.next, List.reverse_cons, hlisted]
      show _ = visit dependencies root finite [] (finished ++ [root]) [] _
      rw [visit]
      exact hrun.trans ((Walk.run_of_running hreachable hclose).trans
        (Walk.run_of_ended (hreachable.next hclose) hended))

/-! ## Dependencies that come again -/

/-- The second list is the first one without some keys that have been met before. A key that is kept
has been met from there on. -/
inductive Thinned : List κ → List κ → List κ → Prop
  | nil {met : List κ} : Thinned met [] []
  | keep {met full thin : List κ} {key : κ} (rest : Thinned (key :: met) full thin) :
      Thinned met (key :: full) (key :: thin)
  | drop {met full thin : List κ} {key : κ} (again : key ∈ met) (rest : Thinned met full thin) :
      Thinned met (key :: full) thin

omit [DecidableEq κ] [Hashable κ] in
/-- A thinned list has no other keys. -/
theorem Thinned.subset {met full thin : List κ} (h : Thinned met full thin) : thin ⊆ full := by
  induction h with
  | nil => exact List.Subset.refl _
  | keep _ ih => exact List.cons_subset_cons _ ih
  | drop _ _ ih => exact List.subset_cons_of_subset _ ih

omit [Hashable κ] in
/-- Keeping the first of equal keys alone is one way to thin a list. -/
theorem thinned_filter_eraseDups (met full : List κ) :
    Thinned met full (full.filter (· ∉ met)).eraseDups := by
  induction full generalizing met with
  | nil => exact .nil
  | cons key rest ih =>
      by_cases hmet : key ∈ met
      · rw [List.filter_cons_of_neg (by simpa using hmet)]
        exact .drop hmet (ih met)
      · have hothers : ((rest.filter (· ∉ met)).filter fun other => !other == key) =
            rest.filter (· ∉ key :: met) := by
          rw [List.filter_filter]
          refine List.filter_congr fun other _ => ?_
          by_cases hother : other = key <;> simp [hother]
        rw [List.filter_cons_of_pos (by simpa using hmet), List.eraseDups_cons, hothers]
        exact .keep (ih (key :: met))

omit [Hashable κ] in
/-- Keeping the first of equal keys alone thins a list. -/
theorem thinned_eraseDups (full : List κ) : Thinned [] full full.eraseDups := by
  have h := thinned_filter_eraseDups [] full
  rwa [List.filter_eq_self.2 fun _ _ => by simp] at h

omit [DecidableEq κ] [Hashable κ] in
/-- Over thinned dependencies nothing else can be reached. -/
theorem Reachable.of_thinned
    (hthin : ∀ key, Reachable dependencies root key →
      Thinned [] (dependencies key) (dependencies' key)) {key : κ}
    (h : Reachable dependencies' root key) : Reachable dependencies root key := by
  induction h with
  | root => exact .root
  | step _ hmem ih => exact .step ih ((hthin _ ih).subset hmem)

omit [Hashable κ] in
/-- What is finished stays finished. -/
theorem subset_of_visit {finite : FinitelyReachable dependencies root}
    {path finished pending finished' : List κ}
    {reachable : ∀ key ∈ pending, Reachable dependencies root key}
    (h : visit dependencies root finite path finished pending reachable = .ok finished') :
    finished ⊆ finished' := by
  fun_induction visit dependencies root finite path finished pending reachable
    generalizing finished' with
  | case1 path finished =>
      cases h
      exact List.Subset.refl _
  | case2 | case4 => cases h
  | case3 path finished key rest _ _ _ _ ih => exact ih h
  | case5 path finished key rest _ _ _ finished₁ hvisit _ ihInner ihRest =>
      intro other hother
      exact ihRest h (List.mem_append_left _ (ihInner hvisit hother))

omit [Hashable κ] in
/-- A visit of thinned keys over thinned dependencies gives the same. Keys that have been met are
finished when they come again. -/
theorem visit_thinned {finite : FinitelyReachable dependencies root}
    {finite' : FinitelyReachable dependencies' root}
    (hthin : ∀ key, Reachable dependencies root key →
      Thinned [] (dependencies key) (dependencies' key))
    (path finished pending : List κ)
    (reachable : ∀ key ∈ pending, Reachable dependencies root key) {met thin : List κ}
    (h : Thinned met pending thin) (hmet : ∀ key ∈ met, key ∉ path ∧ key ∈ finished)
    (reachable' : ∀ key ∈ thin, Reachable dependencies' root key) :
    visit dependencies' root finite' path finished thin reachable' =
      visit dependencies root finite path finished pending reachable := by
  fun_induction visit dependencies root finite path finished pending reachable
    generalizing met thin with
  | case1 path finished =>
      cases h
      rw [visit]
  | case2 path finished key rest _ hmem =>
      cases h with
      | keep hrest => rw [visit, if_pos hmem]
      | drop again => exact absurd hmem (hmet key again).1
  | case3 path finished key rest _ hnew hlisted _ ih =>
      cases h with
      | keep hrest =>
          rw [visit, if_neg hnew, if_pos hlisted]
          refine ih hrest (fun other hother => ?_) _
          rcases List.mem_cons.1 hother with rfl | hother
          · exact ⟨hnew, hlisted⟩
          · exact hmet other hother
      | drop again hrest => exact ih hrest hmet _
  | case4 path finished key rest reachable₁ hnew hunlisted cycle hvisit _ ih =>
      cases h with
      | keep hrest =>
          have hinner := ih (hthin key (reachable₁ key List.mem_cons_self))
            (fun _ hother => absurd hother List.not_mem_nil)
            fun _ hother => .step (reachable' key List.mem_cons_self) hother
          rw [visit, if_neg hnew, if_neg hunlisted, hinner, hvisit]
      | drop again => exact absurd (hmet key again).2 hunlisted
  | case5 path finished key rest reachable₁ hnew hunlisted finished₁ hvisit _ ihInner ihRest =>
      cases h with
      | keep hrest =>
          have hinner := ihInner (hthin key (reachable₁ key List.mem_cons_self))
            (fun _ hother => absurd hother List.not_mem_nil)
            fun _ hother => .step (reachable' key List.mem_cons_self) hother
          rw [visit, if_neg hnew, if_neg hunlisted, hinner, hvisit]
          refine ihRest hrest (fun other hother => ?_) _
          rcases List.mem_cons.1 hother with rfl | hother
          · exact ⟨hnew, by simp⟩
          · exact ⟨(hmet other hother).1,
              List.mem_append_left _ (subset_of_visit hvisit (hmet other hother).2)⟩
      | drop again => exact absurd (hmet key again).2 hunlisted

omit [Hashable κ] in
/-- Thinned dependencies have the same recursive walk. -/
theorem depthFirst_thinned (finite : FinitelyReachable dependencies root)
    (hthin : ∀ key, Reachable dependencies root key →
      Thinned [] (dependencies key) (dependencies' key)) :
    ∃ finite' : FinitelyReachable dependencies' root,
      depthFirst dependencies' root finite' = depthFirst dependencies root finite := by
  obtain ⟨bound, hbound⟩ := id finite
  exact ⟨⟨bound, fun key hkey => hbound key (hkey.of_thinned hthin)⟩,
    visit_thinned hthin [] [] [root] _ (.keep .nil) (fun _ h => absurd h List.not_mem_nil) _⟩

/-- A walk gives what the recursive walk gives, the order as well as the cycle, and dependencies
that come again change neither: they can be left out, some or all of them. -/
theorem order_recurses (finite : FinitelyReachable dependencies root) :
    order dependencies root finite = depthFirst dependencies root finite ∧
    (∀ dependencies' : κ → List κ,
      (∀ key, Reachable dependencies root key →
        Thinned [] (dependencies key) (dependencies' key)) →
      ∃ finite' : FinitelyReachable dependencies' root,
        order dependencies' root finite' = order dependencies root finite) ∧
    ∃ finite' : FinitelyReachable (fun key => (dependencies key).eraseDups) root,
      order (fun key => (dependencies key).eraseDups) root finite' =
        order dependencies root finite := by
  have hthinned : ∀ dependencies' : κ → List κ,
      (∀ key, Reachable dependencies root key →
        Thinned [] (dependencies key) (dependencies' key)) →
      ∃ finite' : FinitelyReachable dependencies' root,
        order dependencies' root finite' = order dependencies root finite := by
    intro dependencies' hthin
    obtain ⟨finite', hsame⟩ := depthFirst_thinned finite hthin
    exact ⟨finite', by rw [order_eq_depthFirst, order_eq_depthFirst, hsame]⟩
  exact ⟨order_eq_depthFirst finite, hthinned,
    hthinned _ fun key _ => thinned_eraseDups (dependencies key)⟩

/-- Dependencies that come again, on the way to a cycle and elsewhere. -/
def repetitive : Nat → List Nat
  | 0 => []
  | 1 => [0, 0]
  | 2 => [1, 0, 1]
  | 3 => [2, 2, 4]
  | 4 => [1, 3]
  | key => [key + 1]

/-- The same dependencies without some of those that come again. -/
def lessRepetitive : Nat → List Nat
  | 2 => [1, 0]
  | 3 => [2, 4]
  | key => repetitive key

/-- From two there is an order and from three a cycle, whether dependencies come again or not. -/
theorem order_repetitive :
    ∃ (finite : FinitelyReachable repetitive 2) (finite₃ : FinitelyReachable repetitive 3),
      depthFirst repetitive 2 finite = .ok [0, 1, 2] ∧
      depthFirst repetitive 3 finite₃ = .error ⟨[3, 4]⟩ ∧
      (∀ key, Reachable repetitive 3 key →
        Thinned [] (repetitive key) (lessRepetitive key)) ∧
      (∃ finite', order lessRepetitive 3 finite' = .error ⟨[3, 4]⟩) ∧
      ∃ finite', order (fun key => (repetitive key).eraseDups) 2 finite' = .ok [0, 1, 2] := by
  have finite : FinitelyReachable repetitive 2 :=
    ⟨[0, 1, 2], fun _ hkey => hkey.mem_of_closed (by decide) (by decide)⟩
  have hmem : ∀ key, Reachable repetitive 3 key → key ∈ [0, 1, 2, 3, 4] :=
    fun _ hkey => hkey.mem_of_closed (by decide) (by decide)
  have finite₃ : FinitelyReachable repetitive 3 := ⟨_, hmem⟩
  have hwalk : walkListed repetitive 10 [⟨2, repetitive 2⟩] [] = some (.ok [0, 1, 2]) := rfl
  have hwalk₃ : walkListed repetitive 20 [⟨3, repetitive 3⟩] [] = some (.error ⟨[3, 4]⟩) := rfl
  have horder : order repetitive 2 finite = .ok [0, 1, 2] := order_of_walkListed finite hwalk
  have horder₃ : order repetitive 3 finite₃ = .error ⟨[3, 4]⟩ := order_of_walkListed finite₃ hwalk₃
  have hthin : ∀ key, Reachable repetitive 3 key →
      Thinned [] (repetitive key) (lessRepetitive key) := by
    intro key hkey
    have hfound := hmem key hkey
    simp only [List.mem_cons, List.not_mem_nil, or_false] at hfound
    rcases hfound with rfl | rfl | rfl | rfl | rfl
    · exact thinned_eraseDups []
    · exact .keep (.keep .nil)
    · exact .keep (.keep (.drop (by decide) .nil))
    · exact .keep (.drop (by decide) (.keep .nil))
    · exact .keep (.keep .nil)
  obtain ⟨hrecurses, -, hdeduped⟩ := order_recurses finite
  obtain ⟨hrecurses₃, hthinned, -⟩ := order_recurses finite₃
  rw [horder] at hrecurses hdeduped
  rw [horder₃] at hrecurses₃
  obtain ⟨finite', horder'⟩ := hthinned _ hthin
  exact ⟨finite, finite₃, hrecurses.symm, hrecurses₃.symm, hthin,
    ⟨finite', horder'.trans horder₃⟩, hdeduped⟩

end Dataflow.Dependency
