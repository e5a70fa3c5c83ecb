import Mathlib.Data.List.Nodup
import Dataflow.Proofs.Dependency.Invariant

/-!
# Orders and cycles

The order that a walk gives lists what the root depends on, each key once and after its own
dependencies (`isOrder_of_order`), and the cycle that it reports is one (`isCycle_of_order`).
So there is an order exactly when no reachable key leads back to itself
(`exists_order_iff`).
-/

namespace Dataflow.Dependency

open Relation (ReflTransGen TransGen)

variable {κ : Type} {dependencies : κ → List κ} {root : κ}

/-- A list of what the root depends on, each key once and after its own dependencies, and the root
last. -/
structure IsOrder (dependencies : κ → List κ) (root : κ) (order : List κ) : Prop where
  nodup : order.Nodup
  mem_iff : ∀ key, key ∈ order ↔ Reachable dependencies root key
  getLast : order.getLast? = some root
  settled : Settled dependencies order.reverse

/-- What the root depends on is reached through a chain of dependencies. -/
theorem reachable_iff {key : κ} : Reachable dependencies root key ↔
    ReflTransGen (fun key next => next ∈ dependencies key) root key := by
  constructor
  · intro h
    induction h with
    | root => exact .refl
    | step _ hmem ih => exact .tail ih hmem
  · intro h
    induction h with
    | refl => exact .root
    | tail _ hmem ih => exact .step ih hmem

/-- An order splits at each of its keys into what the key may depend on and the rest. -/
theorem IsOrder.mem_before {before after : List κ} {key dependency : κ}
    (h : IsOrder dependencies root (before ++ key :: after))
    (hdependency : dependency ∈ dependencies key) : dependency ∈ before := by
  have hsettled := h.settled
  rw [List.reverse_append, List.reverse_cons, List.append_assoc] at hsettled
  generalize after.reverse = later at hsettled
  induction later with
  | nil => simpa using hsettled.1 dependency hdependency
  | cons _ later ih => exact ih hsettled.2

/-- A key does not stand before itself. -/
theorem IsOrder.not_mem_before {before after : List κ} {key : κ}
    (h : IsOrder dependencies root (before ++ key :: after)) : key ∉ before :=
  fun hmem => (List.nodup_append.1 h.nodup).2.2 key hmem key List.mem_cons_self rfl

variable [DecidableEq κ] [Hashable κ]

omit [Hashable κ] in
/-- The path from a key on it inward is a cycle if the innermost key depends on that key. -/
theorem closeCycle_isCycle {frames : List (Frame κ)} {dependency : κ}
    (hnodup : (frames.map (·.key)).Nodup)
    (hchain : (frames.map (·.key)).IsChain fun key outward => key ∈ dependencies outward)
    (hmem : dependency ∈ frames.map (·.key))
    (hinner : ∀ key ∈ (frames.map (·.key)).head?, dependency ∈ dependencies key) :
    IsCycle dependencies (closeCycle frames dependency).path := by
  unfold closeCycle
  generalize frames.map (·.key) = keys at *
  -- the path splits where the dependency stands, and the keys inward of it close the cycle
  obtain ⟨inner, outer, rfl, hnew⟩ := List.eq_append_cons_of_mem hmem
  have htake : (inner ++ dependency :: outer).takeWhile (· != dependency) = inner := by
    rw [List.takeWhile_append_of_pos fun key hkey => by
      simpa using fun h : key = dependency => hnew (h ▸ hkey)]
    simp
  have hpath : dependency :: inner.reverse = (inner ++ [dependency]).reverse := by simp
  rw [htake, hpath]
  have hsplit : inner ++ dependency :: outer = (inner ++ [dependency]) ++ outer := by simp
  rw [hsplit] at hnodup hchain hinner
  refine ⟨by simp, List.nodup_reverse.2 (List.Nodup.of_append_left hnodup),
    List.isChain_reverse.2 hchain.left_of_append, ?_⟩
  intro first hfirst last hlast
  rw [← hpath] at hfirst
  obtain rfl : dependency = first := Option.some.inj hfirst
  rw [List.getLast?_reverse] at hlast
  refine hinner last ?_
  cases inner with
  | nil => exact hlast
  | cons => exact hlast

variable (finite : FinitelyReachable dependencies root)

/-- A walk ends in a consistent state. -/
theorem order_ends : ∃ last : Walk κ, last.Consistent dependencies root ∧
    last.next dependencies = .ended (order dependencies root finite) :=
  Walk.run_ends (fun _ _ => Walk.consistent_next) _ _ Walk.consistent_start

/-- The order that a walk gives is one. -/
theorem isOrder_of_order {listed : List κ} (h : order dependencies root finite = .ok listed) :
    IsOrder dependencies root listed := by
  obtain ⟨last, hlast, hended⟩ := order_ends finite
  rw [h] at hended
  rcases Walk.next_ended hended with ⟨hframes, hresult⟩ | ⟨_, _, _, _, _, _, hresult⟩
  · cases hresult
    have hroot := hlast.rootLast
    simp only [hframes, List.map_nil, List.getLast?_nil, Option.none_or] at hroot
    refine ⟨List.nodup_reverse.2 hlast.listedNodup, fun key => ?_, ?_, ?_⟩
    · rw [List.mem_reverse]
      refine ⟨fun hkey => hlast.reachable key (.inr hkey), fun hkey => ?_⟩
      -- the list holds the root and is closed under dependencies
      induction hkey with
      | root => exact List.mem_of_head? hroot
      | step _ hmem ih => exact hlast.settled.mem ih hmem
    · rw [List.getLast?_reverse, hroot]
    · rw [List.reverse_reverse]
      exact hlast.settled
  · cases hresult

/-- The cycle that a walk reports is one, and the root depends on it. -/
theorem isCycle_of_order {cycle : Cycle κ}
    (h : order dependencies root finite = .error cycle) :
    IsCycle dependencies cycle.path ∧ ∀ key ∈ cycle.path, Reachable dependencies root key := by
  obtain ⟨last, hlast, hended⟩ := order_ends finite
  rw [h] at hended
  rcases Walk.next_ended hended with ⟨_, hresult⟩ |
    ⟨key, dependency, pending, outer, hframes, hmark, hresult⟩
  · cases hresult
  · cases hresult
    have hmem := (hlast.active dependency).1 hmark
    have hexplored := hlast.explored
    have hinner : ∀ key ∈ (last.frames.map (·.key)).head?, dependency ∈ dependencies key := by
      rw [hframes] at hexplored ⊢
      intro inner hinner
      obtain rfl : key = inner := Option.some.inj hinner
      exact hexplored.1 dependency List.mem_cons_self
    refine ⟨closeCycle_isCycle hlast.pathNodup hexplored.isChain hmem hinner, ?_⟩
    intro other hother
    refine hlast.reachable other (.inl ?_)
    rcases List.mem_cons.1 hother with rfl | hother
    · exact hmem
    · exact (List.takeWhile_sublist _).subset (List.mem_reverse.1 hother)

/-- There is an order exactly when nothing that the root depends on depends on itself. -/
theorem exists_order_iff : (∃ listed, order dependencies root finite = .ok listed) ↔
    ∀ key, Reachable dependencies root key →
      ¬ TransGen (fun key next => next ∈ dependencies key) key key := by
  constructor
  · intro hlisted key hkey
    obtain ⟨listed, h⟩ := hlisted
    have horder := isOrder_of_order finite h
    refine horder.settled.not_transGen (List.nodup_reverse.2 horder.nodup) ?_
    exact List.mem_reverse.2 ((horder.mem_iff key).2 hkey)
  · intro hacyclic
    cases h : order dependencies root finite with
    | ok listed => exact ⟨listed, rfl⟩
    | error cycle =>
        obtain ⟨hcycle, hreachable⟩ := isCycle_of_order finite h
        obtain ⟨key, hkey, hback⟩ := hcycle.transGen
        exact absurd hback (hacyclic key (hreachable key hkey))

/-! ## Walks without marks -/

omit [Hashable κ] in
/-- A walk that looks for a key on the path and in the list, and not at its mark. It gives up after
a number of steps. -/
def walkListed (dependencies : κ → List κ) :
    Nat → List (Frame κ) → List κ → Option (Except (Cycle κ) (List κ))
  | 0, _, _ => none
  | _ + 1, [], listed => some (.ok listed.reverse)
  | fuel + 1, ⟨key, []⟩ :: outer, listed => walkListed dependencies fuel outer (key :: listed)
  | fuel + 1, ⟨key, dependency :: pending⟩ :: outer, listed =>
      let frames := ⟨key, dependency :: pending⟩ :: outer
      if dependency ∈ frames.map (·.key) then some (.error (closeCycle frames dependency))
      else if dependency ∈ listed then
        walkListed dependencies fuel (⟨key, pending⟩ :: outer) listed
      else
        walkListed dependencies fuel
          (⟨dependency, dependencies dependency⟩ :: ⟨key, pending⟩ :: outer) listed

/-- Without marks a walk ends as it does with them. -/
theorem run_of_walkListed {fuel : Nat} {w : Walk κ} {result : Except (Cycle κ) (List κ)}
    (h : w.Consistent dependencies root) (reachable : w.PendingReachable dependencies root)
    (hwalk : walkListed dependencies fuel w.frames w.listed = some result) :
    Walk.run dependencies root finite w reachable = result := by
  induction fuel generalizing w with
  | zero => cases hwalk
  | succ fuel ih =>
      cases hnext : w.next dependencies with
      | ended ended =>
          rw [Walk.run_of_ended reachable hnext]
          rcases Walk.next_ended hnext with ⟨hframes, rfl⟩ |
            ⟨key, dependency, pending, outer, hframes, hmark, rfl⟩
          · rw [hframes] at hwalk
            exact Option.some.inj hwalk
          · have hmem := (h.active dependency).1 hmark
            rw [hframes] at hwalk hmem ⊢
            rw [walkListed, if_pos hmem] at hwalk
            exact Option.some.inj hwalk
      | running w' =>
          -- in a consistent state a mark says where a key stands, so both walks do the same step
          rw [Walk.run_of_running reachable hnext]
          refine ih (Walk.consistent_next h hnext) _ ?_
          rcases Walk.next_running hnext with ⟨key, outer, hframes, rfl⟩ |
            ⟨key, dependency, pending, outer, hframes, hmark, rfl⟩ |
            ⟨key, dependency, pending, outer, hframes, hmark, rfl⟩
          · rw [hframes] at hwalk
            exact hwalk
          · have hpath : dependency ∉ w.frames.map (·.key) := by
              rw [← h.active, hmark]
              simp
            rw [hframes] at hwalk hpath
            rw [walkListed, if_neg hpath, if_pos ((h.finished dependency).1 hmark)] at hwalk
            exact hwalk
          · have hpath : dependency ∉ w.frames.map (·.key) := by
              rw [← h.active, hmark]
              simp
            have hlisted : dependency ∉ w.listed := by
              rw [← h.finished, hmark]
              simp
            rw [hframes] at hwalk hpath
            rw [walkListed, if_neg hpath, if_neg hlisted] at hwalk
            exact hwalk

/-- The order can be found without marks. -/
theorem order_of_walkListed {fuel : Nat} {result : Except (Cycle κ) (List κ)}
    (h : walkListed dependencies fuel [⟨root, dependencies root⟩] [] = some result) :
    order dependencies root finite = result :=
  run_of_walkListed finite Walk.consistent_start _ h

end Dataflow.Dependency
