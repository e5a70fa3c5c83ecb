import Mathlib.Data.List.Induction
import Dataflow.Proofs.Graph.Removal

/-!
# The keys of an arena

An arena in use accounts for all keys that it has made (`Arena.Accounts`): the keys of one place
count up by twos, and what the place holds, or else what is noted of it among the free ones, is its
last key. So the next key is always a new one (`Accounts.nextKey_not_mem`), and what a key finds
changes only with its own item (`Accounts.get?_add`, `get?_update`, `get?_remove`).
-/

namespace Dataflow

namespace Key

/-- How many of the keys name a place. -/
def uses (made : List Key) (index : Nat) : Nat := (made.map (·.index)).count index

/-- None of no keys names a place. -/
@[simp] theorem uses_nil (index : Nat) : uses [] index = 0 := rfl

/-- The keys of two lists that name a place are counted together. -/
@[simp] theorem uses_append (made made' : List Key) (index : Nat) :
    uses (made ++ made') index = uses made index + uses made' index := by
  simp [uses]

/-- A key names its own place once and no other. -/
@[simp] theorem uses_singleton (k : Key) (index : Nat) :
    uses [k] index = if k.index = index then 1 else 0 := by
  simp [uses, List.count_singleton]

/-- The version of each key says how often its place was used before. -/
def CountUp (made : List Key) : Prop :=
  ∀ earlier k, earlier ++ [k] <+: made → k.version = 2 * uses earlier k.index + 1

/-- One more key goes on with the count of its place. -/
theorem CountUp.concat {made : List Key} {k : Key} (h : CountUp made)
    (hk : k.version = 2 * uses made k.index + 1) : CountUp (made ++ [k]) := by
  intro earlier k' hbegins
  rcases List.prefix_concat_iff.1 hbegins with heq | hbegins
  · obtain ⟨rfl, hlast⟩ := List.append_inj' heq rfl
    cases hlast
    exact hk
  · exact h earlier k' hbegins

/-- All uses of a place so far have their keys among those made, and no others are. -/
theorem CountUp.mem_iff {made : List Key} (h : CountUp made) {k : Key} :
    k ∈ made ↔ ∃ m < uses made k.index, k.version = 2 * m + 1 := by
  induction made using List.reverseRecOn with
  | nil => simp
  | append_singleton made last ih =>
      have hlast : last.version = 2 * uses made last.index + 1 := h made last (List.prefix_refl _)
      rw [List.mem_append, List.mem_singleton,
        ih fun earlier k hbegins => h earlier k (hbegins.trans (List.prefix_append _ _)),
        uses_append, uses_singleton]
      constructor
      · rintro (⟨m, hm, hversion⟩ | rfl)
        · exact ⟨m, Nat.lt_add_right _ hm, hversion⟩
        · exact ⟨uses made k.index, by simp, hlast⟩
      · intro hused
        obtain ⟨m, hm, hversion⟩ := hused
        by_cases hbefore : m < uses made k.index
        · exact .inl ⟨m, hbefore, hversion⟩
        · -- it is the last use, so the place is that of the last key
          obtain ⟨index, version⟩ := k
          obtain ⟨lastIndex, lastVersion⟩ := last
          have hindex : lastIndex = index := by
            by_contra hne
            simp [hne] at hm
            exact hbefore hm
          subst hindex
          have hm' : m = uses made lastIndex := by
            simp at hm
            simp at hbefore
            omega
          subst hm'
          right
          simp only [Key.mk.injEq, true_and]
          exact hversion.trans hlast.symm

/-- No key is made twice. -/
theorem CountUp.nodup {made : List Key} (h : CountUp made) : made.Nodup := by
  induction made using List.reverseRecOn with
  | nil => exact List.nodup_nil
  | append_singleton made last ih =>
      have hearlier : CountUp made :=
        fun earlier k hbegins => h earlier k (hbegins.trans (List.prefix_append _ _))
      have hlast : last.version = 2 * uses made last.index + 1 := h made last (List.prefix_refl _)
      refine List.nodup_append.2 ⟨ih hearlier, List.nodup_singleton _, ?_⟩
      rintro k hk k' hk' rfl
      cases List.mem_singleton.1 hk'
      obtain ⟨m, hm, hversion⟩ := hearlier.mem_iff.1 hk
      omega

end Key

namespace Arena

open Key (uses CountUp)

variable {α : Type} {a : Arena α} {made : List Key} {k : Key} {x : α}

/-- The keys that an arena has made up to now, in the order in which it made them, as its places and
its free places tell of them. The keys of each place count up by twos. What is in a place is under
its last key; a free place is empty, and its last key is noted once. No key names a place that there
is not. -/
structure Accounts (a : Arena α) (made : List Key) : Prop where
  countUp : CountUp made
  held : ∀ {index version x}, a.places[index]? = some (some (version, x)) →
    version + 1 = 2 * uses made index
  freed : ∀ {k}, k ∈ a.free →
    a.places[k.index]? = some none ∧ k.version + 1 = 2 * uses made k.index
  nodup : (a.free.map (·.index)).Nodup
  unused : ∀ {index}, a.places[index]? = none → uses made index = 0

/-- The empty arena has made no key. -/
theorem accounts_empty : (empty : Arena α).Accounts [] where
  countUp _ _ hbegins := absurd (List.prefix_nil.1 hbegins) (by simp)
  held hplace := by
    simp [empty, List.getElem?_cons] at hplace
  freed hk := absurd hk (List.not_mem_nil)
  nodup := List.nodup_nil
  unused _ := rfl

namespace Accounts

/-- The next key goes on with the count of its place. -/
theorem version_nextKey (h : a.Accounts made) :
    a.nextKey.version = 2 * uses made a.nextKey.index + 1 := by
  unfold nextKey
  cases hfree : a.free with
  | nil =>
      have hsize : a.places[a.places.size]? = none := by simp
      simp [h.unused hsize]
  | cons old rest =>
      have hold := (h.freed (hfree ▸ List.mem_cons_self)).2
      show old.version + 2 = 2 * uses made old.index + 1
      omega

/-- The next key is a new one. -/
theorem nextKey_not_mem (h : a.Accounts made) : a.nextKey ∉ made := by
  intro hmem
  obtain ⟨m, hm, hversion⟩ := h.countUp.mem_iff.1 hmem
  have := h.version_nextKey
  omega

/-- Nothing is in the place of the next key. -/
theorem ne_place_nextKey (h : a.Accounts made) {version : Nat} :
    a.places[a.nextKey.index]? ≠ some (some (version, x)) := by
  unfold nextKey
  cases hfree : a.free with
  | nil => simp
  | cons old rest =>
      have hold := (h.freed (hfree ▸ List.mem_cons_self)).1
      show a.places[old.index]? ≠ _
      rw [hold]
      nofun

/-- Whatever is found was put under a key that was made. -/
theorem mem_of_get? (h : a.Accounts made) (hk : a.get? k = some x) : k ∈ made := by
  have hlast := h.held (get?_eq_some_iff.1 hk)
  refine h.countUp.mem_iff.2 ⟨uses made k.index - 1, ?_, ?_⟩ <;> omega

/-- What a place holds is under a later version than what it held before. -/
theorem version_lt (h : a.Accounts made) {k k' : Key} (hk : k ∈ made) (hk' : a.get? k' = some x)
    (hne : k ≠ k') (hindex : k.index = k'.index) : k.version < k'.version := by
  obtain ⟨m, hm, hversion⟩ := h.countUp.mem_iff.1 hk
  have hlast := h.held (get?_eq_some_iff.1 hk')
  have hother := Key.version_ne hne hindex
  rw [hindex] at hm
  omega

end Accounts

/-- The place of the next key holds the new item, and the others hold what they held. -/
theorem getElem?_places_add (h : a.Accounts made) (x : α) (index : Nat) :
    (a.add x).places[index]? =
      if index = a.nextKey.index then some (some (a.nextKey.version, x)) else a.places[index]? := by
  unfold add nextKey
  cases hfree : a.free with
  | nil => simp [Array.getElem?_push]
  | cons old rest =>
      have hold := (h.freed (hfree ▸ List.mem_cons_self)).1
      obtain ⟨hlt, -⟩ := Array.getElem?_eq_some_iff.1 hold
      simp only [Array.getElem?_setIfInBounds, eq_comm (a := old.index)]
      grind

/-- The new item is found, and the others are as before. -/
theorem Accounts.get?_add (h : a.Accounts made) (x : α) (k : Key) :
    (a.add x).get? k = if k = a.nextKey then some x else a.get? k := by
  refine Option.ext fun y => ?_
  rw [get?_eq_some_iff, getElem?_places_add h]
  by_cases hk : k = a.nextKey
  · simp [hk]
  · rw [if_neg hk, get?_eq_some_iff]
    split
    · rename_i hindex
      -- the place was empty before, and now another use of it has begun
      have hversion := Key.version_ne hk hindex
      rw [hindex]
      simp [Ne.symm hversion, h.ne_place_nextKey]
    · exact Iff.rfl

/-- The place of a changed item holds it in the same use, and the others hold what they held. -/
theorem getElem?_places_update (hk : a.get? k = some x) (f : α → α) (index : Nat) :
    (a.update k f).places[index]? =
      if index = k.index then some (some (k.version, f x)) else a.places[index]? := by
  obtain ⟨hlt, -⟩ := Array.getElem?_eq_some_iff.1 (get?_eq_some_iff.1 hk)
  simp only [update, hk, Array.getElem?_setIfInBounds, eq_comm (a := k.index)]
  grind

/-- A change reaches the item under its key, and no other. -/
theorem get?_update (a : Arena α) (k : Key) (f : α → α) (k' : Key) :
    (a.update k f).get? k' = if k' = k then (a.get? k).map f else a.get? k' := by
  cases hk : a.get? k with
  | none =>
      have hsame : a.update k f = a := by simp [update, hk]
      rw [hsame]
      split
      · rename_i heq
        rw [heq, hk]
        rfl
      · rfl
  | some x =>
      have hplace := get?_eq_some_iff.1 hk
      refine Option.ext fun y => ?_
      rw [get?_eq_some_iff, getElem?_places_update hk]
      by_cases heq : k' = k
      · simp [heq]
      · rw [if_neg heq, get?_eq_some_iff]
        split
        · rename_i hindex
          -- the place is in one use only
          have hversion := Key.version_ne heq hindex
          simp [hindex, hplace, Ne.symm hversion]
        · exact Iff.rfl

namespace Accounts

/-- A new item makes the next key one of those made. -/
theorem add (h : a.Accounts made) (x : α) : (a.add x).Accounts (made ++ [a.nextKey]) where
  countUp := h.countUp.concat h.version_nextKey
  held {index version y} hplace := by
    rw [getElem?_places_add h] at hplace
    have hnext := h.version_nextKey
    split at hplace
    · rename_i hindex
      cases hplace
      simp [hindex]
      omega
    · rename_i hindex
      simpa [Ne.symm hindex] using h.held hplace
  freed {k} hk := by
    have hrest : k ∈ a.free ∧ k.index ≠ a.nextKey.index := by
      unfold Arena.add at hk
      unfold nextKey
      cases hfree : a.free with
      | nil => simp [hfree] at hk
      | cons old rest =>
          simp only [hfree] at hk
          have hnodup := hfree ▸ h.nodup
          refine ⟨List.mem_cons_of_mem _ hk, fun heq : k.index = old.index => ?_⟩
          exact (List.nodup_cons.1 hnodup).1 (List.mem_map.2 ⟨k, hk, heq⟩)
    obtain ⟨hmem, hindex⟩ := hrest
    obtain ⟨hempty, hlast⟩ := h.freed hmem
    rw [getElem?_places_add h, if_neg hindex]
    exact ⟨hempty, by simpa [Ne.symm hindex] using hlast⟩
  nodup := by
    unfold Arena.add
    cases hfree : a.free with
    | nil => exact List.nodup_nil
    | cons old rest => exact (List.nodup_cons.1 (hfree ▸ h.nodup)).2
  unused {index} hnone := by
    rw [getElem?_places_add h] at hnone
    split at hnone
    · cases hnone
    · rename_i hindex
      simpa [Ne.symm hindex] using h.unused hnone

/-- A change of an item makes no key. -/
theorem update (h : a.Accounts made) (k : Key) (f : α → α) : (a.update k f).Accounts made := by
  cases hk : a.get? k with
  | none =>
      have hsame : a.update k f = a := by simp [Arena.update, hk]
      rw [hsame]
      exact h
  | some x =>
      have hlast := h.held (get?_eq_some_iff.1 hk)
      have hfree : (a.update k f).free = a.free := by simp [Arena.update, hk]
      refine ⟨h.countUp, fun hplace => ?_, fun hmem => ?_, hfree ▸ h.nodup, fun hnone => ?_⟩
      · rw [getElem?_places_update hk] at hplace
        split at hplace
        · rename_i hindex
          cases hplace
          rw [hindex]
          exact hlast
        · exact h.held hplace
      · rename_i freed
        rw [hfree] at hmem
        obtain ⟨hempty, hversion⟩ := h.freed hmem
        have hindex : freed.index ≠ k.index := by
          intro heq
          rw [heq, get?_eq_some_iff.1 hk] at hempty
          cases hempty
        rw [getElem?_places_update hk, if_neg hindex]
        exact ⟨hempty, hversion⟩
      · rw [getElem?_places_update hk] at hnone
        split at hnone
        · cases hnone
        · exact h.unused hnone

/-- The removal of an item makes no key. -/
theorem remove (h : a.Accounts made) (k : Key) : (a.remove k).Accounts made := by
  cases hk : a.get? k with
  | none =>
      have hsame : a.remove k = a := by simp [Arena.remove, contains, hk]
      rw [hsame]
      exact h
  | some x =>
      have hplace := get?_eq_some_iff.1 hk
      have hfree : (a.remove k).free = k :: a.free := by simp [Arena.remove, contains, hk]
      -- a place that holds something is not yet among the free ones
      have hother : ∀ freed ∈ a.free, freed.index ≠ k.index := by
        intro freed hmem heq
        have hempty := (h.freed hmem).1
        rw [heq, hplace] at hempty
        cases hempty
      refine ⟨h.countUp, fun hplace' => ?_, fun hmem => ?_, ?_, fun hnone => ?_⟩
      · rw [getElem?_places_remove hk] at hplace'
        split at hplace'
        · cases hplace'
        · exact h.held hplace'
      · rw [hfree] at hmem
        rw [getElem?_places_remove hk]
        rcases List.mem_cons.1 hmem with rfl | hmem
        · exact ⟨if_pos rfl, h.held hplace⟩
        · rw [if_neg (hother _ hmem)]
          exact h.freed hmem
      · rw [hfree, List.map_cons, List.nodup_cons]
        refine ⟨fun hmem => ?_, h.nodup⟩
        obtain ⟨freed, hfreed, heq⟩ := List.mem_map.1 hmem
        exact hother freed hfreed heq
      · rw [getElem?_places_remove hk] at hnone
        split at hnone
        · cases hnone
        · exact h.unused hnone

end Accounts

end Arena

end Dataflow
