/-!
# Arrays that grow on demand

A growing array stands for a function on all natural numbers that has the value `fill`
almost everywhere. `alter` changes the function at one place and extends the array as far
as it must; `getD_alter` says that it changes no other place.
-/

namespace Dataflow.Growing

variable {α : Type}

/-- The array with as many `fill` at its end as it takes to have a place `i`. -/
def extend (fill : α) (i : Nat) (a : Array α) : Array α :=
  if i < a.size then a else a ++ Array.replicate (i + 1 - a.size) fill

/-- The array with `f` applied at place `i`, extended to have it. -/
def alter (fill : α) (i : Nat) (f : α → α) (a : Array α) : Array α :=
  (extend fill i a).modify i f

/-- The array is extended as far as it must, and not cut. -/
theorem size_extend (fill : α) (i : Nat) (a : Array α) :
    (extend fill i a).size = max a.size (i + 1) := by
  unfold extend
  split
  · omega
  · rw [Array.size_append, Array.size_replicate]
    omega

/-- Extending changes no value. -/
theorem getD_extend (fill : α) (i : Nat) (a : Array α) (j : Nat) :
    (extend fill i a).getD j fill = a.getD j fill := by
  unfold extend
  split
  · rfl
  · simp only [Array.getD_eq_getD_getElem?, Array.getElem?_append, Array.getElem?_replicate]
    grind

/-- Altering changes the value at one place only. -/
theorem getD_alter (fill : α) (i : Nat) (f : α → α) (a : Array α) (j : Nat) :
    (alter fill i f a).getD j fill =
      if j = i then f (a.getD i fill) else a.getD j fill := by
  have hsize : i < (extend fill i a).size := by rw [size_extend]; omega
  rw [← getD_extend fill i a j, ← getD_extend fill i a i]
  simp only [alter, Array.getD_eq_getD_getElem?, Array.getElem?_modify]
  grind

end Dataflow.Growing
