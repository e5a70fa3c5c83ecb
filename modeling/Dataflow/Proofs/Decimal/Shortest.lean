import Dataflow.Decimal.Shortest
import Dataflow.Proofs.Binary.Halfway

/-!
# Shortest decimals

The decimal that is found for a number lies in the interval of what rounds to the number, and it is
the closer one of the number's two neighbours on its grid unless that one is outside
(`Decimal.shortest_spec`). So a decimal close to an end of the interval is on a grid that is nearly
as wide as the interval (`Interval.Nearest.spread`).
-/

namespace Dataflow.Decimal

open Binary (Format)
open Binary.Format (single)

variable {F : Format} {I : Interval} {num den digits bits : Nat} {place : Int}

/-! ## Grids and intervals -/

/-- The points of a grid are some way apart. -/
theorem gridStep_pos (F : Format) (place : Int) :
    0 < (gridStep F place).1 ∧ 0 < (gridStep F place).2 := by
  simp only [gridStep, Nat.shiftLeft_eq]
  exact ⟨Nat.mul_pos (Nat.pow_pos (by decide)) (Nat.two_pow_pos _), Nat.pow_pos (by decide)⟩

namespace Interval

/-- What lies in an interval is between its ends, and at an end only if it is closed. -/
theorem contains_iff : I.contains num den = true ↔ I.low * den ≤ num ∧ num ≤ I.high * den ∧
    (I.low * den = num ∨ num = I.high * den → I.closed = true) := by
  unfold contains
  cases I.closed
  · simp
    omega
  · simp

/-- The point of a grid that is taken for an interval: a neighbour of the centre that lies in the
interval, and the closer one if both do. The grid has its points at the multiples of `num / den`. -/
inductive Nearest (I : Interval) (num den : Nat) : Nat → Prop
  | below {digits : Nat} (le : digits * num ≤ I.centre * den)
      (lt : I.centre * den < digits * num + num) (contains : I.contains (digits * num) den = true)
      (other : 2 * (I.centre * den - digits * num) ≤ num ∨
        I.contains (digits * num + num) den = false) : Nearest I num den digits
  | above {digits : Nat} (le : digits * num ≤ I.centre * den)
      (lt : I.centre * den < digits * num + num)
      (contains : I.contains (digits * num + num) den = true)
      (other : num ≤ 2 * (I.centre * den - digits * num) ∨
        I.contains (digits * num) den = false) : Nearest I num den (digits + 1)

/-- The point that is taken lies in the interval. -/
theorem Nearest.mem (h : I.Nearest num den digits) : I.contains (digits * num) den = true := by
  cases h with
  | below _ _ contains _ => exact contains
  | above _ _ contains _ => rwa [Nat.add_mul, Nat.one_mul]

/-- What is found on a grid is the point that is to be taken. -/
theorem nearest_of_onGrid? (h : I.onGrid? F place = some digits) :
    I.Nearest (gridStep F place).1 (gridStep F place).2 digits := by
  have hpositive := (gridStep_pos F place).1
  unfold onGrid? at h
  generalize gridStep F place = step at *
  obtain ⟨num, den⟩ := step
  dsimp only at *
  have hsum := Nat.div_add_mod' (I.centre * den) num
  have hrest := Nat.mod_lt (I.centre * den) hpositive
  rw [Nat.add_mul, Nat.one_mul] at h
  generalize I.centre * den / num = below at *
  split at h
  · rename_i hbelow habove
    split at h
    · rename_i hcloser
      cases h
      exact .above (by omega) (by omega) habove (.inl (by omega))
    · rename_i hcloser
      cases h
      exact .below (by omega) (by omega) hbelow (.inl (by omega))
  · rename_i hbelow habove
    cases h
    exact .below (by omega) (by omega) hbelow (.inr habove)
  · rename_i hbelow habove
    cases h
    exact .above (by omega) (by omega) habove (.inr hbelow)
  · cases h

/-- A point close to one of two ends that are equally far from the centre is on a grid that is
nearly twice as wide as that. -/
theorem Nearest.spread {half near : Nat} (h : I.Nearest num den digits) (positive : 0 < half * den)
    (hlow : I.low * den + half * den = I.centre * den)
    (hhigh : I.high * den = I.centre * den + half * den)
    (hnear : digits * num ≤ I.low * den + near ∨ I.high * den ≤ digits * num + near)
    (hclose : near < half * den) : 2 * (half * den) ≤ num + 2 * near := by
  cases h with
  | below le lt contains other =>
      obtain ⟨hge, hle, -⟩ := contains_iff.1 contains
      rcases other with hcloser | hother
      · omega
      · rw [← Bool.not_eq_true, contains_iff] at hother
        omega
  | above le lt contains other =>
      rw [Nat.add_mul, Nat.one_mul] at hnear
      obtain ⟨hge, hle, -⟩ := contains_iff.1 contains
      rcases other with hcloser | hother
      · omega
      · rw [← Bool.not_eq_true, contains_iff] at hother
        omega

end Interval

/-! ## The search for the coarsest grid -/

/-- On a grid that is as fine as any, a point is found. -/
theorem onGrid?_isSome (hfine : (gridStep F place).1 ≤ (gridStep F place).2)
    (hlow : I.low < I.centre) (hhigh : I.centre < I.high) : (I.onGrid? F place).isSome := by
  obtain ⟨hpositive, hden⟩ := gridStep_pos F place
  unfold Interval.onGrid?
  generalize gridStep F place = step at *
  obtain ⟨num, den⟩ := step
  dsimp only at *
  have hsum := Nat.div_add_mod' (I.centre * den) num
  have hrest := Nat.mod_lt (I.centre * den) hpositive
  have hbelow : I.contains (I.centre * den / num * num) den = true := by
    have hlow := Nat.mul_le_mul_right den (Nat.succ_le_of_lt hlow)
    have hhigh := Nat.mul_lt_mul_of_pos_right hhigh hden
    rw [Nat.succ_mul] at hlow
    exact Interval.contains_iff.2 (by omega)
  rw [hbelow]
  split <;> simp_all

/-- The decimal that is found is on the first grid with a point, or on the last one. -/
theorem coarsest_spec (hlast : (I.onGrid? F (-F.scale)).isSome) (count : Nat) :
    ∃ power ≤ count, (coarsest F I count).place = power - F.scale ∧
      I.onGrid? F (coarsest F I count).place = some (coarsest F I count).digits := by
  induction count with
  | zero =>
      refine ⟨0, Nat.le_refl 0, by simp [coarsest], ?_⟩
      obtain ⟨digits, hdigits⟩ := Option.isSome_iff_exists.1 hlast
      simp [coarsest, hdigits]
  | succ count ih =>
      unfold coarsest
      dsimp only
      split
      · rename_i digits hdigits
        exact ⟨count + 1, Nat.le_refl _, rfl, hdigits⟩
      · obtain ⟨power, hle, hplace, hfound⟩ := ih
        exact ⟨power, Nat.le_succ_of_le hle, hplace, hfound⟩

/-- The shortest decimal lies in the interval of what rounds to the number, and it is the neighbour
of the number on its grid that is to be taken. -/
theorem shortest_spec (positive : 0 < bits) :
    ∃ power ≤ single.scale + (single.steps bits >>> single.scale).log2 + 1,
      (shortest single bits).place = power - single.scale ∧
      (Interval.around single bits).Nearest (gridStep single (shortest single bits).place).1
        (gridStep single (shortest single bits).place).2 (shortest single bits).digits := by
  have hbelow : single.steps (bits - 1) < single.steps bits :=
    single.strictMono_steps (Nat.sub_lt positive Nat.one_pos)
  have habove : single.steps bits < single.steps (bits + 1) :=
    single.strictMono_steps (Nat.lt_succ_self bits)
  have hlast : ((Interval.around single bits).onGrid? single (-single.scale)).isSome :=
    onGrid?_isSome (by decide) (by simp only [Interval.around]; omega)
      (by simp only [Interval.around]; omega)
  obtain ⟨power, hle, hplace, hfound⟩ := coarsest_spec hlast
    (single.scale + (single.steps bits >>> single.scale).log2 + 1)
  exact ⟨power, hle, hplace, Interval.nearest_of_onGrid? hfound⟩

/-- The shortest decimal of a positive number is positive and not above `2 ^ 128`, and its last
digit is not finer than the step. -/
theorem shortest_bounds (positive : 0 < bits) (finite : bits < single.infinity) :
    0 < (shortest single bits).digits ∧
    (shortest single bits).digits * 10 ^ (shortest single bits).place.toNat ≤
      2 ^ 128 * 10 ^ (-(shortest single bits).place).toNat ∧
    -149 ≤ (shortest single bits).place := by
  obtain ⟨power, -, hplace, hnearest⟩ := shortest_spec positive
  obtain ⟨hlow, hhigh, -⟩ := Interval.contains_iff.1 hnearest.mem
  have hscale : single.scale = 149 := by decide
  rw [hscale] at hplace
  have hbottom : 0 < single.steps (bits - 1) + single.steps bits := by
    have := single.strictMono_steps positive
    omega
  have htop : single.steps bits + single.steps (bits + 1) ≤ 2 ^ 128 * 2 ^ 150 := by
    have hinfinity : single.steps single.infinity = 2 ^ 127 * 2 ^ 150 := by decide +kernel
    have hle := single.strictMono_steps.monotone finite.le
    have hle' := single.strictMono_steps.monotone (Nat.succ_le_of_lt finite)
    rw [hinfinity] at hle hle'
    rw [Nat.succ_eq_add_one] at hle'
    omega
  obtain ⟨-, hden⟩ := gridStep_pos single (shortest single bits).place
  generalize (shortest single bits).place = place at *
  generalize (shortest single bits).digits = digits at *
  have hnum : (gridStep single place).1 = 10 ^ place.toNat * 2 ^ 150 := Nat.shiftLeft_eq _ _
  have hdown : (gridStep single place).2 = 10 ^ (-place).toNat := rfl
  refine ⟨Nat.pos_of_ne_zero ?_, ?_, by omega⟩
  · rintro rfl
    rw [Nat.zero_mul] at hlow
    exact absurd (Nat.mul_pos hbottom hden) (Nat.not_lt.2 hlow)
  · have hle := hhigh.trans (Nat.mul_le_mul_right _ htop)
    rw [hnum, hdown, ← Nat.mul_assoc, Nat.mul_right_comm (2 ^ 128)] at hle
    exact Nat.le_of_mul_le_mul_right hle (Nat.two_pow_pos 150)

end Dataflow.Decimal
