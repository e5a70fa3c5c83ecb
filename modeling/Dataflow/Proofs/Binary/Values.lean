import Mathlib.Algebra.Order.Field.Basic
import Mathlib.Algebra.Order.Field.Rat
import Mathlib.Data.Rat.Cast.Order
import Mathlib.Tactic.Linarith
import Dataflow.Proofs.Binary.Sums

/-!
# Values of numbers

The value of a finite number is a rational one. Numbers are ordered as their values are
(`lt_iff_value_lt`), a sum is finite if the exact one is within the limits
(`isFinite_add_iff`), and it is below zero if the exact one is (`add_lt_zero_iff`). What is not
finite stays so when finite numbers are added to it.
-/

namespace Dataflow.Binary.Single

open Float.Model (UnpackedFloat)
open Float.Model.UnpackedFloat
open Format (single)

/-- The value of a number of steps. -/
def ofSteps (n : Int) : ℚ := n / 2 ^ single.scale

/-- The value of a number. That of an infinity is the first power of two out of range. -/
def value (x : Float32) : ℚ := ofSteps (signedSteps x)

/-- The least value that is rounded to infinity, half way between the greatest number and the power
of two that follows. -/
def limit : ℚ := 2 ^ 128 - 2 ^ 103

/-- The limit is above zero. -/
theorem limit_pos : 0 < limit := by
  norm_num [limit]

/-- The number is finite and has the value. -/
structure IsExactly (x : Float32) (q : ℚ) : Prop where
  isFinite : x.isFinite
  value_eq : value x = q

/-! ## Steps -/

/-- A step has a positive value. -/
theorem two_pow_scale_pos : (0 : ℚ) < 2 ^ single.scale := by
  positivity

/-- Values are ordered as steps are. -/
theorem ofSteps_lt_ofSteps {m n : Int} : ofSteps m < ofSteps n ↔ m < n := by
  rw [ofSteps, ofSteps, div_lt_div_iff_of_pos_right two_pow_scale_pos, Int.cast_lt]

/-- Values are ordered as steps are. -/
theorem ofSteps_le_ofSteps {m n : Int} : ofSteps m ≤ ofSteps n ↔ m ≤ n := by
  rw [ofSteps, ofSteps, div_le_div_iff_of_pos_right two_pow_scale_pos, Int.cast_le]

/-- Different steps have different values. -/
theorem ofSteps_inj {m n : Int} : ofSteps m = ofSteps n ↔ m = n := by
  rw [ofSteps, ofSteps, div_left_inj' two_pow_scale_pos.ne', Int.cast_inj]

/-- No steps have no value. -/
@[simp] theorem ofSteps_zero : ofSteps 0 = 0 := by
  rw [ofSteps, Int.cast_zero, zero_div]

/-- The value of a sum of steps. -/
theorem ofSteps_add (m n : Int) : ofSteps (m + n) = ofSteps m + ofSteps n := by
  rw [ofSteps, Int.cast_add, add_div]
  rfl

/-- The value of a difference of steps. -/
theorem ofSteps_sub (m n : Int) : ofSteps (m - n) = ofSteps m - ofSteps n := by
  rw [ofSteps, Int.cast_sub, sub_div]
  rfl

/-- Steps are within the limit if their value is. -/
theorem natAbs_lt_singleLimit_iff (n : Int) :
    n.natAbs < Format.singleLimit ↔ |ofSteps n| < limit := by
  have hlimit : limit * 2 ^ single.scale = (Format.singleLimit : ℚ) := by
    unfold limit
    rw [show single.scale = 149 by decide, Format.singleLimit]
    norm_num
  rw [ofSteps, abs_div, abs_of_pos two_pow_scale_pos, div_lt_iff₀ two_pow_scale_pos, hlimit,
    ← Int.cast_abs, Int.abs_eq_natAbs, Int.cast_natCast, Nat.cast_lt]

variable {x y z : Float32}

/-- A number is exactly the value of some steps if it is finite and has these steps. -/
theorem isExactly_ofSteps_iff (n : Int) :
    IsExactly x (ofSteps n) ↔ x.isFinite ∧ signedSteps x = n :=
  ⟨fun h => ⟨h.isFinite, ofSteps_inj.1 h.value_eq⟩,
    fun h => ⟨h.1, congrArg ofSteps h.2⟩⟩

/-! ## Order -/

/-- A scale that keeps order keeps that of signed numbers too. -/
theorem signed_lt_signed_iff {f : Nat → Nat} (mono : StrictMono f) (zero : f 0 = 0)
    (negative negative' : Bool) (n n' : Nat) :
    signed negative (f n) < signed negative' (f n') ↔ signed negative n < signed negative' n' := by
  have horder := mono.lt_iff_lt (a := n) (b := n')
  have horder' := mono.lt_iff_lt (a := n') (b := n)
  have hpos := mono.lt_iff_lt (a := 0) (b := n)
  have hpos' := mono.lt_iff_lt (a := 0) (b := n')
  rw [zero] at hpos hpos'
  cases negative with
  | false =>
      cases negative' with
      | false =>
          rw [signed_false, signed_false, signed_false, signed_false]
          omega
      | true =>
          rw [signed_false, signed_true, signed_false, signed_true]
          omega
  | true =>
      cases negative' with
      | false =>
          rw [signed_true, signed_false, signed_true, signed_false]
          omega
      | true =>
          rw [signed_true, signed_true, signed_true, signed_true]
          omega

/-- Signed magnitudes are ordered as signed steps are. -/
theorem rank_lt_rank_iff : rank x < rank y ↔ signedSteps x < signedSteps y :=
  (signed_lt_signed_iff single.strictMono_steps single.steps_zero _ _ _ _).symm

/-- Numbers are ordered as their values are. -/
theorem lt_iff_value_lt (hx : ¬ x.isNaN) (hy : ¬ y.isNaN) : x < y ↔ value x < value y := by
  rw [lt_iff_rank_lt hx hy, rank_lt_rank_iff, value, value, ofSteps_lt_ofSteps]

/-- The value of zero. -/
@[simp] theorem value_zero : value 0 = 0 := by
  have hzero : signedSteps 0 = 0 := by decide
  rw [value, hzero, ofSteps_zero]

/-- Zero is a number. -/
theorem not_isNaN_zero : ¬ (0 : Float32).isNaN := by
  decide

/-- A number below zero has a negative value. -/
theorem lt_zero_iff (hx : ¬ x.isNaN) : x < 0 ↔ value x < 0 := by
  rw [lt_iff_value_lt hx not_isNaN_zero, value_zero]

/-- The size of the signed magnitude is the magnitude. -/
theorem natAbs_rank : (rank x).natAbs = magnitude x :=
  natAbs_signed _ _

/-- What is below a number is below all that are not below that one. -/
theorem lt_of_lt_of_not_lt (h : x < y) (h' : ¬ z < y) (hy : ¬ y.isNaN) (hz : ¬ z.isNaN) :
    x < z := by
  have hx : ¬ x.isNaN := fun hx => not_lt_of_isNaN hx h
  rw [lt_iff_value_lt hx hy] at h
  rw [lt_iff_value_lt hz hy] at h'
  rw [lt_iff_value_lt hx hz]
  linarith

/-- A number between zero and a finite one is finite. -/
theorem isFinite_of_not_lt (hx : x.isFinite) (hy : ¬ y.isNaN) (nonneg : ¬ y < 0) (h : ¬ x < y) :
    y.isFinite := by
  have hbelow := isFinite_iff.1 hx
  rw [lt_iff_rank_lt hy not_isNaN_zero, show rank 0 = 0 by decide] at nonneg
  rw [lt_iff_rank_lt (not_isNaN_of_isFinite hx) hy] at h
  rw [← natAbs_rank] at hbelow
  rw [isFinite_iff, ← natAbs_rank]
  omega

/-- A number is its own nearest number. -/
theorem nearestRank_signedSteps (hx : ¬ x.isNaN) : nearestRank (signedSteps x) = rank x := by
  rw [isNaN_iff, Nat.not_lt] at hx
  exact (nearestRank_signed _ _).trans (congrArg _ (Format.nearest_steps hx))

/-! ## Sums -/

/-- The sum of finite numbers is a number. -/
theorem not_isNaN_add (hx : x.isFinite) (hy : y.isFinite) : ¬ (x + y).isNaN := by
  rw [isNaN_iff, ← natAbs_rank, rank_add hx hy, natAbs_nearestRank, Format.nearest_one]
  exact Nat.not_lt.2 (Nat.min_le_right _ _)

/-- The sum of finite numbers is finite if the exact one is within the limits. -/
theorem isFinite_add_iff (hx : x.isFinite) (hy : y.isFinite) :
    (x + y).isFinite ↔ |value x + value y| < limit := by
  rw [isFinite_iff, ← natAbs_rank, rank_add hx hy, natAbs_nearestRank,
    Format.nearest_lt_infinity_iff, natAbs_lt_singleLimit_iff, ofSteps_add]
  rfl

/-- The difference of finite numbers is finite if the exact one is within the limits. -/
theorem isFinite_sub_iff (hx : x.isFinite) (hy : y.isFinite) :
    (x - y).isFinite ↔ |value x - value y| < limit := by
  rw [isFinite_iff, ← natAbs_rank, rank_sub hx hy, natAbs_nearestRank,
    Format.nearest_lt_infinity_iff, natAbs_lt_singleLimit_iff, ofSteps_sub]
  rfl

/-- The value of a finite number is within the limits. -/
theorem abs_value_lt_limit (hx : x.isFinite) : |value x| < limit := by
  rw [value, ← natAbs_lt_singleLimit_iff, ← Format.nearest_lt_infinity_iff, ← natAbs_nearestRank,
    nearestRank_signedSteps (not_isNaN_of_isFinite hx), natAbs_rank]
  exact isFinite_iff.1 hx

/-- The greatest finite number. -/
def greatest : Float32 := ofMagnitude false (single.infinity - 1)

/-- The least finite number. -/
def least : Float32 := ofMagnitude true (single.infinity - 1)

/-- Finite numbers are between the least and the greatest. -/
theorem abs_value_le_greatest (hx : x.isFinite) : |value x| ≤ value greatest := by
  have hgreatest : signedSteps greatest = single.steps (single.infinity - 1) := by decide
  have hle : single.steps (magnitude x) ≤ single.steps (single.infinity - 1) :=
    single.strictMono_steps.monotone (Nat.le_pred_of_lt (isFinite_iff.1 hx))
  have habs : |value x| = ofSteps (single.steps (magnitude x)) := by
    rw [value, ofSteps, abs_div, abs_of_pos two_pow_scale_pos, ← Int.cast_abs, Int.abs_eq_natAbs,
      signedSteps, natAbs_signed]
    rfl
  rw [habs, value, hgreatest, ofSteps_le_ofSteps]
  exact Int.ofNat_le.2 hle

/-- The values of the least and the greatest number. -/
theorem value_greatest : value greatest = 2 ^ 128 - 2 ^ 104 ∧ value least = -value greatest := by
  have hgreatest : signedSteps greatest = (2 ^ 24 - 1) * 2 ^ 253 := by decide
  have hleast : signedSteps least = -((2 ^ 24 - 1) * 2 ^ 253) := by decide
  rw [value, value, hgreatest, hleast, ofSteps, ofSteps, show single.scale = 149 by decide]
  norm_num

/-- A sum is not below a number that the exact sum is not below. -/
theorem not_add_lt (hx : x.isFinite) (hy : y.isFinite) (hz : ¬ z.isNaN)
    (h : value z ≤ value x + value y) : ¬ x + y < z := by
  rw [value, value, value, ← ofSteps_add, ofSteps_le_ofSteps] at h
  rw [lt_iff_rank_lt (not_isNaN_add hx hy) hz, rank_add hx hy, ← nearestRank_signedSteps hz,
    Int.not_lt]
  exact nearestRank_mono h

/-- A sum is not above a number that the exact sum is not above. -/
theorem not_lt_add (hx : x.isFinite) (hy : y.isFinite) (hz : ¬ z.isNaN)
    (h : value x + value y ≤ value z) : ¬ z < x + y := by
  rw [value, value, value, ← ofSteps_add, ofSteps_le_ofSteps] at h
  rw [lt_iff_rank_lt hz (not_isNaN_add hx hy), rank_add hx hy, ← nearestRank_signedSteps hz,
    Int.not_lt]
  exact nearestRank_mono h

/-- Only what is below nothing is nearest to a number below zero. -/
theorem nearestRank_neg_iff (n : Int) : nearestRank n < 0 ↔ n < 0 := by
  unfold nearestRank
  by_cases hneg : n < 0
  · have hnearest : 0 < single.nearest n.natAbs 1 := Format.nearest_pos (by decide) (by omega)
    rw [decide_eq_true hneg, signed_true]
    omega
  · rw [decide_eq_false hneg, signed_false]
    omega

/-- A sum is below zero if the exact one is. -/
theorem add_lt_zero_iff (hx : x.isFinite) (hy : y.isFinite) :
    x + y < 0 ↔ value x + value y < 0 := by
  have hzero : rank 0 = 0 := by decide
  rw [lt_iff_rank_lt (not_isNaN_add hx hy) not_isNaN_zero, hzero, rank_add hx hy,
    nearestRank_neg_iff, value, value, ← ofSteps_add, ← ofSteps_lt_ofSteps,
    ofSteps_zero]

/-! ## Quotients -/

/-- A finite number above zero has a significand without a sign. -/
theorem parts_of_pos (hx : x.isFinite) (positive : 0 < x) :
    ∃ m e h, parts x = .finite .positive m e h := by
  have hparts : (parts x).isFinite := hx
  rw [lt_iff_compare_eq, show parts 0 = .zero .positive from rfl] at positive
  cases hx' : parts x with
  | finite s m e h =>
      cases s with
      | positive => exact ⟨m, e, h, rfl⟩
      | negative =>
          rw [hx'] at positive
          cases positive
  | zero s =>
      rw [hx'] at positive
      cases positive
  | notANumber | infinity =>
      rw [hx'] at hparts
      cases hparts

/-- What is put together without a sign is a number and not below zero. -/
theorem ofParts_positive (m : Nat) (e : Int) (h : 0 < m) :
    ¬ (ofParts (.finite .positive m e h)).isNaN ∧ ¬ ofParts (.finite .positive m e h) < 0 := by
  obtain ⟨hsign, hmagnitude⟩ := ofParts_finite false (e := e) h
  have hnumber : ¬ (ofParts (.finite .positive m e h)).isNaN := by
    rw [isNaN_iff]
    exact Nat.not_lt.2 hmagnitude
  refine ⟨hnumber, ?_⟩
  rw [lt_iff_rank_lt hnumber not_isNaN_zero, rank, show rank 0 = 0 by decide]
  exact hsign ▸ Int.not_lt.2 (Int.natCast_nonneg _)

/-- Rounding keeps the sign. -/
theorem roundWithAccuracy_sign (s : Sign) (m : Nat) (e : Int) (accuracy : Accuracy) :
    roundWithAccuracy .binary32 s m e accuracy = .zero s ∨
      ∃ m' e' h, roundWithAccuracy .binary32 s m e accuracy = .finite s m' e' h := by
  unfold roundWithAccuracy
  dsimp only
  exact (Classical.em _).elim (fun h => .inl (dif_pos h))
    fun h => .inr ⟨_, _, Nat.pos_of_ne_zero h, dif_neg h⟩

/-- The quotient of finite numbers above zero is a number and not below zero. -/
theorem div_nonneg (hx : x.isFinite) (hy : y.isFinite) (positive : 0 < x) (positive' : 0 < y) :
    ¬ (x / y).isNaN ∧ ¬ x / y < 0 := by
  obtain ⟨m, e, h, hparts⟩ := parts_of_pos hx positive
  obtain ⟨m', e', h', hparts'⟩ := parts_of_pos hy positive'
  have hquotient : x / y = ofParts (roundWithAccuracy .binary32 .positive
      (divCore .binary32 m e m' e').1 (divCore .binary32 m e m' e').2.1
      (divCore .binary32 m e m' e').2.2) := by
    show ofParts (div .binary32 (parts x) (parts y)) = _
    rw [hparts, hparts']
    rfl
  rw [hquotient]
  rcases roundWithAccuracy_sign .positive (divCore .binary32 m e m' e').1
    (divCore .binary32 m e m' e').2.1 (divCore .binary32 m e m' e').2.2 with hzero | ⟨_, _, _, heq⟩
  · rw [hzero]
    decide
  · rw [heq]
    exact ofParts_positive _ _ _

/-! ## What is not finite -/

/-- The parts of a number that is not finite. -/
theorem parts_of_not_isFinite (h : ¬ x.isFinite) :
    parts x = .notANumber ∨ parts x = .infinity .positive ∨ parts x = .infinity .negative := by
  have hparts : ¬ (parts x).isFinite := h
  cases hx : parts x with
  | notANumber => exact .inl rfl
  | infinity s =>
      cases s with
      | positive => exact .inr (.inl rfl)
      | negative => exact .inr (.inr rfl)
  | zero s | finite s m e positive =>
      rw [hx] at hparts
      exact absurd rfl hparts

/-- Only minus infinity is below zero and not finite. -/
theorem parts_of_lt_zero (h : ¬ x.isFinite) (below : x < 0) : parts x = .infinity .negative := by
  rw [lt_iff_compare_eq] at below
  rcases parts_of_not_isFinite h with hx | hx | hx
  · rw [hx] at below
    cases below
  · rw [hx] at below
    exact absurd below (by decide)
  · exact hx

/-- No number and infinity are neither below zero nor finite. -/
theorem parts_of_not_lt_zero (h : ¬ x.isFinite) (above : ¬ x < 0) :
    parts x = .notANumber ∨ parts x = .infinity .positive := by
  rw [lt_iff_compare_eq] at above
  rcases parts_of_not_isFinite h with hx | hx | hx
  · exact .inl hx
  · exact .inr hx
  · rw [hx] at above
    exact absurd (by decide) above

/-- What is neither below zero nor finite is not below anything. -/
theorem not_lt_of_not_isFinite (h : ¬ x.isFinite) (above : ¬ x < 0) (y : Float32) : ¬ x < y := by
  rw [lt_iff_compare_eq]
  rcases parts_of_not_lt_zero h above with hx | hx
  · rw [hx]
    exact nofun
  · rw [hx]
    cases parts y with
    | infinity s => cases s <;> exact nofun
    | notANumber | zero | finite => exact nofun

/-- What is finite makes no difference to an infinity. -/
theorem infinity_add {s : Sign} (hx : parts x = .infinity s) (hy : y.isFinite) :
    x + y = ofParts (.infinity s) := by
  have hparts : (parts y).isFinite := hy
  show ofParts (add .binary32 (parts x) (parts y)) = _
  rw [hx]
  cases hy' : parts y with
  | zero | finite => rfl
  | notANumber | infinity =>
      rw [hy'] at hparts
      cases hparts

/-- Minus infinity stays when a finite number is added. -/
theorem add_below (h : ¬ x.isFinite) (below : x < 0) (hy : y.isFinite) :
    ¬ (x + y).isFinite ∧ x + y < 0 := by
  rw [infinity_add (parts_of_lt_zero h below) hy]
  decide

/-- What is neither below zero nor finite stays so when a finite number is added. -/
theorem add_above (h : ¬ x.isFinite) (above : ¬ x < 0) (hy : y.isFinite) :
    ¬ (x + y).isFinite ∧ ¬ x + y < 0 := by
  rcases parts_of_not_lt_zero h above with hx | hx
  · have hsum : x + y = ofParts .notANumber := by
      show ofParts (add .binary32 (parts x) (parts y)) = _
      rw [hx]
      rfl
    rw [hsum]
    decide
  · rw [infinity_add hx hy]
    decide

/-- What is neither below zero nor finite stays so when a number that is not below zero is taken
from it. -/
theorem sub_above (h : ¬ x.isFinite) (above : ¬ x < 0) (hy : ¬ y < 0) :
    ¬ (x - y).isFinite ∧ ¬ x - y < 0 := by
  have hdifference : x - y = ofParts .notANumber ∨ x - y = ofParts (.infinity .positive) := by
    show ofParts (sub .binary32 (parts x) (parts y)) = _ ∨
      ofParts (sub .binary32 (parts x) (parts y)) = _
    rcases parts_of_not_lt_zero h above with hx | hx
    · rw [hx]
      exact .inl rfl
    · rw [hx]
      cases hy' : parts y with
      | notANumber => exact .inl rfl
      | zero | finite => exact .inr rfl
      | infinity s =>
          cases s with
          | positive => exact .inl rfl
          | negative =>
              rw [lt_iff_compare_eq, hy'] at hy
              exact absurd (by decide) hy
  rcases hdifference with heq | heq
  · rw [heq]
    decide
  · rw [heq]
    decide

end Dataflow.Binary.Single
