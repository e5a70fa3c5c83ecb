import Dataflow.Proofs.Binary.Rounding

/-!
# Sums and differences are rounded once

A finite number is a whole number of steps with a sign, and so are sums and differences of finite
numbers. The sum of two finite numbers is the number nearest to the exact one (`rank_add`,
`rank_sub`), and nearest numbers are ordered as what they are nearest to (`nearestRank_mono`).
-/

namespace Dataflow.Binary.Single

open Float.Model (UnpackedFloat)
open Float.Model.UnpackedFloat
open Format (single)

/-! ## The number nearest to a signed number of steps -/

/-- The signed magnitude of the number nearest to a signed number of steps. -/
def nearestRank (n : Int) : Int :=
  signed (decide (n < 0)) (single.nearest n.natAbs 1)

/-- A sign does not change the size of a number. -/
@[simp] theorem natAbs_signed (negative : Bool) (n : Nat) : (signed negative n).natAbs = n := by
  cases negative with
  | false => exact Int.natAbs_natCast n
  | true => rw [signed_true, Int.natAbs_neg, Int.natAbs_natCast]

/-- The size of the nearest number is that of the number nearest to the size. -/
theorem natAbs_nearestRank (n : Int) : (nearestRank n).natAbs = single.nearest n.natAbs 1 :=
  natAbs_signed _ _

/-- Nothing is nearest to nothing. -/
theorem nearest_zero : single.nearest 0 1 = 0 := by
  decide

/-- The nearest number has the same sign. -/
theorem nearestRank_signed (negative : Bool) (n : Nat) :
    nearestRank (signed negative n) = signed negative (single.nearest n 1) := by
  unfold nearestRank
  rw [natAbs_signed]
  cases negative with
  | false =>
      rw [signed_false, decide_eq_false (by omega)]
  | true =>
      rcases Nat.eq_zero_or_pos n with rfl | hpos
      · rw [nearest_zero, signed_zero, signed_zero]
      · rw [signed_true, decide_eq_true (by omega)]

/-- The numbers nearest to more and more steps become no smaller. -/
theorem nearestRank_mono {n n' : Int} (hle : n ≤ n') : nearestRank n ≤ nearestRank n' := by
  have hmono {a b : Nat} (h : a ≤ b) : single.nearest a 1 ≤ single.nearest b 1 :=
    single.nearest_mono h
  unfold nearestRank
  by_cases hneg : n < 0
  · rw [decide_eq_true hneg, signed_true]
    by_cases hneg' : n' < 0
    · have hsize := hmono (show n'.natAbs ≤ n.natAbs by omega)
      rw [decide_eq_true hneg', signed_true]
      omega
    · rw [decide_eq_false hneg', signed_false]
      omega
  · have hneg' : ¬ n' < 0 := by omega
    have hsize := hmono (show n.natAbs ≤ n'.natAbs by omega)
    rw [decide_eq_false hneg, decide_eq_false hneg', signed_false, signed_false]
    omega

/-- What is put together after rounding is the nearest number. -/
theorem rank_ofParts_normalize (n : Int) (j : Nat) :
    rank (ofParts (UnpackedFloat.normalize .binary32 n (j - 149) .positive)) =
      nearestRank (n * 2 ^ j) := by
  have hround (negative : Bool) {m : Nat} (positive : 0 < m) :
      rank (ofParts (UnpackedFloat.round .binary32 (signOf negative) m (j - 149))) =
        nearestRank (signed negative (m * 2 ^ j)) := by
    obtain ⟨m', k, fits, positive', heq, hjoin⟩ := round_eq (signOf negative) positive j
    rw [heq, nearestRank_signed, Format.nearest_one, ← hjoin, rank,
      (ofParts_finite negative positive').1, magnitude_ofParts_finite negative fits positive']
  rcases Int.lt_trichotomy n 0 with hneg | rfl | hpos
  · obtain ⟨m, rfl⟩ := Int.exists_eq_neg_ofNat hneg.le
    rw [UnpackedFloat.normalize, Int.compare_eq_lt.2 hneg, Int.neg_neg, Int.neg_mul]
    exact (hround true (by omega)).trans (by simp)
  · rw [Int.zero_mul]
    show rank (ofParts (.zero .positive)) = nearestRank 0
    decide
  · obtain ⟨m, rfl⟩ := Int.eq_ofNat_of_zero_le hpos.le
    rw [UnpackedFloat.normalize, Int.compare_eq_gt.2 hpos]
    exact (hround false (by omega)).trans (by simp)

/-! ## Sums of parts -/

/-- A sign is applied to a significand. -/
theorem apply_signOf (negative : Bool) (m : Nat) :
    (signOf negative).apply m = signed negative m := by
  cases negative <;> rfl

/-- Doublings are moved into the significand. -/
theorem signed_mul_two_pow (negative : Bool) (m j : Nat) :
    signed negative (m * 2 ^ j) = signed negative m * 2 ^ j := by
  cases negative with
  | false => exact Int.natCast_mul m (2 ^ j)
  | true =>
      rw [signed_true, signed_true, Int.natCast_mul, Int.neg_mul]
      rfl

/-- The sum of finite parts is that of their significands, once these are doubled equally often. -/
theorem add_finite (negative negative' : Bool) {m m' : Nat} (k k' : Nat) (positive : 0 < m)
    (positive' : 0 < m') :
    add .binary32 (.finite (signOf negative) m (k - 149) positive)
        (.finite (signOf negative') m' (k' - 149) positive') =
      UnpackedFloat.normalize .binary32 (signed negative (m * 2 ^ (k - min k k')) +
        signed negative' (m' * 2 ^ (k' - min k k'))) ((min k k' : Nat) - 149) .positive := by
  have hmin : min ((k : Int) - 149) (k' - 149) = (min k k' : Nat) - 149 := by omega
  have hshift : ((k : Int) - 149 - ((min k k' : Nat) - 149)).toNat = k - min k k' := by omega
  have hshift' : ((k' : Int) - 149 - ((min k k' : Nat) - 149)).toNat = k' - min k k' := by omega
  unfold add decreaseExponent
  dsimp only
  rw [hmin, hshift, hshift', apply_signOf, apply_signOf, Nat.shiftLeft_eq, Nat.shiftLeft_eq]

/-- The number put together from finite parts is nearest to their steps. -/
theorem Reads.rank_ofParts {u : UnpackedFloat} {negative : Bool} {bits : Nat}
    (h : Reads u negative bits) (finite : bits < single.infinity) :
    rank (Single.ofParts u) = nearestRank (signed negative (single.steps bits)) := by
  obtain ⟨hsign, hmagnitude⟩ := h.ofParts finite.le
  rw [nearestRank_signed, Format.nearest_steps finite.le, rank, hsign, hmagnitude]

/-- The sum of finite parts is nearest to the sum of their steps. -/
theorem Reads.rank_add {u u' : UnpackedFloat} {negative negative' : Bool} {bits bits' : Nat}
    (h : Reads u negative bits) (h' : Reads u' negative' bits')
    (finite : bits < single.infinity) (finite' : bits' < single.infinity) :
    rank (Single.ofParts (add .binary32 u u')) =
      nearestRank
        (signed negative (single.steps bits) + signed negative' (single.steps bits')) := by
  cases h with
  | zero =>
      cases h' with
      | zero => cases negative <;> cases negative' <;> decide
      | finite _ fits positive inRange =>
          rw [Format.steps_zero, signed_zero, Int.zero_add]
          exact Reads.rank_ofParts (.finite negative' fits positive inRange) finite'
      | infinity => exact absurd finite' (Nat.lt_irrefl _)
      | notANumber _ beyond => exact absurd finite' (Nat.lt_asymm beyond)
  | @finite _ m k fits positive inRange =>
      cases h' with
      | zero =>
          rw [Format.steps_zero, signed_zero, Int.add_zero]
          exact Reads.rank_ofParts (.finite negative fits positive inRange) finite
      | @finite _ m' k' fits' positive' inRange' =>
          have hsplit (n j : Nat) (hj : min k k' ≤ j) :
              n * 2 ^ (j - min k k') * 2 ^ min k k' = n * 2 ^ j := by
            rw [Nat.mul_assoc, ← Nat.pow_add, Nat.sub_add_cancel hj]
          rw [add_finite, rank_ofParts_normalize, Int.add_mul, ← signed_mul_two_pow,
            ← signed_mul_two_pow, hsplit _ _ (Nat.min_le_left k k'),
            hsplit _ _ (Nat.min_le_right k k'), fits.steps_join, fits'.steps_join]
      | infinity => exact absurd finite' (Nat.lt_irrefl _)
      | notANumber _ beyond => exact absurd finite' (Nat.lt_asymm beyond)
  | infinity => exact absurd finite (Nat.lt_irrefl _)
  | notANumber _ beyond => exact absurd finite (Nat.lt_asymm beyond)

/-- Parts with the other sign are read with the other sign. -/
theorem Reads.neg {u : UnpackedFloat} {negative : Bool} {bits : Nat} (h : Reads u negative bits) :
    Reads u.neg (!negative) bits := by
  have hsign : -signOf negative = signOf (!negative) := by cases negative <;> rfl
  cases h with
  | zero =>
      show Reads (.zero (-signOf negative)) _ _
      rw [hsign]
      exact .zero _
  | finite _ fits positive inRange =>
      show Reads (.finite (-signOf negative) _ _ positive) _ _
      rw [hsign]
      exact .finite _ fits positive inRange
  | infinity =>
      show Reads (.infinity (-signOf negative)) _ _
      rw [hsign]
      exact .infinity _
  | notANumber _ beyond => exact .notANumber _ beyond

/-- To subtract is to add what has the other sign. -/
theorem sub_eq_add_neg (u u' : UnpackedFloat) : sub .binary32 u u' = add .binary32 u u'.neg := by
  have happly (s : Sign) (m : Nat) : (-s).apply m = -(s.apply m) := by
    cases s with
    | negative => exact (Int.neg_neg m).symm
    | positive => rfl
  cases u with
  | notANumber => rfl
  | infinity s => cases u' <;> rfl
  | zero s => cases u' <;> rfl
  | finite s m e positive =>
      cases u' with
      | finite s' m' e' positive' =>
          show UnpackedFloat.normalize _ (_ - s'.apply _) _ _ =
            UnpackedFloat.normalize _ (_ + (-s').apply _) _ _
          rw [happly, Int.sub_eq_add_neg]
      | notANumber | infinity | zero => rfl

/-! ## Sums of numbers -/

/-- The steps of a number with its sign. -/
def signedSteps (x : Float32) : Int :=
  signed (isNegative x) (steps x)

variable {x y : Float32}

/-- The sum of finite numbers is nearest to the exact one. -/
theorem rank_add (hx : x.isFinite) (hy : y.isFinite) :
    rank (x + y) = nearestRank (signedSteps x + signedSteps y) :=
  (reads_parts x).rank_add (reads_parts y) (isFinite_iff.1 hx) (isFinite_iff.1 hy)

/-- The difference of finite numbers is nearest to the exact one. -/
theorem rank_sub (hx : x.isFinite) (hy : y.isFinite) :
    rank (x - y) = nearestRank (signedSteps x - signedSteps y) := by
  have hneg (negative : Bool) (n : Nat) : signed (!negative) n = -signed negative n := by
    cases negative <;> simp
  show rank (ofParts (sub .binary32 (parts x) (parts y))) = _
  rw [sub_eq_add_neg, (reads_parts x).rank_add (reads_parts y).neg (isFinite_iff.1 hx)
    (isFinite_iff.1 hy), hneg, ← Int.sub_eq_add_neg]
  rfl

end Dataflow.Binary.Single
