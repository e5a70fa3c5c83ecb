import Mathlib.Algebra.Order.Field.Basic
import Mathlib.Algebra.Order.Field.Rat
import Mathlib.Data.Rat.Cast.Order
import Mathlib.Tactic.FieldSimp
import Dataflow.Proofs.Binary.Halfway
import Dataflow.Proofs.Binary.Reading

/-!
# What bit patterns stand for

`Format.decode` reads a pattern as the standard does, by its sign, its exponent field and its
fraction field; `Format.decode_eq` says that this is what the count of steps stands for. A nearest
number in the sense of steps is nearest among all patterns, and even where two are
(`Format.isNearest_nearestRatio`).
-/

namespace Dataflow.Binary

open Single (signed signed_false signed_true)

/-- What a bit pattern stands for: a finite number, an infinity, or no number. -/
inductive Datum where
  | number (q : ℚ)
  | infinite (negative : Bool)
  | notANumber

namespace Format

variable {F : Format}

/-- The exponent field of the numbers from one to two. -/
def bias (F : Format) : Int := 2 ^ (F.exponent - 1) - 1

/-- Whether the sign bit of a pattern is set. -/
def isNegative (F : Format) (pattern : Nat) : Bool :=
  pattern / 2 ^ (F.fraction + F.exponent) % 2 = 1

/-- What a bit pattern stands for by its fields. The exponent of ones is that of the infinities, if
the fraction is empty, and of what is no number. That of zeros leaves the leading bit of the
significand unset. -/
def decode (F : Format) (pattern : Nat) : Datum :=
  let fraction := pattern % 2 ^ F.fraction
  let exponent := pattern / 2 ^ F.fraction % 2 ^ F.exponent
  if exponent = 2 ^ F.exponent - 1 then
    if fraction = 0 then .infinite (F.isNegative pattern) else .notANumber
  else
    .number ((if F.isNegative pattern then -1 else 1) *
      (if exponent = 0 then (fraction : ℚ) / 2 ^ F.fraction * 2 ^ (1 - F.bias)
      else (1 + (fraction : ℚ) / 2 ^ F.fraction) * 2 ^ (exponent - F.bias)))

/-- The magnitude bits of a pattern. -/
def magnitude (F : Format) (pattern : Nat) : Nat :=
  pattern % 2 ^ (F.fraction + F.exponent)

/-- The pattern with a sign bit and magnitude bits. -/
def pattern (F : Format) (negative : Bool) (bits : Nat) : Nat :=
  if negative then bits + 2 ^ (F.fraction + F.exponent) else bits

/-- The value of so many steps. -/
def ofSteps (F : Format) (n : Int) : ℚ := n / 2 ^ F.scale

/-- The magnitude is made up of the exponent field and the fraction field. -/
theorem magnitude_eq (F : Format) (pattern : Nat) : F.magnitude pattern =
    pattern % 2 ^ F.fraction + 2 ^ F.fraction * (pattern / 2 ^ F.fraction % 2 ^ F.exponent) := by
  rw [magnitude, Nat.pow_add, Nat.mod_mul]

/-- The place of the leading bit in the least numbers that have one. -/
theorem two_zpow_one_sub_bias (hF : 2 ≤ F.exponent) :
    (2 : ℚ) ^ (1 - F.bias) = 2 ^ F.fraction / 2 ^ F.scale := by
  have hbias : 2 ≤ 2 ^ (F.exponent - 1) :=
    Nat.le_self_pow (by omega) 2
  have hscale : F.scale = 2 ^ (F.exponent - 1) + F.fraction - 2 := by
    rw [scale, Nat.one_shiftLeft]
  have hexponent : 1 - F.bias = F.fraction - F.scale := by
    rw [bias, hscale]
    push_cast [show 2 ≤ 2 ^ (F.exponent - 1) + F.fraction by omega]
    ring
  rw [hexponent, zpow_sub₀ two_ne_zero, zpow_natCast, zpow_natCast]

/-- Without a leading bit the fraction counts the steps. -/
theorem value_of_fraction (hF : 2 ≤ F.exponent) {fraction : Nat} (h : fraction < 2 ^ F.fraction) :
    (fraction : ℚ) / 2 ^ F.fraction * 2 ^ (1 - F.bias) = F.steps fraction / 2 ^ F.scale := by
  rw [two_zpow_one_sub_bias hF, steps, Nat.one_shiftLeft, if_pos h]
  field_simp

/-- With a leading bit the significand is doubled by the exponent. -/
theorem value_of_leading (hF : 2 ≤ F.exponent) {fraction exponent : Nat}
    (h : fraction < 2 ^ F.fraction) (hexponent : exponent ≠ 0) :
    (1 + (fraction : ℚ) / 2 ^ F.fraction) * 2 ^ (exponent - F.bias) =
      F.steps (fraction + 2 ^ F.fraction * exponent) / 2 ^ F.scale := by
  obtain ⟨k, rfl⟩ := Nat.exists_eq_succ_of_ne_zero hexponent
  have hfits : F.Fits (2 ^ F.fraction + fraction) k := ⟨by omega, .inr (Nat.le_add_right _ _)⟩
  have hjoin : fraction + 2 ^ F.fraction * k.succ = F.join (2 ^ F.fraction + fraction) k := by
    unfold join
    rw [Nat.mul_succ]
    ring
  have hsum : (k.succ : Int) - F.bias = k + (1 - F.bias) := by
    push_cast
    ring
  rw [hjoin, hfits.steps_join, hsum, zpow_add₀ two_ne_zero, zpow_natCast, two_zpow_one_sub_bias hF]
  push_cast
  field_simp

/-- The sign of a value of steps. -/
theorem ofSteps_signed (F : Format) (negative : Bool) (n : Nat) :
    F.ofSteps (signed negative n) = (if negative then -1 else 1) * ((n : ℚ) / 2 ^ F.scale) := by
  cases negative with
  | false => rw [signed_false, ofSteps, Int.cast_natCast, if_neg Bool.false_ne_true, one_mul]
  | true =>
      rw [signed_true, ofSteps, Int.cast_neg, Int.cast_natCast, if_pos rfl, neg_one_mul, neg_div]

/-- A pattern stands for its steps with its sign, unless its magnitude is that of infinity or is
beyond it. -/
theorem decode_eq (hF : 2 ≤ F.exponent) (pattern : Nat) : F.decode pattern =
    if F.infinity < F.magnitude pattern then .notANumber
    else if F.magnitude pattern = F.infinity then .infinite (F.isNegative pattern)
    else .number (F.ofSteps (signed (F.isNegative pattern) (F.steps (F.magnitude pattern)))) := by
  have hfraction := Nat.mod_lt pattern (Nat.two_pow_pos F.fraction)
  have hexponent := Nat.mod_lt (pattern / 2 ^ F.fraction) (Nat.two_pow_pos F.exponent)
  have hinfinity : F.infinity = 2 ^ F.fraction * (2 ^ F.exponent - 1) := by
    rw [infinity, Nat.one_shiftLeft, Nat.shiftLeft_eq, Nat.mul_comm]
  rw [F.magnitude_eq]
  unfold decode
  dsimp only
  generalize pattern % 2 ^ F.fraction = fraction at *
  generalize pattern / 2 ^ F.fraction % 2 ^ F.exponent = exponent at *
  by_cases hones : exponent = 2 ^ F.exponent - 1
  · rw [if_pos hones, hones, ← hinfinity]
    by_cases hzero : fraction = 0
    · rw [if_pos hzero, hzero, Nat.zero_add, if_neg (Nat.lt_irrefl _), if_pos rfl]
    · rw [if_neg hzero, if_pos (by omega)]
  · have hbelow : fraction + 2 ^ F.fraction * exponent < F.infinity := by
      have hmul : 2 ^ F.fraction * (exponent + 1) ≤ 2 ^ F.fraction * (2 ^ F.exponent - 1) :=
        Nat.mul_le_mul_left _ (by omega)
      rw [Nat.mul_succ] at hmul
      omega
    rw [if_neg hones, if_neg (Nat.lt_asymm hbelow), if_neg hbelow.ne]
    refine congrArg Datum.number ?_
    rw [ofSteps_signed]
    by_cases hnone : exponent = 0
    · rw [if_pos hnone, hnone, Nat.mul_zero, Nat.add_zero, value_of_fraction hF hfraction]
    · rw [if_neg hnone, value_of_leading hF hfraction hnone]

/-- The magnitude bits of infinity leave the sign bit free. -/
theorem infinity_lt (F : Format) : F.infinity < 2 ^ (F.fraction + F.exponent) := by
  rw [infinity, Nat.one_shiftLeft, Nat.shiftLeft_eq, Nat.pow_add, Nat.mul_comm (2 ^ F.fraction)]
  exact Nat.mul_lt_mul_of_pos_right (Nat.pred_lt (Nat.two_pow_pos _).ne') (Nat.two_pow_pos _)

/-- A pattern has the sign and the magnitude that it is made up of. -/
theorem parts_pattern (negative : Bool) {bits : Nat} (h : bits ≤ F.infinity) :
    F.isNegative (F.pattern negative bits) = negative ∧
      F.magnitude (F.pattern negative bits) = bits := by
  have hlt : bits < 2 ^ (F.fraction + F.exponent) := Nat.lt_of_le_of_lt h F.infinity_lt
  unfold isNegative magnitude pattern
  cases negative with
  | false => simp [Nat.div_eq_of_lt hlt, Nat.mod_eq_of_lt hlt]
  | true =>
      simp [Nat.add_div_right _ (Nat.two_pow_pos _), Nat.div_eq_of_lt hlt, Nat.mod_eq_of_lt hlt]

/-- A pattern that is made up of a sign and a finite magnitude stands for its steps. -/
theorem decode_pattern (hF : 2 ≤ F.exponent) (negative : Bool) {bits : Nat}
    (h : bits < F.infinity) :
    F.decode (F.pattern negative bits) = .number (F.ofSteps (signed negative (F.steps bits))) := by
  obtain ⟨hsign, hmagnitude⟩ := F.parts_pattern negative h.le
  rw [decode_eq hF, hmagnitude, hsign, if_neg (Nat.lt_asymm h), if_neg h.ne]

/-! ## The nearest number -/

/-- The pattern stands for the number that is nearest to a rational one and has its sign. Where two
numbers are as near, the pattern is the even one. -/
structure IsNearest (F : Format) (q : ℚ) (pattern : Nat) : Prop where
  isNegative_eq : F.isNegative pattern = decide (q < 0)
  closest : ∃ r, F.decode pattern = .number r ∧ ∀ other r', F.decode other = .number r' →
    |q - r| ≤ |q - r'| ∧ (|q - r'| = |q - r| → r' = r ∨ pattern % 2 = 0)

/-- Numbers with the same sign are as far apart as without it. -/
theorem natAbs_signed_sub_signed (negative : Bool) (m n : Nat) :
    (signed negative m - signed negative n).natAbs = ((m : Int) - n).natAbs := by
  cases negative with
  | false => rfl
  | true =>
      rw [signed_true, signed_true]
      omega

/-- Numbers with different signs lie on both sides of zero. -/
theorem natAbs_signed_sub_signed_not (negative : Bool) (m n : Nat) :
    (signed negative m - signed (!negative) n).natAbs = m + n := by
  cases negative with
  | false =>
      rw [Bool.not_false, signed_false, signed_true]
      omega
  | true =>
      rw [Bool.not_true, signed_false, signed_true]
      omega

/-- No signed magnitude is nearer than the nearest one with the same sign. -/
theorem nearest_closest_signed (hF : 1 ≤ F.fraction) {n bits : Nat} (hbits : bits < F.infinity)
    (hnearest : F.nearest n 1 = bits) (negative negative' : Bool) (other : Nat) :
    (signed negative n - signed negative (F.steps bits)).natAbs ≤
        (signed negative n - signed negative' (F.steps other)).natAbs ∧
      ((signed negative n - signed negative' (F.steps other)).natAbs =
          (signed negative n - signed negative (F.steps bits)).natAbs →
        signed negative' (F.steps other) = signed negative (F.steps bits) ∨ bits % 2 = 0) := by
  rw [natAbs_signed_sub_signed]
  rcases Bool.eq_or_eq_not negative' negative with rfl | rfl
  · obtain ⟨hle, htie⟩ := nearest_closest hF hbits hnearest other
    rw [natAbs_signed_sub_signed]
    refine ⟨hle, fun heq => (htie heq).imp_left fun hsame => ?_⟩
    rw [hsame]
  · -- beyond zero only zero itself could be as near
    obtain ⟨hle, htie⟩ := nearest_closest hF hbits hnearest 0
    rw [steps_zero] at hle htie
    rw [natAbs_signed_sub_signed_not]
    refine ⟨by omega, fun heq => (htie (by omega)).imp_left fun hzero => ?_⟩
    have hnone : F.steps other = 0 := by omega
    rw [hnone, ← hzero, steps_zero, Single.signed_zero, Single.signed_zero]

/-- Values of steps are as far apart as the steps are. -/
theorem abs_ofSteps_sub (F : Format) (m n : Int) :
    |F.ofSteps m - F.ofSteps n| = ((m - n).natAbs : ℚ) / 2 ^ F.scale := by
  rw [ofSteps, ofSteps, ← sub_div, abs_div, abs_of_pos (show (0 : ℚ) < 2 ^ F.scale by positivity),
    Nat.cast_natAbs, ← Int.cast_sub, Int.cast_abs]

/-- What stands for a finite number has steps and a sign. -/
theorem eq_ofSteps_of_decode (hF : 2 ≤ F.exponent) {pattern : Nat} {r : ℚ}
    (h : F.decode pattern = .number r) :
    r = F.ofSteps (signed (F.isNegative pattern) (F.steps (F.magnitude pattern))) := by
  rw [decode_eq hF] at h
  split at h
  · cases h
  · split at h
    · cases h
    · exact (Datum.number.inj h).symm

/-- The steps of an integer. -/
theorem ofSteps_natAbs_shiftLeft (F : Format) (n : Int) :
    F.ofSteps (signed (n < 0) (n.natAbs <<< F.scale)) = n := by
  have hsteps : signed (n < 0) (n.natAbs <<< F.scale) = n * 2 ^ F.scale := by
    rw [Nat.shiftLeft_eq]
    by_cases hneg : n < 0
    · rw [decide_eq_true hneg, signed_true, Nat.cast_mul, Nat.cast_pow, ← Int.neg_mul,
        Int.ofNat_natAbs_of_nonpos hneg.le, Int.neg_neg]
      rfl
    · rw [decide_eq_false hneg, signed_false, Nat.cast_mul, Nat.cast_pow,
        Int.natAbs_of_nonneg (Int.not_lt.1 hneg)]
      rfl
  rw [hsteps, ofSteps, Int.cast_mul, Int.cast_pow]
  exact mul_div_cancel_right₀ _ (by positivity)

/-- The positive magnitude of as many steps as make up a unit stands for one. -/
theorem decode_one (hF : 2 ≤ F.exponent) {bits : Nat} (h : bits < F.infinity)
    (hsteps : F.steps bits = 1 <<< F.scale) : F.decode bits = .number 1 := by
  have hdecode := decode_pattern hF false h
  rw [hsteps] at hdecode
  exact hdecode.trans (congrArg Datum.number (F.ofSteps_natAbs_shiftLeft 1))

/-- The sign bit does not make a pattern odd. -/
theorem pattern_mod_two (hF : 1 ≤ F.fraction) (negative : Bool) (bits : Nat) :
    F.pattern negative bits % 2 = bits % 2 := by
  obtain ⟨k, hk⟩ : ∃ k, F.fraction + F.exponent = k + 1 :=
    Nat.exists_eq_add_of_le' (Nat.le_add_right_of_le hF)
  unfold pattern
  cases negative with
  | false => rfl
  | true =>
      rw [if_pos rfl, hk, Nat.pow_succ']
      omega

/-- The number nearest to an integer in steps is nearest to it among all numbers of the format. -/
theorem isNearest_nearestRatio (hF : 1 ≤ F.fraction) (hF' : 2 ≤ F.exponent) (n : Int)
    (hfinite : F.nearestRatio n.natAbs 1 < F.infinity) :
    F.IsNearest n (F.pattern (n < 0) (F.nearestRatio n.natAbs 1)) := by
  generalize hbits : F.nearestRatio n.natAbs 1 = bits at *
  refine ⟨?_, _, decode_pattern hF' (n < 0) hfinite, fun other r' hother => ?_⟩
  · rw [(F.parts_pattern (n < 0) hfinite.le).1]
    exact decide_eq_decide.2 Int.cast_lt_zero.symm
  · rw [eq_ofSteps_of_decode hF' hother, ← F.ofSteps_natAbs_shiftLeft n, abs_ofSteps_sub,
      abs_ofSteps_sub, pattern_mod_two hF]
    have hscale : (0 : ℚ) < 2 ^ F.scale := by positivity
    obtain ⟨hle, htie⟩ := nearest_closest_signed hF hfinite hbits (n < 0) (F.isNegative other)
      (F.magnitude other)
    refine ⟨?_, fun heq => ?_⟩
    · rw [div_le_div_iff_of_pos_right hscale]
      exact_mod_cast hle
    · rw [div_left_inj' hscale.ne'] at heq
      exact (htie (by exact_mod_cast heq)).imp_left (congrArg F.ofSteps)

end Format

end Dataflow.Binary
