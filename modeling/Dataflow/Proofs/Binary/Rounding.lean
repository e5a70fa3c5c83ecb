import Dataflow.Proofs.Binary.Reading

/-!
# Rounding drops bits one after another

Arithmetic computes a significand exactly and then drops bits from it one after another, keeping in
mind whether what was dropped is more or less than a half (`Dropped`). This comes to the same as
rounding the number of steps once, to nearest with halves to even (`round_eq`).
-/

namespace Dataflow.Binary.Single

open Float.Model (UnpackedFloat totalExponent)
open Float.Model.UnpackedFloat
open Format (single)

/-! ## Dropping bits -/

/-- What is left of `m` when `n` bits were dropped: the quotient, whether the rest is at least a
half, and whether it is neither nothing nor a half. -/
structure Dropped (em : ExtendedMantissa) (m n : Nat) : Prop where
  mantissa_eq : em.mantissa = m / 2 ^ n
  roundBit_iff : em.roundBit ↔ 2 ^ n ≤ 2 * (m % 2 ^ n)
  stickyBit_iff : em.stickyBit ↔ m % 2 ^ n ≠ 0 ∧ 2 * (m % 2 ^ n) ≠ 2 ^ n

/-- Dropping one bit more. -/
theorem Dropped.shiftRightOne {em : ExtendedMantissa} {m n : Nat} (h : Dropped em m n) :
    Dropped em.shiftRightOne m (n + 1) := by
  have hrest : m % 2 ^ n < 2 ^ n := Nat.mod_lt _ (Nat.two_pow_pos n)
  have hsplit : m % 2 ^ (n + 1) = m % 2 ^ n + 2 ^ n * (m / 2 ^ n % 2) := by
    rw [Nat.pow_succ, Nat.mod_mul]
  have hunit : 2 ^ (n + 1) = 2 * 2 ^ n := Nat.pow_succ'
  have hbit := Nat.mod_two_eq_zero_or_one (m / 2 ^ n)
  constructor
  · show em.mantissa / 2 = _
    rw [h.mantissa_eq, Nat.div_div_eq_div_mul, Nat.pow_succ]
  · show (em.mantissa % 2 != 0) = true ↔ _
    rw [h.mantissa_eq, bne_iff_ne, hsplit, hunit]
    rcases hbit with hbit | hbit <;> rw [hbit] <;> omega
  · show (em.roundBit || em.stickyBit) = true ↔ _
    rw [Bool.or_eq_true, h.roundBit_iff, h.stickyBit_iff, hsplit, hunit]
    rcases hbit with hbit | hbit <;> rw [hbit] <;> omega

/-- Dropping `n` bits. -/
theorem dropped_shiftRight (m n : Nat) :
    Dropped (ExtendedMantissa.ofMantissaAndAccuracy m .exact >>> n) m n := by
  show Dropped (n.repeat ExtendedMantissa.shiftRightOne _) m n
  induction n with
  | zero =>
      constructor <;> simp [Nat.repeat, ExtendedMantissa.ofMantissaAndAccuracy, Nat.mod_one]
  | succ n ih => exact ih.shiftRightOne

/-- What was dropped decides how the quotient is rounded. -/
theorem Dropped.roundedMantissa_eq {em : ExtendedMantissa} {m n : Nat} (h : Dropped em m n) :
    em.roundedMantissa = roundHalfEven m (2 ^ n) := by
  have hrest : m % 2 ^ n < 2 ^ n := Nat.mod_lt _ (Nat.two_pow_pos n)
  obtain ⟨quotient, roundBit, stickyBit⟩ := em
  obtain ⟨hquotient, hround, hsticky⟩ := h
  unfold roundHalfEven
  dsimp only at *
  rw [← hquotient]
  cases roundBit with
  | false =>
      have hbelow : 2 * (m % 2 ^ n) < 2 ^ n := by simpa using hround
      rw [Nat.compare_eq_lt.2 hbelow]
      cases stickyBit <;> rfl
  | true =>
      have hhalf : 2 ^ n ≤ 2 * (m % 2 ^ n) := hround.1 rfl
      cases stickyBit with
      | false =>
          have heq : 2 * (m % 2 ^ n) = 2 ^ n := by
            by_contra hne
            exact Bool.false_ne_true (hsticky.2 ⟨by omega, hne⟩)
          rw [Nat.compare_eq_eq.2 heq]
          rfl
      | true =>
          have hne := (hsticky.1 rfl).2
          rw [Nat.compare_eq_gt.2 (by omega)]
          rfl

/-! ## Rounding a number of steps -/

/-- The exponent that arithmetic aims at is that of the doublings of the nearest number. -/
theorem targetExponent_eq (m j : Nat) :
    Float.Model.Format.binary32.targetExponent (totalExponent m ((j : Int) - 149)) =
      ((m.log2 + j - 23 : Nat) : Int) - 149 := by
  have hleast : Float.Model.Format.binary32.minExponent = -149 := by decide
  have hwidth : Float.Model.Format.binary32.mantissaBits = 24 := by decide
  unfold Float.Model.Format.targetExponent totalExponent
  rw [hleast, hwidth]
  omega

/-- Bits are dropped until the exponent is the one aimed at. -/
theorem shiftToTargetExponent_eq (m j : Nat) :
    shiftToTargetExponent .binary32 m ((j : Int) - 149) .exact =
      (ExtendedMantissa.ofMantissaAndAccuracy m .exact >>> (m.log2 + j - 23 - j),
        ((max j (m.log2 + j - 23) : Nat) : Int) - 149) := by
  unfold shiftToTargetExponent shiftToExponent
  dsimp only
  rw [targetExponent_eq]
  refine Prod.ext ?_ ?_
  · show _ >>> _ = _ >>> _
    congr 1
    omega
  · show _ = _
    omega

/-- A significand for which there is no room is halved and doubled once more. -/
theorem exists_settled {q k : Nat} (hle : q ≤ 2 * 2 ^ 23) (hfull : k ≠ 0 → 2 ^ 23 ≤ q)
    (positive : 0 < q) :
    ∃ m k', single.Fits m k' ∧ 0 < m ∧ single.join m k' = single.join q k ∧
      (shiftToTargetExponent .binary32 q ((k : Int) - 149) .exact).1.mantissa = m ∧
      (shiftToTargetExponent .binary32 q ((k : Int) - 149) .exact).2 = (k' : Int) - 149 := by
  rw [shiftToTargetExponent_eq]
  dsimp only
  rw [(dropped_shiftRight q _).mantissa_eq]
  rcases Nat.lt_or_eq_of_le hle with hlt | rfl
  · have hlog : q.log2 < 24 := (Nat.log2_lt positive.ne').2 hlt
    have hkept : q.log2 + k - 23 - k = 0 := by omega
    refine ⟨q, k, ⟨hlt, ?_⟩, positive, rfl, ?_, ?_⟩
    · exact or_iff_not_imp_left.2 hfull
    · rw [hkept, Nat.pow_zero, Nat.div_one]
    · rw [Nat.max_eq_left (by omega)]
  · have hlog : (2 * 2 ^ 23).log2 = 24 := by decide
    have hhalved : (2 * 2 ^ 23).log2 + k - 23 - k = 1 := by omega
    refine ⟨2 ^ 23, k + 1, ⟨by decide, .inr le_rfl⟩, by decide, ?_, ?_, ?_⟩
    · show 2 ^ 23 + (k + 1) * 2 ^ 23 = 2 * 2 ^ 23 + k * 2 ^ 23
      omega
    · exact (congrArg (2 * 2 ^ 23 / 2 ^ ·) hhalved).trans (by decide)
    · rw [hlog, Nat.max_eq_right (by omega)]
      omega

/-- Finite parts with equal fields are equal. -/
theorem finite_congr (s : Sign) {m m' : Nat} {e e' : Int} (h : 0 < m) (h' : 0 < m') (hm : m = m')
    (he : e = e') : UnpackedFloat.finite s m e h = .finite s m' e' h' := by
  subst hm he
  rfl

/-- A number of steps is rounded to the significand and the doublings of the nearest number. -/
theorem roundWithAccuracy_eq (s : Sign) {m j : Nat} (positive : 0 < m)
    (hj : j ≤ single.doublings (m * 2 ^ j)) :
    ∃ (m' k : Nat) (_ : single.Fits m' k) (positive' : 0 < m'),
      roundWithAccuracy .binary32 s m (j - 149) .exact = .finite s m' (k - 149) positive' ∧
        single.join m' k =
          single.join (single.significand (m * 2 ^ j)) (single.doublings (m * 2 ^ j)) := by
  have hdoublings : single.doublings (m * 2 ^ j) = m.log2 + j - 23 :=
    Format.doublings_mul_two_pow positive j
  have hround : (ExtendedMantissa.ofMantissaAndAccuracy m .exact >>>
      (m.log2 + j - 23 - j)).roundedMantissa = single.significand (m * 2 ^ j) := by
    rw [(dropped_shiftRight m _).roundedMantissa_eq, Format.significand, hdoublings,
      ← roundHalfEven_mul_mul _ _ (Nat.two_pow_pos j), ← Nat.pow_add]
    congr 2
    omega
  obtain ⟨m', k, fits, positive', hjoin, hmantissa, hexponent⟩ :=
    exists_settled (single.significand_le (m * 2 ^ j))
      (fun h => Format.le_significand (F := single) (n := m * 2 ^ j) h)
      (Format.significand_pos (Nat.mul_pos positive (Nat.two_pow_pos j)))
  refine ⟨m', k, fits, positive', ?_, hjoin⟩
  unfold roundWithAccuracy
  rw [shiftToTargetExponent_eq]
  dsimp only
  rw [hround, ← hdoublings, Nat.max_eq_right hj]
  rw [dif_neg (hmantissa ▸ positive'.ne')]
  exact finite_congr s _ positive' hmantissa hexponent

/-- Rounding a number with a significand and an exponent comes to the significand and the doublings
of the number nearest to its steps. -/
theorem round_eq (s : Sign) {m : Nat} (positive : 0 < m) (j : Nat) :
    ∃ (m' k : Nat) (_ : single.Fits m' k) (positive' : 0 < m'),
      UnpackedFloat.round .binary32 s m (j - 149) = .finite s m' (k - 149) positive' ∧
        single.join m' k =
          single.join (single.significand (m * 2 ^ j)) (single.doublings (m * 2 ^ j)) := by
  have hdoublings : single.doublings (m * 2 ^ j) = m.log2 + j - 23 :=
    Format.doublings_mul_two_pow positive j
  obtain ⟨d, hd⟩ : ∃ d, d = m.log2 + j - 23 := ⟨_, rfl⟩
  have hsame : m * 2 ^ (j - d) * 2 ^ min j d = m * 2 ^ j := by
    rw [Nat.mul_assoc, ← Nat.pow_add]
    congr 2
    omega
  have hle : min j d ≤ single.doublings (m * 2 ^ (j - d) * 2 ^ min j d) := by
    rw [hsame, hdoublings, ← hd]
    exact Nat.min_le_right j d
  obtain ⟨m', k, fits, positive', heq, hjoin⟩ :=
    roundWithAccuracy_eq s (Nat.mul_pos positive (Nat.two_pow_pos _)) hle
  rw [hsame] at hjoin
  refine ⟨m', k, fits, positive', ?_, hjoin⟩
  have hshift : ((j : Int) - 149 - (d - 149)).toNat = j - d := by omega
  have hexponent : (j : Int) - 149 - (j - d : Nat) = (min j d : Nat) - 149 := by omega
  unfold UnpackedFloat.round decreaseExponent
  dsimp only
  rw [targetExponent_eq, ← hd, hshift, hexponent, ← heq, Nat.shiftLeft_eq]

end Dataflow.Binary.Single
