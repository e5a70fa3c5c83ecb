import Dataflow.Proofs.Binary.Nearest
import Mathlib.Tactic.Ring
import Mathlib.Tactic.Linarith

/-!
# Half way between numbers

What is less than half way from a number to its neighbours is nearest to that number, and so is what
is half way if the bits are even (`Format.nearest_of_between`). The other way round, what is rounded
to a number is at most half a place of the significand away from it (`Format.nearest_error`).
-/

namespace Dataflow.Binary

variable {num den : Nat}

/-- A quotient is rounded to a whole number that is at most a half away, and even if it is. -/
theorem roundHalfEven_eq (whole : Nat) (positive : 0 < den)
    (low : 2 * (whole * den) ≤ 2 * num + den) (high : 2 * num ≤ 2 * (whole * den) + den)
    (tie : 2 * (whole * den) = 2 * num + den ∨ 2 * num = 2 * (whole * den) + den → whole % 2 = 0) :
    roundHalfEven num den = whole := by
  have hsum := Nat.div_add_mod' num den
  have hrest := Nat.mod_lt num positive
  have hle : num / den ≤ whole := by
    by_contra hgt
    have hmul : (whole + 1) * den ≤ num / den * den :=
      Nat.mul_le_mul_right den (Nat.not_le.1 hgt)
    rw [Nat.add_mul, Nat.one_mul] at hmul
    omega
  have hge : whole ≤ num / den + 1 := by
    by_contra hgt
    have hmul : (num / den + 1 + 1) * den ≤ whole * den :=
      Nat.mul_le_mul_right den (Nat.not_le.1 hgt)
    rw [Nat.add_mul, Nat.add_mul, Nat.one_mul] at hmul
    omega
  unfold roundHalfEven
  dsimp only
  rcases Nat.eq_or_lt_of_le hle with heq | hlt
  · rw [heq] at hsum ⊢
    split <;> rename_i hcompare
    · rfl
    · rw [Nat.compare_eq_eq] at hcompare
      rw [tie (by omega)]
      rfl
    · rw [Nat.compare_eq_gt] at hcompare
      omega
  · obtain rfl : whole = num / den + 1 := by omega
    rw [Nat.add_mul, Nat.one_mul] at low tie
    split <;> rename_i hcompare
    · rw [Nat.compare_eq_lt] at hcompare
      omega
    · rw [Nat.compare_eq_eq] at hcompare
      have := tie (by omega)
      omega
    · rfl

/-- A quotient is at most a half away from the whole number that it is rounded to. -/
theorem roundHalfEven_error (num : Nat) (positive : 0 < den) :
    2 * (roundHalfEven num den * den) ≤ 2 * num + den ∧
      2 * num ≤ 2 * (roundHalfEven num den * den) + den := by
  have hsum := Nat.div_add_mod' num den
  have hrest := Nat.mod_lt num positive
  unfold roundHalfEven
  dsimp only
  split <;> rename_i hcompare
  · rw [Nat.compare_eq_lt] at hcompare
    omega
  · rw [Nat.compare_eq_eq] at hcompare
    rcases Nat.mod_two_eq_zero_or_one (num / den) with heven | hodd
    · rw [heven, Nat.add_zero]
      omega
    · rw [hodd, Nat.add_mul, Nat.one_mul]
      omega
  · rw [Nat.compare_eq_gt] at hcompare
    rw [Nat.add_mul, Nat.one_mul]
    omega

namespace Format

variable {F : Format} {m k bits : Nat}

/-- The nearest number is made up of a rounded significand and its doublings, unless it is out of
range. -/
theorem nearest_eq (F : Format) (num den : Nat) : F.nearest num den =
    min (F.join (roundHalfEven num (den * 2 ^ F.doublings (num / den))) (F.doublings (num / den)))
      F.infinity := by
  simp only [nearest, doublings, join, Nat.shiftLeft_eq]

/-- A common factor does not change the nearest number. -/
theorem nearest_mul_mul (F : Format) (num den : Nat) {factor : Nat} (positive : 0 < factor) :
    F.nearest (num * factor) (den * factor) = F.nearest num den := by
  rw [nearest_eq, nearest_eq, Nat.mul_div_mul_right _ _ positive, Nat.mul_right_comm,
    roundHalfEven_mul_mul _ _ positive]

/-- What has its leading bit where a significand that is doubled `k` times has it is doubled `k`
times. -/
theorem doublings_eq {n : Nat} (low : k = 0 ∨ 2 ^ F.fraction * 2 ^ k ≤ n)
    (high : n < 2 * 2 ^ F.fraction * 2 ^ k) : F.doublings n = k := by
  rw [← Nat.pow_succ', ← Nat.pow_add] at high
  rcases Nat.eq_zero_or_pos n with rfl | positive
  · have hk : k = 0 := low.resolve_right (by simp)
    simp [doublings, hk]
  · have hlt : n.log2 < F.fraction + 1 + k := (Nat.log2_lt positive.ne').2 high
    rcases low with rfl | low
    · unfold doublings
      omega
    · rw [← Nat.pow_add] at low
      have hle : F.fraction + k ≤ n.log2 := (Nat.le_log2 positive.ne').2 low
      unfold doublings
      omega

/-- The next number has one more in its significand. -/
theorem Fits.steps_succ (h : F.Fits m k) : F.steps (F.join m k + 1) = (m + 1) * 2 ^ k := by
  have hlt := h.lt
  by_cases hroom : m + 1 < 2 * 2 ^ F.fraction
  · have hfits : F.Fits (m + 1) k := ⟨hroom, h.full.imp_right Nat.le_succ_of_le⟩
    rw [← hfits.steps_join]
    exact congrArg F.steps (Nat.add_right_comm _ _ _)
  · -- the significand is the greatest there is room for, so the next number is doubled once more
    have hfits : F.Fits (2 ^ F.fraction) (k + 1) := ⟨by omega, .inr (Nat.le_refl _)⟩
    have hjoin : F.join m k + 1 = F.join (2 ^ F.fraction) (k + 1) := by
      unfold join
      rw [Nat.succ_mul]
      omega
    have hm : m + 1 = 2 * 2 ^ F.fraction := by omega
    rw [hjoin, hfits.steps_join, hm, Nat.pow_succ']
    ring

/-- The number before has one less in its significand, unless that has only its leading bit. -/
theorem Fits.steps_pred (h : F.Fits m k) (positive : 0 < m) (low : k = 0 ∨ 2 ^ F.fraction < m) :
    F.steps (F.join m k - 1) = (m - 1) * 2 ^ k := by
  have hfits : F.Fits (m - 1) k := ⟨by have := h.lt; omega, by omega⟩
  rw [← hfits.steps_join]
  refine congrArg F.steps ?_
  unfold join
  omega

/-- The number before a power of two is doubled once less. -/
theorem steps_pred_leading (F : Format) (k : Nat) : F.steps (F.join (2 ^ F.fraction) (k + 1) - 1) =
    (2 * 2 ^ F.fraction - 1) * 2 ^ k := by
  have hunit : 0 < 2 ^ F.fraction := Nat.two_pow_pos _
  have hfits : F.Fits (2 * 2 ^ F.fraction - 1) k := ⟨by omega, .inr (by omega)⟩
  rw [← hfits.steps_join]
  refine congrArg F.steps ?_
  unfold join
  rw [Nat.succ_mul]
  omega

/-- The nearest number has a significand that is at most a half away and as many doublings as the
leading bit asks for. -/
theorem nearest_eq_join (positive : 0 < den) (place : F.doublings (num / (2 * den)) = k)
    (low : 2 * (m * (2 ^ k * den)) ≤ num + 2 ^ k * den)
    (high : num ≤ 2 * (m * (2 ^ k * den)) + 2 ^ k * den)
    (tie : 2 * (m * (2 ^ k * den)) = num + 2 ^ k * den ∨
      num = 2 * (m * (2 ^ k * den)) + 2 ^ k * den → m % 2 = 0) :
    F.nearest num (2 * den) = min (F.join m k) F.infinity := by
  have hden : 2 * den * 2 ^ k = 2 * (2 ^ k * den) := by ring
  have hmul : m * (2 * (2 ^ k * den)) = 2 * (m * (2 ^ k * den)) := by ring
  have hpositive : 0 < 2 ^ k * den := Nat.mul_pos (Nat.two_pow_pos k) positive
  rw [nearest_eq, place, hden, roundHalfEven_eq m (by omega)]
  · rw [hmul]
    omega
  · rw [hmul]
    omega
  · intro h
    rw [hmul] at h
    exact tie (by omega)

/-- What is between two powers of two is doubled as often as the first one. -/
theorem doublings_div_eq (positive : 0 < den)
    (low : k = 0 ∨ 2 * (2 ^ F.fraction * (2 ^ k * den)) ≤ num)
    (high : num < 4 * (2 ^ F.fraction * (2 ^ k * den))) : F.doublings (num / (2 * den)) = k := by
  have hden : 0 < 2 * den := Nat.mul_pos Nat.two_pos positive
  refine doublings_eq (low.imp_right fun low => ?_) ?_
  · rw [Nat.le_div_iff_mul_le hden]
    calc 2 ^ F.fraction * 2 ^ k * (2 * den) = 2 * (2 ^ F.fraction * (2 ^ k * den)) := by ring
      _ ≤ num := low
  · rw [Nat.div_lt_iff_lt_mul hden]
    calc num < 4 * (2 ^ F.fraction * (2 ^ k * den)) := high
      _ = 2 * 2 ^ F.fraction * 2 ^ k * (2 * den) := by ring

/-- Below a power of two the numbers are closer to each other, and what is nearest to it has a
significand that is carried. -/
theorem nearest_of_below_leading (hbits : F.join (2 ^ F.fraction) (k + 1) ≤ F.infinity)
    (positive : 0 < den)
    (low : (F.steps (F.join (2 ^ F.fraction) (k + 1) - 1) +
      F.steps (F.join (2 ^ F.fraction) (k + 1))) * den ≤ num)
    (below : num < 2 * (F.steps (F.join (2 ^ F.fraction) (k + 1)) * den)) :
    F.nearest num (2 * den) = F.join (2 ^ F.fraction) (k + 1) := by
  have hfits : F.Fits (2 ^ F.fraction) (k + 1) :=
    ⟨lt_two_mul_self (Nat.two_pow_pos _), .inr (Nat.le_refl _)⟩
  have hcentre : F.steps (F.join (2 ^ F.fraction) (k + 1)) * den =
      2 * (2 ^ F.fraction * (2 ^ k * den)) := by
    rw [hfits.steps_join]
    ring
  have hpred : F.steps (F.join (2 ^ F.fraction) (k + 1) - 1) * den =
      2 * (2 ^ F.fraction * (2 ^ k * den)) - 2 ^ k * den := by
    rw [F.steps_pred_leading, Nat.mul_assoc, Nat.sub_mul, Nat.one_mul, Nat.mul_assoc]
  have hone : 2 ^ k * den ≤ 2 ^ F.fraction * (2 ^ k * den) :=
    Nat.le_mul_of_pos_left _ (Nat.two_pow_pos _)
  rw [Nat.add_mul, hpred, hcentre] at low
  rw [hcentre] at below
  have hcarried : F.nearest num (2 * den) = min (F.join (2 * 2 ^ F.fraction) k) F.infinity := by
    refine nearest_eq_join positive (doublings_div_eq positive (.inr (by omega)) (by omega)) ?_ ?_
      fun _ => Nat.mul_mod_right _ _
    · rw [Nat.mul_assoc]
      omega
    · rw [Nat.mul_assoc]
      omega
  have hjoin : F.join (2 * 2 ^ F.fraction) k = F.join (2 ^ F.fraction) (k + 1) := by
    unfold join
    ring
  rw [hcarried, hjoin]
  exact Nat.min_eq_left hbits

/-- What is not more than half way from a number to its neighbours is nearest to that number, if it
is less than half way or the bits are even. -/
theorem nearest_of_between (hF : 1 ≤ F.fraction) (hbits : bits ≤ F.infinity) (positive : 0 < den)
    (low : (F.steps (bits - 1) + F.steps bits) * den ≤ num)
    (high : num ≤ (F.steps bits + F.steps (bits + 1)) * den)
    (tie : (F.steps (bits - 1) + F.steps bits) * den = num ∨
      num = (F.steps bits + F.steps (bits + 1)) * den → bits % 2 = 0) :
    F.nearest num (2 * den) = bits := by
  obtain ⟨m, k, hfits, rfl⟩ := F.exists_join bits
  have hcentre : F.steps (F.join m k) * den = m * (2 ^ k * den) := by
    rw [hfits.steps_join, Nat.mul_assoc]
  by_cases hbelow : k ≠ 0 ∧ m = 2 ^ F.fraction ∧ num < 2 * (m * (2 ^ k * den))
  · obtain ⟨hk, rfl, hnum⟩ := hbelow
    obtain ⟨j, rfl⟩ := Nat.exists_eq_succ_of_ne_zero hk
    exact nearest_of_below_leading hbits positive low (hcentre ▸ hnum)
  · obtain ⟨half, hhalf⟩ : ∃ half, 2 ^ F.fraction = 2 * half :=
      ⟨2 ^ (F.fraction - 1), by rw [← Nat.pow_succ', Nat.succ_eq_add_one, Nat.sub_add_cancel hF]⟩
    have hparity : F.join m k % 2 = m % 2 := by
      unfold join
      rw [hhalf, Nat.mul_left_comm, Nat.add_mul_mod_self_left]
    have hnext : F.steps (F.join m k + 1) * den = m * (2 ^ k * den) + 2 ^ k * den := by
      rw [hfits.steps_succ, Nat.mul_assoc, Nat.add_mul, Nat.one_mul]
    have hroom : m * (2 ^ k * den) + 2 ^ k * den ≤ 2 * (2 ^ F.fraction * (2 ^ k * den)) := by
      have hmul := Nat.mul_le_mul_right (2 ^ k * den) (Nat.succ_le_of_lt hfits.lt)
      rwa [Nat.succ_mul, Nat.mul_assoc] at hmul
    have hpositive : 0 < 2 ^ k * den := Nat.mul_pos (Nat.two_pow_pos k) positive
    rw [Nat.add_mul, hcentre] at low tie
    rw [Nat.add_mul, hcentre, hnext] at high tie
    rw [hparity] at tie
    have hlow : 2 * (m * (2 ^ k * den)) ≤ num + 2 ^ k * den ∧
        (2 * (m * (2 ^ k * den)) = num + 2 ^ k * den → m % 2 = 0) := by
      rcases Nat.eq_zero_or_pos m with rfl | hm
      · simp
      · by_cases hregular : k = 0 ∨ 2 ^ F.fraction < m
        · have hpred : F.steps (F.join m k - 1) * den = m * (2 ^ k * den) - 2 ^ k * den := by
            rw [hfits.steps_pred hm hregular, Nat.mul_assoc, Nat.sub_mul, Nat.one_mul]
          have hone : 2 ^ k * den ≤ m * (2 ^ k * den) := Nat.le_mul_of_pos_left _ hm
          rw [hpred] at low tie
          exact ⟨by omega, fun h => tie (.inl (by omega))⟩
        · have hfull := hfits.full
          omega
    have hplace : F.doublings (num / (2 * den)) = k := by
      refine doublings_div_eq positive (Classical.or_iff_not_imp_left.2 fun hk => ?_) (by omega)
      rcases Nat.eq_or_lt_of_le (hfits.full.resolve_left hk) with rfl | hgt
      · omega
      · have hmul := Nat.mul_le_mul_right (2 ^ k * den) (Nat.succ_le_of_lt hgt)
        rw [Nat.succ_mul] at hmul
        omega
    rw [nearest_eq_join positive hplace hlow.1 (by omega) ?_]
    · exact Nat.min_eq_left hbits
    · rintro (h | h)
      · exact hlow.2 h
      · exact tie (.inr (by omega))

/-- What is beyond half way to the next number, or half way from odd bits, is rounded up. -/
theorem lt_nearest (hF : 1 ≤ F.fraction) (hbits : bits < F.infinity) {n : Nat}
    (beyond : F.steps bits + F.steps (bits + 1) ≤ 2 * n)
    (tie : F.steps bits + F.steps (bits + 1) = 2 * n → bits % 2 = 1) :
    bits < F.nearest n 1 := by
  rcases Nat.le_total n (F.steps (bits + 1)) with hle | hge
  · have hnext : F.steps (bits + 1) < F.steps (bits + 1 + 1) :=
      F.strictMono_steps (Nat.lt_succ_self _)
    have hnearest : F.nearest n 1 = bits + 1 := by
      rw [← nearest_mul_mul F n 1 Nat.two_pos, Nat.mul_comm 1 2]
      refine nearest_of_between hF hbits Nat.one_pos ?_ ?_ ?_
      · rw [Nat.add_sub_cancel]
        omega
      · omega
      · rw [Nat.add_sub_cancel]
        omega
    exact hnearest ▸ Nat.lt_succ_self bits
  · have hmono : F.nearest (F.steps (bits + 1)) 1 ≤ F.nearest n 1 := F.nearest_mono hge
    rwa [nearest_steps hbits] at hmono

/-- What is short of half way to the next number, or half way from even bits, is rounded down. -/
theorem nearest_le (hF : 1 ≤ F.fraction) (hbits : bits < F.infinity) {n : Nat}
    (short : 2 * n ≤ F.steps bits + F.steps (bits + 1))
    (tie : 2 * n = F.steps bits + F.steps (bits + 1) → bits % 2 = 0) :
    F.nearest n 1 ≤ bits := by
  rcases Nat.le_total (F.steps bits) n with hge | hle
  · have hpred : F.steps (bits - 1) ≤ F.steps bits :=
      F.strictMono_steps.monotone (Nat.sub_le _ _)
    have hnearest : F.nearest n 1 = bits := by
      rw [← nearest_mul_mul F n 1 Nat.two_pos, Nat.mul_comm 1 2]
      refine nearest_of_between hF hbits.le Nat.one_pos (by omega) (by omega) ?_
      rintro (hlow | hhigh)
      · -- only zero has no smaller neighbour
        have hsame : F.steps (bits - 1) = F.steps bits := by omega
        have hzero : bits - 1 = bits := F.strictMono_steps.injective hsame
        omega
      · exact tie (by omega)
    exact hnearest.le
  · have hmono : F.nearest n 1 ≤ F.nearest (F.steps bits) 1 := F.nearest_mono hle
    rwa [nearest_steps hbits.le] at hmono

/-- No magnitude is nearer than the nearest one, and if another one is as near then the bits of the
nearest one are even. -/
theorem nearest_closest (hF : 1 ≤ F.fraction) {n : Nat} (hbits : bits < F.infinity)
    (hnearest : F.nearest n 1 = bits) (other : Nat) :
    ((n : Int) - F.steps bits).natAbs ≤ ((n : Int) - F.steps other).natAbs ∧
      (((n : Int) - F.steps other).natAbs = ((n : Int) - F.steps bits).natAbs →
        other = bits ∨ bits % 2 = 0) := by
  rcases Nat.lt_trichotomy bits other with hlt | rfl | hgt
  · have habove : 2 * n ≤ F.steps bits + F.steps (bits + 1) ∧
        (2 * n = F.steps bits + F.steps (bits + 1) → bits % 2 = 0) := by
      by_contra hnot
      have hrounded := lt_nearest hF hbits (n := n) (by omega) (by omega)
      omega
    have hnext : F.steps bits < F.steps (bits + 1) := F.strictMono_steps (Nat.lt_succ_self _)
    have hother : F.steps (bits + 1) ≤ F.steps other := F.strictMono_steps.monotone hlt
    omega
  · exact ⟨Nat.le_refl _, fun _ => .inl rfl⟩
  · obtain ⟨pred, rfl⟩ : ∃ pred, bits = pred + 1 := ⟨bits - 1, by omega⟩
    have hbelow : F.steps pred + F.steps (pred + 1) ≤ 2 * n ∧
        (2 * n = F.steps pred + F.steps (pred + 1) → (pred + 1) % 2 = 0) := by
      by_contra hnot
      have hrounded := nearest_le hF (Nat.lt_of_succ_lt hbits) (n := n) (by omega) (by omega)
      omega
    have hnext : F.steps pred < F.steps (pred + 1) := F.strictMono_steps (Nat.lt_succ_self _)
    have hother : F.steps other ≤ F.steps pred :=
      F.strictMono_steps.monotone (Nat.le_of_lt_succ hgt)
    omega

/-- A significand for which there is just no room has as many steps as if there were. -/
theorem steps_join_of_le (hm : m ≤ 2 * 2 ^ F.fraction) (full : k = 0 ∨ 2 ^ F.fraction ≤ m) :
    F.steps (F.join m k) = m * 2 ^ k := by
  rcases Nat.eq_or_lt_of_le hm with rfl | hlt
  · have hfits : F.Fits (2 ^ F.fraction) (k + 1) :=
      ⟨lt_two_mul_self (Nat.two_pow_pos _), .inr (Nat.le_refl _)⟩
    have hjoin : F.join (2 * 2 ^ F.fraction) k = F.join (2 ^ F.fraction) (k + 1) := by
      unfold join
      ring
    rw [hjoin, hfits.steps_join]
    ring
  · exact Fits.steps_join ⟨hlt, full⟩

/-- The steps of the nearest number are the rounded significand, doubled. -/
theorem steps_nearest (hfinite : F.nearest num den < F.infinity) : F.steps (F.nearest num den) =
    roundHalfEven num (den * 2 ^ F.doublings (num / den)) * 2 ^ F.doublings (num / den) := by
  have hbounds := roundHalfEven_bounds num (den * 2 ^ F.doublings (num / den))
  rw [← Nat.div_div_eq_div_mul] at hbounds
  rw [nearest_eq] at hfinite ⊢
  have hjoin := (min_lt_iff.1 hfinite).resolve_right (Nat.lt_irrefl _)
  rw [Nat.min_eq_left hjoin.le]
  refine steps_join_of_le (hbounds.2.trans (F.div_doublings_lt _)) ?_
  by_cases hk : F.doublings (num / den) = 0
  · exact .inl hk
  · exact .inr ((le_div_doublings hk).trans hbounds.1)

/-- What is rounded is at most half a place of the significand away from the steps of its nearest
number. -/
theorem nearest_error (positive : 0 < den) (hfinite : F.nearest num den < F.infinity) :
    2 * (F.steps (F.nearest num den) * den) ≤ 2 * num + den * 2 ^ F.doublings (num / den) ∧
      2 * num ≤ 2 * (F.steps (F.nearest num den) * den) + den * 2 ^ F.doublings (num / den) := by
  have herror := roundHalfEven_error num
    (Nat.mul_pos positive (Nat.two_pow_pos (F.doublings (num / den))))
  have hmul : F.steps (F.nearest num den) * den =
      roundHalfEven num (den * 2 ^ F.doublings (num / den)) *
        (den * 2 ^ F.doublings (num / den)) := by
    rw [steps_nearest hfinite]
    ring
  rwa [hmul]

/-- What is not more than a number of the format is not rounded to more than that number. -/
theorem steps_nearest_le {units places : Nat} (positive : 0 < den)
    (hfinite : F.nearest num den < F.infinity) (hplaces : F.doublings (num / den) ≤ places)
    (h : num ≤ units * 2 ^ places * den) : F.steps (F.nearest num den) ≤ units * 2 ^ places := by
  obtain ⟨more, rfl⟩ := Nat.exists_eq_add_of_le hplaces
  rw [steps_nearest hfinite]
  generalize F.doublings (num / den) = k at *
  have hwhole : units * 2 ^ (k + more) * den = units * 2 ^ more * (den * 2 ^ k) := by
    rw [Nat.pow_add]
    ring
  calc roundHalfEven num (den * 2 ^ k) * 2 ^ k
      ≤ roundHalfEven (units * 2 ^ more * (den * 2 ^ k)) (den * 2 ^ k) * 2 ^ k :=
        Nat.mul_le_mul_right _ (roundHalfEven_mono (hwhole ▸ h))
    _ = units * 2 ^ more * 2 ^ k := by
        rw [roundHalfEven_mul _ (Nat.mul_pos positive (Nat.two_pow_pos k))]
    _ = units * 2 ^ (k + more) := by
        rw [Nat.pow_add]
        ring

/-- What is not less than a number of the format is not rounded to less than that number. -/
theorem le_steps_nearest {units places : Nat} (positive : 0 < den)
    (hfinite : F.nearest num den < F.infinity) (hplaces : F.doublings (num / den) ≤ places)
    (h : units * 2 ^ places * den ≤ num) : units * 2 ^ places ≤ F.steps (F.nearest num den) := by
  obtain ⟨more, rfl⟩ := Nat.exists_eq_add_of_le hplaces
  rw [steps_nearest hfinite]
  generalize F.doublings (num / den) = k at *
  have hwhole : units * 2 ^ (k + more) * den = units * 2 ^ more * (den * 2 ^ k) := by
    rw [Nat.pow_add]
    ring
  calc units * 2 ^ (k + more) = units * 2 ^ more * 2 ^ k := by
        rw [Nat.pow_add]
        ring
    _ = roundHalfEven (units * 2 ^ more * (den * 2 ^ k)) (den * 2 ^ k) * 2 ^ k := by
        rw [roundHalfEven_mul _ (Nat.mul_pos positive (Nat.two_pow_pos k))]
    _ ≤ roundHalfEven num (den * 2 ^ k) * 2 ^ k :=
        Nat.mul_le_mul_right _ (roundHalfEven_mono (hwhole ▸ h))

end Format

end Dataflow.Binary
