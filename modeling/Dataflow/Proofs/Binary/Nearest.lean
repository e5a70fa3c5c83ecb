import Mathlib.Algebra.Group.Int.Defs
import Mathlib.Algebra.Group.Nat.Defs
import Mathlib.Order.Monotone.Basic
import Mathlib.Order.Nat
import Dataflow.Binary.Format

/-!
# Nearest numbers of a format

A magnitude is made up of a significand and of how often it is doubled (`Format.Fits`). Its bits
and its steps are ordered alike (`Format.strictMono_steps`). Rounding keeps the order of what is
rounded (`Format.nearest_mono`) and leaves alone what needs no rounding (`Format.nearest_steps`),
so the nearest number lies on the same side of every number as the exact one does.
-/

namespace Dataflow.Binary

/-! ## Halves to even -/

/-- What is rounded goes down to the quotient or up by one. -/
theorem roundHalfEven_bounds (num den : Nat) :
    num / den ≤ roundHalfEven num den ∧ roundHalfEven num den ≤ num / den + 1 := by
  unfold roundHalfEven
  dsimp only
  have hparity : num / den % 2 < 2 := Nat.mod_lt _ Nat.two_pos
  split <;> omega

/-- A whole quotient is kept. -/
theorem roundHalfEven_mul {den : Nat} (quotient : Nat) (h : 0 < den) :
    roundHalfEven (quotient * den) den = quotient := by
  have hbelow : compare 0 den = .lt := Nat.compare_eq_lt.2 h
  simp only [roundHalfEven, Nat.mul_mod_left, Nat.mul_zero, hbelow, Nat.mul_div_cancel _ h]

/-- A common factor does not change how a quotient is rounded. -/
theorem roundHalfEven_mul_mul (num den : Nat) {factor : Nat} (h : 0 < factor) :
    roundHalfEven (num * factor) (den * factor) = roundHalfEven num den := by
  have hcompare : compare (2 * (num % den) * factor) (den * factor) =
      compare (2 * (num % den)) den := by
    rcases Nat.lt_trichotomy (2 * (num % den)) den with hlt | heq | hgt
    · rw [Nat.compare_eq_lt.2 hlt, Nat.compare_eq_lt.2 (Nat.mul_lt_mul_of_pos_right hlt h)]
    · rw [heq, Nat.compare_eq_eq.2 rfl, Nat.compare_eq_eq.2 rfl]
    · rw [Nat.compare_eq_gt.2 hgt, Nat.compare_eq_gt.2 (Nat.mul_lt_mul_of_pos_right hgt h)]
  unfold roundHalfEven
  dsimp only
  rw [Nat.mul_div_mul_right _ _ h, Nat.mul_mod_mul_right, ← Nat.mul_assoc, hcompare]

/-- Rounding keeps the order. -/
theorem roundHalfEven_mono {num num' den : Nat} (h : num ≤ num') :
    roundHalfEven num den ≤ roundHalfEven num' den := by
  rcases Nat.lt_or_ge (num / den) (num' / den) with hlt | hge
  · calc roundHalfEven num den ≤ num / den + 1 := (roundHalfEven_bounds num den).2
      _ ≤ num' / den := hlt
      _ ≤ roundHalfEven num' den := (roundHalfEven_bounds num' den).1
  · have hquotient : num' / den = num / den := Nat.le_antisymm hge (Nat.div_le_div_right h)
    have hrest : num % den ≤ num' % den := by
      have hsum := Nat.div_add_mod num den
      have hsum' := Nat.div_add_mod num' den
      rw [hquotient] at hsum'
      omega
    -- with the same quotient the remainders decide, and they are ordered
    unfold roundHalfEven
    dsimp only
    rw [hquotient]
    have hparity : num / den % 2 < 2 := Nat.mod_lt _ Nat.two_pos
    split <;> split <;> simp only [Nat.compare_eq_lt, Nat.compare_eq_eq, Nat.compare_eq_gt] at * <;>
      omega

/-- Doubling a number moves its leading bit. -/
theorem log2_mul_two_pow {m : Nat} (positive : 0 < m) (j : Nat) :
    (m * 2 ^ j).log2 = m.log2 + j := by
  rw [Nat.log2_eq_iff (Nat.mul_ne_zero positive.ne' (Nat.two_pow_pos j).ne'), Nat.pow_add,
    Nat.add_right_comm, Nat.pow_add]
  exact ⟨Nat.mul_le_mul_right _ (Nat.log2_self_le positive.ne'),
    Nat.mul_lt_mul_of_pos_right Nat.lt_log2_self (Nat.two_pow_pos j)⟩

namespace Format

variable {F : Format} {m m' k k' : Nat}

/-! ## Significands -/

/-- The significand `m` has room in the format, and once it is doubled its leading bit is set. -/
structure Fits (F : Format) (m k : Nat) : Prop where
  lt : m < 2 * 2 ^ F.fraction
  full : k = 0 ∨ 2 ^ F.fraction ≤ m

/-- The bits of the magnitude with significand `m`, doubled `k` times. -/
def join (F : Format) (m k : Nat) : Nat :=
  m + k * 2 ^ F.fraction

/-- All bits are those of a significand that is doubled some times. -/
theorem exists_join (F : Format) (bits : Nat) : ∃ m k, F.Fits m k ∧ F.join m k = bits := by
  have hunit : 0 < 2 ^ F.fraction := Nat.two_pow_pos _
  by_cases hsmall : bits < 2 * 2 ^ F.fraction
  · exact ⟨bits, 0, ⟨hsmall, .inl rfl⟩, by simp [join]⟩
  · have hfields := Nat.div_add_mod' bits (2 ^ F.fraction)
    have hrest := Nat.mod_lt bits hunit
    have hdoublings : 2 ≤ bits / 2 ^ F.fraction :=
      (Nat.le_div_iff_mul_le hunit).2 (Nat.not_lt.1 hsmall)
    obtain ⟨k, hk⟩ := Nat.exists_eq_add_of_le' (Nat.le_of_succ_le hdoublings)
    refine ⟨2 ^ F.fraction + bits % 2 ^ F.fraction, k, ⟨by omega, .inr (by omega)⟩, ?_⟩
    rw [hk, Nat.add_mul, Nat.one_mul] at hfields
    unfold join
    omega

/-- The steps of a magnitude are its significand, doubled. -/
theorem Fits.steps_join (h : F.Fits m k) : F.steps (F.join m k) = m * 2 ^ k := by
  have hunit : 0 < 2 ^ F.fraction := Nat.two_pow_pos _
  unfold steps join
  rw [Nat.one_shiftLeft]
  split
  · rename_i hsmall
    have hk : k = 0 := by
      rcases h.full with hk | hfull
      · exact hk
      · omega
    simp [hk]
  · rename_i hlarge
    have hfull : 2 ^ F.fraction ≤ m := by
      rcases h.full with rfl | hfull
      · omega
      · exact hfull
    obtain ⟨rest, rfl⟩ := Nat.exists_eq_add_of_le hfull
    have hrest : rest < 2 ^ F.fraction := by have := h.lt; omega
    have hbits : 2 ^ F.fraction + rest + k * 2 ^ F.fraction = rest + (k + 1) * 2 ^ F.fraction := by
      rw [Nat.add_mul]
      omega
    rw [hbits, Nat.add_mul_mod_self_right, Nat.mod_eq_of_lt hrest, Nat.shiftRight_eq_div_pow,
      Nat.add_mul_div_right _ _ hunit, Nat.div_eq_of_lt hrest, Nat.zero_add, Nat.add_sub_cancel,
      Nat.shiftLeft_eq]

/-- More doublings outweigh every significand. -/
theorem Fits.join_lt_join_iff (h : F.Fits m k) (h' : F.Fits m' k') :
    F.join m k < F.join m' k' ↔ k < k' ∨ k = k' ∧ m < m' := by
  have hgap {m m' k k' : Nat} (h : F.Fits m k) (h' : F.Fits m' k') (hk : k < k') :
      F.join m k < F.join m' k' := by
    have hfull : 2 ^ F.fraction ≤ m' := h'.full.resolve_left (Nat.ne_zero_of_lt hk)
    have hlt := h.lt
    have hmul : (k + 1) * 2 ^ F.fraction ≤ k' * 2 ^ F.fraction := Nat.mul_le_mul_right _ hk
    rw [Nat.add_mul] at hmul
    unfold join
    omega
  constructor
  · intro hlt
    rcases Nat.lt_trichotomy k k' with hk | rfl | hk
    · exact .inl hk
    · exact .inr ⟨rfl, Nat.lt_of_add_lt_add_right hlt⟩
    · exact absurd (hgap h' h hk) (Nat.lt_asymm hlt)
  · rintro (hk | ⟨rfl, hm⟩)
    · exact hgap h h' hk
    · exact Nat.add_lt_add_right hm _

/-- Greater bits stand for more steps. -/
theorem strictMono_steps (F : Format) : StrictMono F.steps := by
  intro bits bits' hlt
  obtain ⟨m, k, h, rfl⟩ := F.exists_join bits
  obtain ⟨m', k', h', rfl⟩ := F.exists_join bits'
  rw [h.steps_join, h'.steps_join]
  rcases (h.join_lt_join_iff h').1 hlt with hk | ⟨rfl, hm⟩
  · have hfull : 2 ^ F.fraction ≤ m' := h'.full.resolve_left (Nat.ne_zero_of_lt hk)
    calc m * 2 ^ k < 2 * 2 ^ F.fraction * 2 ^ k :=
          Nat.mul_lt_mul_of_pos_right h.lt (Nat.two_pow_pos k)
      _ = 2 ^ F.fraction * 2 ^ (k + 1) := by
          rw [Nat.mul_comm 2, Nat.mul_assoc, Nat.pow_succ', Nat.mul_comm 2]
      _ ≤ m' * 2 ^ k' := Nat.mul_le_mul hfull (Nat.pow_le_pow_right Nat.two_pos hk)
  · exact Nat.mul_lt_mul_of_pos_right hm (Nat.two_pow_pos k)

/-- Zero bits stand for no steps. -/
@[simp] theorem steps_zero (F : Format) : F.steps 0 = 0 := by
  rw [steps, Nat.one_shiftLeft, if_pos (Nat.two_pow_pos _)]

/-! ## Rounding to a number of the format -/

/-- How often the significand of the number nearest to `n` steps is doubled. -/
def doublings (F : Format) (n : Nat) : Nat :=
  n.log2 - F.fraction

/-- A number that was doubled is doubled as often as its leading bit asks for. -/
theorem doublings_mul_two_pow {m : Nat} (positive : 0 < m) (k : Nat) :
    F.doublings (m * 2 ^ k) = m.log2 + k - F.fraction := by
  rw [doublings, log2_mul_two_pow positive]

/-- The significand of the number nearest to `n` steps. -/
def significand (F : Format) (n : Nat) : Nat :=
  roundHalfEven n (2 ^ F.doublings n)

/-- The nearest number is made up of its significand and its doublings, unless it is out of
range. -/
theorem nearest_one (F : Format) (n : Nat) :
    F.nearest n 1 = min (F.join (F.significand n) (F.doublings n)) F.infinity := by
  simp only [nearest, significand, doublings, join, Nat.div_one, Nat.shiftLeft_eq, Nat.one_mul]

/-- Before it is rounded a significand has room. -/
theorem div_doublings_lt (F : Format) (n : Nat) : n / 2 ^ F.doublings n < 2 * 2 ^ F.fraction := by
  rw [Nat.div_lt_iff_lt_mul (Nat.two_pow_pos _)]
  calc n < 2 ^ (n.log2 + 1) := Nat.lt_log2_self
    _ ≤ 2 ^ (F.fraction + 1 + F.doublings n) :=
        Nat.pow_le_pow_right Nat.two_pos (by unfold doublings; omega)
    _ = 2 * 2 ^ F.fraction * 2 ^ F.doublings n := by rw [Nat.pow_add, Nat.pow_succ']

/-- Before it is rounded a significand that is doubled has its leading bit set. -/
theorem le_div_doublings {n : Nat} (h : F.doublings n ≠ 0) :
    2 ^ F.fraction ≤ n / 2 ^ F.doublings n := by
  have hn : n ≠ 0 := by
    rintro rfl
    simp [doublings] at h
  have hlog : F.fraction + F.doublings n = n.log2 := by unfold doublings at *; omega
  rw [Nat.le_div_iff_mul_le (Nat.two_pow_pos _), ← Nat.pow_add, hlog]
  exact Nat.log2_self_le hn

/-- The significand is at most the power of two for which there is no room. -/
theorem significand_le (F : Format) (n : Nat) : F.significand n ≤ 2 * 2 ^ F.fraction :=
  (roundHalfEven_bounds _ _).2.trans (F.div_doublings_lt n)

/-- A significand that is doubled has its leading bit set. -/
theorem le_significand {n : Nat} (h : F.doublings n ≠ 0) : 2 ^ F.fraction ≤ F.significand n :=
  (le_div_doublings h).trans (roundHalfEven_bounds _ _).1

/-- What is not nothing is not rounded to nothing. -/
theorem significand_pos {n : Nat} (h : 0 < n) : 0 < F.significand n := by
  by_cases hzero : F.doublings n = 0
  · rw [significand, hzero, Nat.pow_zero]
    have hkept := roundHalfEven_mul n Nat.one_pos
    rw [Nat.mul_one] at hkept
    rwa [hkept]
  · exact Nat.lt_of_lt_of_le (Nat.two_pow_pos _) (le_significand hzero)

/-- What is not nothing has a nearest number that is not zero. -/
theorem nearest_pos (hinfinity : 0 < F.infinity) {n : Nat} (h : 0 < n) : 0 < F.nearest n 1 := by
  rw [nearest_one]
  exact lt_min (Nat.add_pos_left (significand_pos h) _) hinfinity

/-- A whole number of steps that is a number of the format has the significand and the doublings of
that number. -/
theorem Fits.doublings_eq (h : F.Fits m k) :
    F.doublings (m * 2 ^ k) = k ∧ F.significand (m * 2 ^ k) = m := by
  have hdoublings : F.doublings (m * 2 ^ k) = k := by
    rcases Nat.eq_zero_or_pos m with rfl | positive
    · have hk : k = 0 := h.full.resolve_right (Nat.not_le.2 (Nat.two_pow_pos _))
      simp [doublings, hk]
    · have hlt : m.log2 < F.fraction + 1 :=
        (Nat.log2_lt positive.ne').2 (Nat.pow_succ' ▸ h.lt)
      rw [doublings_mul_two_pow positive]
      rcases h.full with rfl | hfull
      · omega
      · have hle : F.fraction ≤ m.log2 := (Nat.le_log2 positive.ne').2 hfull
        omega
  refine ⟨hdoublings, ?_⟩
  rw [significand, hdoublings]
  exact roundHalfEven_mul m (Nat.two_pow_pos k)

/-- A number of the format is its own nearest number. -/
theorem nearest_steps {bits : Nat} (h : bits ≤ F.infinity) : F.nearest (F.steps bits) 1 = bits := by
  obtain ⟨m, k, hfits, rfl⟩ := F.exists_join bits
  obtain ⟨hdoublings, hsignificand⟩ := hfits.doublings_eq
  rw [nearest_one, hfits.steps_join, hdoublings, hsignificand]
  exact Nat.min_eq_left h

/-- The numbers nearest to more and more steps become no smaller. -/
theorem nearest_mono (F : Format) : Monotone fun n => F.nearest n 1 := by
  intro n n' hle
  show F.nearest n 1 ≤ F.nearest n' 1
  rw [nearest_one, nearest_one]
  refine le_min ((min_le_left _ _).trans ?_) (min_le_right _ _)
  have hlog : F.doublings n ≤ F.doublings n' := by
    unfold doublings
    rcases Nat.eq_zero_or_pos n with rfl | hpos
    · simp
    · have : n.log2 ≤ n'.log2 := (Nat.le_log2 (by omega)).2 ((Nat.log2_self_le hpos.ne').trans hle)
      omega
  unfold join
  rcases Nat.eq_or_lt_of_le hlog with heq | hlt
  · have hround : F.significand n ≤ F.significand n' := by
      unfold significand
      rw [← heq]
      exact roundHalfEven_mono hle
    rw [heq]
    exact Nat.add_le_add_right hround _
  · -- one doubling more outweighs a significand that was rounded up as far as it can be
    have hfull : 2 ^ F.fraction ≤ F.significand n' := le_significand (Nat.ne_zero_of_lt hlt)
    have hroom := F.significand_le n
    have hmul : (F.doublings n + 1) * 2 ^ F.fraction ≤ F.doublings n' * 2 ^ F.fraction :=
      Nat.mul_le_mul_right _ hlt
    rw [Nat.add_mul] at hmul
    omega

/-- The least number of steps that is rounded to infinity in the format of 32 bits: half way between
the greatest number and the power of two that follows. -/
def singleLimit : Nat := (2 ^ 25 - 1) * 2 ^ 252

/-- Fewer steps than the limit, and no others, have a nearest number that is finite. -/
theorem nearest_lt_infinity_iff (n : Nat) :
    single.nearest n 1 < single.infinity ↔ n < singleLimit := by
  constructor
  · intro hlt
    by_contra hge
    have hmono := single.nearest_mono (Nat.not_lt.1 hge)
    have hlimit : single.nearest singleLimit 1 = single.infinity := by decide
    exact absurd hlt (Nat.not_lt.2 (hlimit ▸ hmono))
  · intro hlt
    have hmono := single.nearest_mono (Nat.le_pred_of_lt hlt)
    have hlast : single.nearest (singleLimit - 1) 1 < single.infinity := by decide
    exact Nat.lt_of_le_of_lt hmono hlast

end Format

end Dataflow.Binary
