import Mathlib.Tactic.LinearCombination
import Mathlib.Tactic.IntervalCases
import Mathlib.Tactic.Linarith
import Mathlib.Tactic.Ring

/-!
# How close a decimal comes to a half way

Half way between two numbers of 32 bits there is an odd number of half steps, doubled some times.
How close a decimal comes to it is a question of how well a ratio, that of a power of ten to a power
of two, is approximated by fractions. Neighbouring fractions with the ratio between them are the
best ones with denominators up to the sum of theirs (`Bracket.apart`). Such neighbours are computed
for each number of doublings and checked; one fraction comes too close (`eq_of_close`).
-/

namespace Dataflow.Decimal

/-- A fraction, not necessarily in lowest terms. -/
structure Fraction where
  num : Nat
  den : Nat
deriving DecidableEq

/-- How far a fraction is from a ratio, scaled with both denominators. -/
def Fraction.gap (r f : Fraction) : Nat := ((f.den * r.num : Int) - f.num * r.den).natAbs

/-- Two fractions that are meant to be on either side of a ratio. -/
structure Bracket where
  low : Fraction
  high : Fraction

namespace Bracket

variable {r f : Fraction} {limit : Nat}

/-- Moves both ends as far to the ratio as they can be moved one after the other, the denominators
being kept to a limit. -/
def narrow (limit : Nat) (r : Fraction) (b : Bracket) : Bracket :=
  let below := b.low.den * r.num - b.low.num * r.den
  let above := b.high.num * r.den - b.high.den * r.num
  let room := (limit - b.low.den) / b.high.den
  let moves := if above = 0 then room else min room (below / above)
  let low : Fraction := ⟨b.low.num + moves * b.high.num, b.low.den + moves * b.high.den⟩
  let below := low.den * r.num - low.num * r.den
  let room := (limit - b.high.den) / low.den
  let moves := if below = 0 then room else min room (above / below)
  ⟨low, ⟨b.high.num + moves * low.num, b.high.den + moves * low.den⟩⟩

/-- The neighbours of a ratio that are found in some rounds, from the whole numbers around it. -/
def around (limit : Nat) (r : Fraction) (rounds : Nat) : Bracket :=
  (narrow limit r)^[rounds] ⟨⟨r.num / r.den, 1⟩, ⟨r.num / r.den + 1, 1⟩⟩

/-- The fractions are neighbours with the ratio between them, and no fraction with a denominator
within the limit is between them. -/
structure Encloses (limit : Nat) (r : Fraction) (b : Bracket) : Prop where
  low_le : b.low.num * r.den ≤ b.low.den * r.num
  le_high : b.high.den * r.num ≤ b.high.num * r.den
  adjacent : b.high.num * b.low.den = b.low.num * b.high.den + 1
  limit_lt : limit < b.low.den + b.high.den

/-- Whether two fractions enclose a ratio is decided by comparing products. -/
instance (limit : Nat) (r : Fraction) (b : Bracket) : Decidable (b.Encloses limit r) :=
  decidable_of_iff (b.low.num * r.den ≤ b.low.den * r.num ∧
      b.high.den * r.num ≤ b.high.num * r.den ∧
      b.high.num * b.low.den = b.low.num * b.high.den + 1 ∧ limit < b.low.den + b.high.den)
    ⟨fun ⟨h₁, h₂, h₃, h₄⟩ => ⟨h₁, h₂, h₃, h₄⟩, fun ⟨h₁, h₂, h₃, h₄⟩ => ⟨h₁, h₂, h₃, h₄⟩⟩

/-- A combination of two denominators that is less than their sum has one of them only, or
coefficients with different signs, and then the distances on both sides add up. -/
theorem combination_apart {x y d₁ d₂ below above : Int} (hd₁ : 0 ≤ d₁) (hd₂ : 0 ≤ d₂)
    (hbelow : 0 ≤ below) (habove : 0 ≤ above) (positive : 0 < x * d₁ + y * d₂)
    (room : x * d₁ + y * d₂ < d₁ + d₂) :
    (0 < x ∧ y = 0) ∨ (x = 0 ∧ 0 < y) ∨
      below + above ≤ x * below - y * above ∨ below + above ≤ y * above - x * below := by
  have hless {z v : Int} (hz : z < 0) (hv : 0 ≤ v) : z * v ≤ -v := by
    have := mul_le_mul_of_nonneg_right (Int.add_one_le_of_lt hz) hv
    linarith
  have hmore {z v : Int} (hz : 0 < z) (hv : 0 ≤ v) : v ≤ z * v :=
    le_mul_of_one_le_left hv hz
  rcases lt_trichotomy x 0 with hx | rfl | hx
  · rcases lt_or_ge 0 y with hy | hy
    · have := hless hx hbelow
      have := hmore hy habove
      right
      right
      omega
    · have := hless hx hd₁
      have := mul_nonpos_of_nonpos_of_nonneg hy hd₂
      omega
  · have hy : 0 < y := by
      by_contra hle
      have := mul_nonpos_of_nonpos_of_nonneg (not_lt.1 hle) hd₂
      omega
    exact .inr (.inl ⟨rfl, hy⟩)
  · rcases lt_trichotomy y 0 with hy | rfl | hy
    · have := hmore hx hbelow
      have := hless hy habove
      right
      right
      omega
    · exact .inl ⟨hx, rfl⟩
    · -- the sum of both denominators is too great
      have := hmore hx hd₁
      have := hmore hy hd₂
      omega

/-- A fraction with a denominator within the limit is one of the neighbours, multiplied through, or
it is as far from the ratio as both of them together. -/
theorem Encloses.apart {b : Bracket} (h : b.Encloses limit r) (positive : 0 < f.den)
    (hf : f.den ≤ limit) :
    (∃ x : Nat, f.num = x * b.low.num ∧ f.den = x * b.low.den) ∨
    (∃ x : Nat, f.num = x * b.high.num ∧ f.den = x * b.high.den) ∨
    r.gap b.low + r.gap b.high ≤ r.gap f := by
  obtain ⟨⟨n₁, d₁⟩, n₂, d₂⟩ := b
  obtain ⟨p, q⟩ := r
  obtain ⟨n, d⟩ := f
  obtain ⟨hlow, hhigh, hadjacent, hlimit⟩ := h
  dsimp only at *
  have hadjacent : (n₂ * d₁ : Int) = n₁ * d₂ + 1 := by exact_mod_cast hadjacent
  have hlow : (0 : Int) ≤ d₁ * p - n₁ * q := by
    rw [sub_nonneg]
    exact_mod_cast hlow
  have hhigh : (0 : Int) ≤ n₂ * q - d₂ * p := by
    rw [sub_nonneg]
    exact_mod_cast hhigh
  -- the fraction is a combination of the neighbours with whole coefficients
  obtain ⟨x, hx⟩ : ∃ x : Int, x = n₂ * d - d₂ * n := ⟨_, rfl⟩
  obtain ⟨y, hy⟩ : ∃ y : Int, y = d₁ * n - n₁ * d := ⟨_, rfl⟩
  have hnum : (n : Int) = x * n₁ + y * n₂ := by
    rw [hx, hy]
    linear_combination -(n : Int) * hadjacent
  have hden : (d : Int) = x * d₁ + y * d₂ := by
    rw [hx, hy]
    linear_combination -(d : Int) * hadjacent
  have hgap : (d * p - n * q : Int) = x * (d₁ * p - n₁ * q) - y * (n₂ * q - d₂ * p) := by
    rw [hnum, hden]
    ring
  have hwhole {z : Int} {n' d' : Nat} (hz : 0 < z) (hn : (n : Int) = z * n')
      (hd : (d : Int) = z * d') : ∃ x : Nat, n = x * n' ∧ d = x * d' := by
    lift z to Nat using hz.le
    exact ⟨z, by exact_mod_cast hn, by exact_mod_cast hd⟩
  rcases combination_apart (Int.natCast_nonneg d₁) (Int.natCast_nonneg d₂) hlow hhigh
    (hden ▸ Int.natCast_pos.2 positive) (by omega) with ⟨hpositive, rfl⟩ | ⟨rfl, hpositive⟩ | hapart
  · rw [zero_mul, add_zero] at hnum hden
    exact .inl (hwhole hpositive hnum hden)
  · rw [zero_mul, zero_add] at hnum hden
    exact .inr (.inl (hwhole hpositive hnum hden))
  · right
    right
    simp only [Fraction.gap]
    omega

end Bracket

/-! ## Coming close -/

/-- The ratio is about two or more. -/
def Fraction.Wide (r : Fraction) : Prop := r.den * (2 ^ 29 - 1) ≤ r.num * 2 ^ 28

/-- Whether a ratio is wide is one comparison of products. -/
instance (r : Fraction) : Decidable r.Wide :=
  inferInstanceAs (Decidable (_ ≤ _))

/-- No multiple of the fraction is an odd number of units below `2 ^ 25` that a decimal comes close
to without being equal to it. -/
def Fraction.Clear (r f : Fraction) : Prop :=
  f.num % 2 = 0 ∨ 2 ^ 25 ≤ f.num ∨ r.gap f = 0 ∨ r.den < r.gap f * 2 ^ 29

/-- Whether a fraction is clear of a ratio is decided by its parts and their gap. -/
instance (r f : Fraction) : Decidable (r.Clear f) :=
  inferInstanceAs (Decidable (_ ∨ _ ∨ _ ∨ _))

/-- The gap of a fraction that is multiplied through. -/
theorem Fraction.gap_mul (r : Fraction) (x num den : Nat) :
    r.gap ⟨x * num, x * den⟩ = x * r.gap ⟨num, den⟩ := by
  have hmul : ((x * den : Nat) * r.num : Int) - (x * num : Nat) * r.den =
      x * (den * r.num - num * r.den) := by
    push_cast
    ring
  rw [gap, gap, hmul, Int.natAbs_mul, Int.natAbs_natCast]

/-- An odd number of units that is a multiple of a clear fraction is not close. -/
theorem Fraction.Clear.not_close {r f : Fraction} (h : r.Clear f) {x : Nat}
    (odd : x * f.num % 2 = 1) (hnum : x * f.num < 2 ^ 25) (ne : r.gap ⟨x * f.num, x * f.den⟩ ≠ 0) :
    r.den < r.gap ⟨x * f.num, x * f.den⟩ * 2 ^ 29 := by
  rw [gap_mul] at ne ⊢
  have hx : 0 < x := Nat.pos_of_ne_zero (Nat.ne_zero_of_mul_ne_zero_left ne)
  rcases h with heven | hlarge | hzero | hfar
  · rw [Nat.mul_mod, heven, Nat.mul_zero] at odd
    cases odd
  · exact absurd (hlarge.trans (Nat.le_mul_of_pos_left _ hx)) (Nat.not_le.2 hnum)
  · exact absurd (show r.gap ⟨f.num, f.den⟩ = 0 from hzero) (Nat.ne_zero_of_mul_ne_zero_right ne)
  · calc r.den < r.gap f * 2 ^ 29 := hfar
      _ ≤ x * r.gap f * 2 ^ 29 := Nat.mul_le_mul_right _ (Nat.le_mul_of_pos_left _ hx)

/-- With clear neighbours below and above nothing comes close, and with a clear one below only what
is equal to the one above. -/
theorem Bracket.Encloses.eq_of_close {b : Bracket} {r f : Fraction} {limit : Nat}
    (h : b.Encloses limit r) (hsum : r.den < (r.gap b.low + r.gap b.high) * 2 ^ 29)
    (hlow : r.Clear b.low) (odd : f.num % 2 = 1) (hnum : f.num < 2 ^ 25) (positive : 0 < f.den)
    (hden : f.den ≤ limit) (close : r.gap f * 2 ^ 29 ≤ r.den) (ne : r.gap f ≠ 0) :
    ¬ r.Clear b.high ∧ ∃ x, f.num = x * b.high.num := by
  obtain ⟨num, den⟩ := f
  rcases h.apart positive hden with ⟨x, hx, hx'⟩ | ⟨x, hx, hx'⟩ | hapart
  · dsimp only at *
    subst hx hx'
    exact absurd close (Nat.not_le.2 (hlow.not_close odd hnum ne))
  · dsimp only at *
    subst hx hx'
    exact ⟨fun hhigh => absurd close (Nat.not_le.2 (hhigh.not_close odd hnum ne)), x, rfl⟩
  · have hmul := Nat.mul_le_mul_right (2 ^ 29) hapart
    exact absurd (hsum.trans_le (hmul.trans close)) (Nat.lt_irrefl _)

/-- What comes close to fewer than `2 ^ 25` units takes at most `2 ^ 24` points that are about two
units apart or more. -/
theorem Fraction.den_le_of_close {r f : Fraction} (hr : 0 < r.den) (hnum : f.num < 2 ^ 25)
    (wide : r.Wide) (close : r.gap f * 2 ^ 29 ≤ r.den) : f.den ≤ 2 ^ 24 := by
  by_contra hgt
  have hgap : f.den * r.num ≤ f.num * r.den + r.gap f := by
    unfold gap
    zify
    have := le_abs_self ((f.den * r.num : Int) - f.num * r.den)
    linarith
  have hden : (2 ^ 24 + 1) * (r.den * (2 ^ 29 - 1)) ≤ f.den * (r.num * 2 ^ 28) :=
    Nat.mul_le_mul (by omega) wide
  have hunits : f.num * r.den ≤ (2 ^ 25 - 1) * r.den := Nat.mul_le_mul_right _ (by omega)
  have hcalc : f.den * (r.num * 2 ^ 28) = f.den * r.num * 2 ^ 28 := (Nat.mul_assoc _ _ _).symm
  rw [hcalc] at hden
  omega

/-- Equal ratios have the same fractions close to them. -/
theorem Fraction.gap_congr {r r' : Fraction} (h : r.num * r'.den = r'.num * r.den) (f : Fraction) :
    r.gap f * r'.den = r'.gap f * r.den := by
  have hmul : ((f.den * r.num : Int) - f.num * r.den) * r'.den =
      ((f.den * r'.num : Int) - f.num * r'.den) * r.den := by
    have h : (r.num * r'.den : Int) = r'.num * r.den := by exact_mod_cast h
    linear_combination (f.den : Int) * h
  have hnatAbs := congrArg Int.natAbs hmul
  rwa [Int.natAbs_mul, Int.natAbs_mul, Int.natAbs_natCast, Int.natAbs_natCast] at hnatAbs

/-- Of equal ratios either both are about two or more or neither is. -/
theorem Fraction.Wide.congr {r r' : Fraction} (h : r.num * r'.den = r'.num * r.den)
    (positive : 0 < r.den) (wide : r.Wide) : r'.Wide := by
  unfold Wide at *
  generalize 2 ^ 29 - 1 = lower at *
  generalize 2 ^ 28 = upper at *
  refine Nat.le_of_mul_le_mul_right ?_ positive
  calc r'.den * lower * r.den = r.den * lower * r'.den := by ring
    _ ≤ r.num * upper * r'.den := Nat.mul_le_mul_right _ wide
    _ = r'.num * upper * r.den := by rw [Nat.mul_right_comm, h, Nat.mul_right_comm]

/-- Equal ratios have the same fractions as close to them as they ask for. -/
theorem Fraction.close_congr {r r' f : Fraction} (h : r.num * r'.den = r'.num * r.den)
    (positive : 0 < r.den) (close : r.gap f * 2 ^ 29 ≤ r.den) : r'.gap f * 2 ^ 29 ≤ r'.den := by
  have hgap := gap_congr h f
  generalize 2 ^ 29 = factor at *
  refine Nat.le_of_mul_le_mul_right ?_ positive
  calc r'.gap f * factor * r.den = r.gap f * factor * r'.den := by
        rw [Nat.mul_right_comm, ← hgap, Nat.mul_right_comm]
    _ ≤ r.den * r'.den := Nat.mul_le_mul_right _ close
    _ = r'.den * r.den := Nat.mul_comm _ _

/-! ## Powers of ten and of two -/

/-- The distance of the points of a grid, in units of `2 ^ doublings` half steps of the format of 32
bits. The grid has the multiples of `10 ^ power` units that are smaller by `10 ^ 149`. -/
def ratio (power doublings : Nat) : Fraction := ⟨10 ^ power * 2 ^ 150, 10 ^ 149 * 2 ^ doublings⟩

/-- The least power for which the points of the grid are about two units apart or more. The decimal
logarithm of two is 0.30103. -/
def leastPower (doublings : Nat) : Nat := 1 + (104146529 + 301030 * doublings) / 1000000

/-- The neighbours of the distance of points on the finest grid with such a distance. -/
def neighbours (doublings : Nat) : Bracket :=
  .around (2 ^ 24) (ratio (leastPower doublings) doublings) 12

/-- On coarser grids than the one whose points are about two units apart no decimal comes close to
an odd number of units, except for one such number of `2 ^ 42` half steps. -/
theorem neighbours_clear : ∀ doublings < 254,
    ¬ (ratio (leastPower doublings - 1) doublings).Wide ∧
    (ratio (leastPower doublings) doublings).Wide ∧
    (neighbours doublings).Encloses (2 ^ 24) (ratio (leastPower doublings) doublings) ∧
    (ratio (leastPower doublings) doublings).den <
      ((ratio (leastPower doublings) doublings).gap (neighbours doublings).low +
        (ratio (leastPower doublings) doublings).gap (neighbours doublings).high) * 2 ^ 29 ∧
    (ratio (leastPower doublings) doublings).Clear (neighbours doublings).low ∧
    ((ratio (leastPower doublings) doublings).Clear (neighbours doublings).high ∨
      doublings = 42 ∧ (neighbours doublings).high.num = 22841339) := by
  decide +kernel

/-- A decimal on a coarser grid is one on a finer grid. -/
theorem gap_ratio_add (power more doublings units digits : Nat) :
    (ratio (power + more) doublings).gap ⟨units, digits⟩ =
      (ratio power doublings).gap ⟨units, digits * 10 ^ more⟩ := by
  unfold Fraction.gap ratio
  dsimp only
  generalize 2 ^ 150 = unit
  have hmul : digits * (10 ^ (power + more) * unit) = digits * 10 ^ more * (10 ^ power * unit) := by
    rw [Nat.pow_add]
    ring
  rw [← Int.natCast_mul digits, hmul, Int.natCast_mul]

/-- Coarser grids have their points further apart. -/
theorem Fraction.Wide.mono {power power' doublings : Nat} (h : (ratio power doublings).Wide)
    (hle : power ≤ power') : (ratio power' doublings).Wide :=
  Nat.le_trans h (Nat.mul_le_mul_right _
    (Nat.mul_le_mul_right _ (Nat.pow_le_pow_right (by decide) hle)))

/-- The scale of a grid is not zero. -/
theorem den_ratio_pos (power doublings : Nat) : 0 < (ratio power doublings).den :=
  Nat.mul_pos (Nat.pow_pos (by decide)) (Nat.two_pow_pos _)

/-- A decimal that comes close to an odd number of units without being equal to it, on a grid whose
points are about two units apart or more, comes close to one number. -/
theorem eq_of_close {power doublings units digits : Nat} (hdoublings : doublings < 254)
    (odd : units % 2 = 1) (hunits : units < 2 ^ 25) (positive : 0 < digits)
    (wide : (ratio power doublings).Wide)
    (close : (ratio power doublings).gap ⟨units, digits⟩ * 2 ^ 29 ≤ (ratio power doublings).den)
    (ne : (ratio power doublings).gap ⟨units, digits⟩ ≠ 0) : doublings = 42 ∧ units = 22841339 := by
  obtain ⟨hnarrow, hwide, hencloses, hsum, hlow, hhigh⟩ := neighbours_clear doublings hdoublings
  have hpower : leastPower doublings ≤ power := by
    by_contra hlt
    exact hnarrow (wide.mono (Nat.le_sub_one_of_lt (Nat.not_le.1 hlt)))
  -- the decimal is taken to the finest of these grids
  obtain ⟨more, rfl⟩ := Nat.exists_eq_add_of_le hpower
  have hden : (ratio (leastPower doublings + more) doublings).den =
      (ratio (leastPower doublings) doublings).den := rfl
  rw [gap_ratio_add, hden] at close
  rw [gap_ratio_add] at ne
  have hdigits : digits * 10 ^ more ≤ 2 ^ 24 :=
    Fraction.den_le_of_close (den_ratio_pos _ _) hunits hwide close
  have hpositive : 0 < digits * 10 ^ more := Nat.mul_pos positive (Nat.pow_pos (by decide))
  obtain ⟨hnot, x, hx⟩ := hencloses.eq_of_close hsum hlow odd hunits hpositive hdigits close ne
  obtain ⟨hk, hone⟩ := hhigh.resolve_left hnot
  refine ⟨hk, ?_⟩
  have hx : units = x * 22841339 := hone ▸ hx
  have hlt : x < 2 := by
    refine Nat.lt_of_mul_lt_mul_right (a := 22841339) ?_
    rw [← hx]
    exact hunits.trans (by norm_num)
  rw [hx] at odd ⊢
  interval_cases x
  · cases odd
  · rfl

end Dataflow.Decimal
