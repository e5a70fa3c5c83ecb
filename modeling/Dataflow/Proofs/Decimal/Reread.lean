import Dataflow.Proofs.Decimal.Approximation
import Dataflow.Proofs.Decimal.Shortest

/-!
# Shortest decimals are read back

The shortest decimal of a number of 32 bits is read as a number of 64 bits first, and that is
rounded to one of 32. What is in the interval of a number can be rounded to an end of the interval
at worst (`nearest_nearest`), and then it was very close to that end. Shortest decimals do not come
so close to it, except for one (`nearest_nearest_shortest`).
-/

namespace Dataflow.Decimal

open Binary (Format)
open Binary.Format

variable {m k num den scale bits : Nat}

/-! ## Rounding twice -/

/-- The number before another one has steps that are doubled nearly as often. -/
theorem exists_steps_pred (fits : single.Fits m k) :
    ∃ units, single.steps (single.join m k - 1) = units * 2 ^ (k - 1) := by
  by_cases hregular : 0 < m ∧ (k = 0 ∨ 2 ^ 23 < m)
  · rw [fits.steps_pred hregular.1 hregular.2]
    cases k with
    | zero => exact ⟨m - 1, rfl⟩
    | succ k => exact ⟨(m - 1) * 2, by rw [Nat.add_sub_cancel, Nat.mul_assoc, Nat.pow_succ']⟩
  · cases k with
    | zero => exact ⟨single.steps (single.join m 0 - 1), (Nat.mul_one _).symm⟩
    | succ k =>
        have hfull : 2 ^ 23 ≤ m := fits.full.resolve_left (Nat.succ_ne_zero k)
        obtain rfl : m = 2 ^ single.fraction := by
          show m = 2 ^ 23
          omega
        exact ⟨_, single.steps_pred_leading k⟩

/-- The lower end of an interval is doubled nearly as often as the number. -/
theorem Interval.exists_low (fits : single.Fits m k) :
    ∃ units, (around single (single.join m k)).low = units * 2 ^ (k - 1) := by
  obtain ⟨units, hunits⟩ := exists_steps_pred fits
  obtain ⟨more, hmore⟩ : ∃ more, k = more + (k - 1) := ⟨k - (k - 1), by omega⟩
  refine ⟨units + m * 2 ^ more, ?_⟩
  show single.steps (single.join m k - 1) + single.steps (single.join m k) = _
  rw [hunits, fits.steps_join, Nat.add_mul, Nat.mul_assoc m, ← Nat.pow_add, ← hmore]

/-- The lower end of the interval of an odd number is half a place of its significand below it. -/
theorem Interval.low_eq (fits : single.Fits m k) (odd : m % 2 = 1) :
    (around single (single.join m k)).low = (2 * m - 1) * 2 ^ k := by
  have hregular : k = 0 ∨ 2 ^ single.fraction < m := by
    refine fits.full.imp_right fun hfull => lt_of_le_of_ne hfull ?_
    rintro rfl
    exact absurd odd (by decide)
  show single.steps (single.join m k - 1) + single.steps (single.join m k) = _
  rw [fits.steps_pred (by omega) hregular, fits.steps_join, ← Nat.add_mul]
  congr 1
  omega

/-- The upper end of an interval is half a place of the significand above the number. -/
theorem Interval.high_eq (fits : single.Fits m k) :
    (around single (single.join m k)).high = (2 * m + 1) * 2 ^ k := by
  show single.steps (single.join m k) + single.steps (single.join m k + 1) = _
  rw [fits.steps_join, fits.steps_succ]
  ring

/-- How often the significand of 64 bits is doubled for what is below the upper end of
an interval. -/
theorem doublings_le (fits : single.Fits m k) (positive : 0 < den)
    (h : num ≤ (2 * m + 1) * 2 ^ k * den) :
    double.doublings (num * 2 ^ scale / den) ≤ k + scale - 28 := by
  have hm : 2 * m + 1 < 2 ^ 25 := by
    have hlt : m < 2 * 2 ^ 23 := fits.lt
    omega
  have hlt : num * 2 ^ scale / den < 2 ^ (25 + k + scale) := by
    rw [Nat.div_lt_iff_lt_mul positive]
    calc num * 2 ^ scale ≤ (2 * m + 1) * 2 ^ k * den * 2 ^ scale := Nat.mul_le_mul_right _ h
      _ < 2 ^ 25 * 2 ^ k * den * 2 ^ scale :=
          Nat.mul_lt_mul_of_pos_right (Nat.mul_lt_mul_of_pos_right
            (Nat.mul_lt_mul_of_pos_right hm (Nat.two_pow_pos k)) positive) (Nat.two_pow_pos scale)
      _ = 2 ^ (25 + k + scale) * den := by
          rw [Nat.pow_add, Nat.pow_add]
          ring
  show (num * 2 ^ scale / den).log2 - 52 ≤ _
  rcases Nat.eq_zero_or_pos (num * 2 ^ scale / den) with hzero | hpositive
  · rw [hzero]
    simp
  · have hlog := (Nat.log2_lt hpositive.ne').2 hlt
    omega

/-- What is not doubled too often is finite as a number of 64 bits. -/
theorem nearest_lt_infinity_of_doublings (h : double.doublings (num / den) ≤ 2000) :
    double.nearest num den < double.infinity := by
  have hinfinity : double.infinity = 2047 * 2 ^ 52 := by decide
  have hbounds := Binary.roundHalfEven_bounds num (den * 2 ^ double.doublings (num / den))
  rw [← Nat.div_div_eq_div_mul] at hbounds
  have hroom : _ < 2 * 2 ^ 52 := double.div_doublings_lt (num / den)
  rw [nearest_eq]
  refine Nat.lt_of_le_of_lt (Nat.min_le_left _ _) ?_
  show _ + _ * 2 ^ 52 < _
  rw [hinfinity]
  omega

/-- A finite number of 32 bits is doubled at most 253 times. -/
theorem doublings_lt (fits : single.Fits m k) (finite : single.join m k < single.infinity) :
    k < 254 := by
  have hinfinity : single.infinity = 255 * 2 ^ 23 := by decide
  have hjoin : single.join m k = m + k * 2 ^ 23 := rfl
  rw [hinfinity, hjoin] at finite
  rcases fits.full with rfl | hfull
  · decide
  · have hfull : 2 ^ 23 ≤ m := hfull
    omega

/-- What is rounded to some steps of 64 bits is close to them. -/
theorem close_of_steps_nearest {units : Nat} (hscale : 28 ≤ scale) (positive : 0 < den)
    (hfinite : double.nearest (num * 2 ^ scale) den < double.infinity)
    (hplaces : double.doublings (num * 2 ^ scale / den) ≤ k + scale - 28)
    (h : double.steps (double.nearest (num * 2 ^ scale) den) = units * 2 ^ k * 2 ^ scale) :
    ((num : Int) - (units * 2 ^ k * den : Nat)).natAbs * 2 ^ 29 ≤ 2 ^ k * den := by
  obtain ⟨hle, hge⟩ := nearest_error positive hfinite
  have hstep : den * 2 ^ double.doublings (num * 2 ^ scale / den) * 2 ^ 28 ≤
      2 ^ k * den * 2 ^ scale :=
    calc den * 2 ^ double.doublings (num * 2 ^ scale / den) * 2 ^ 28
        ≤ den * 2 ^ (k + scale - 28) * 2 ^ 28 :=
          Nat.mul_le_mul_right _ (Nat.mul_le_mul_left _ (Nat.pow_le_pow_right Nat.two_pos hplaces))
      _ = den * 2 ^ (k + scale) := by
          rw [Nat.mul_assoc, ← Nat.pow_add, Nat.sub_add_cancel (by omega)]
      _ = 2 ^ k * den * 2 ^ scale := by
          rw [Nat.pow_add]
          ring
  have hunits : units * 2 ^ k * 2 ^ scale * den = units * 2 ^ k * den * 2 ^ scale := by ring
  rw [h, hunits] at hle hge
  generalize units * 2 ^ k * den = whole at *
  generalize den * 2 ^ double.doublings (num * 2 ^ scale / den) = step at *
  generalize 2 ^ k * den = unit at *
  have hpow : 0 < 2 ^ scale := Nat.two_pow_pos scale
  generalize 2 ^ scale = grain at *
  have hgap : 2 * (((num : Int) - (whole : Nat)).natAbs * grain) ≤ step := by
    rcases Nat.le_total num whole with hsmall | hlarge
    · obtain ⟨gap, rfl⟩ := Nat.exists_eq_add_of_le hsmall
      have hgap : ((num : Int) - (num + gap : Nat)).natAbs = gap := by omega
      rw [Nat.add_mul] at hle
      rw [hgap]
      omega
    · obtain ⟨gap, rfl⟩ := Nat.exists_eq_add_of_le hlarge
      have hgap : ((whole + gap : Nat) - (whole : Int)).natAbs = gap := by omega
      rw [Nat.add_mul] at hge
      rw [hgap]
      omega
  refine Nat.le_of_mul_le_mul_right ?_ hpow
  calc ((num : Int) - (whole : Nat)).natAbs * 2 ^ 29 * grain
      = 2 * (((num : Int) - (whole : Nat)).natAbs * grain) * 2 ^ 28 := by ring
    _ ≤ step * 2 ^ 28 := Nat.mul_le_mul_right _ hgap
    _ ≤ unit * grain := hstep

/-- The lower end of an interval is a number of 64 bits, so that what is above it is not rounded to
less. -/
theorem low_le_steps_nearest (fits : single.Fits m k) (positive : 0 < den)
    (hfinite : double.nearest (num * 2 ^ scale) den < double.infinity) (hscale : 28 ≤ scale)
    (hplaces : double.doublings (num * 2 ^ scale / den) ≤ k + scale - 28)
    (h : (Interval.around single (single.join m k)).low * den ≤ num) :
    (Interval.around single (single.join m k)).low * 2 ^ scale ≤
      double.steps (double.nearest (num * 2 ^ scale) den) := by
  obtain ⟨units, hunits⟩ := Interval.exists_low fits
  rw [hunits] at h ⊢
  rw [Nat.mul_assoc, ← Nat.pow_add]
  refine le_steps_nearest positive hfinite (by omega) ?_
  calc units * 2 ^ (k - 1 + scale) * den = units * 2 ^ (k - 1) * den * 2 ^ scale := by
        rw [Nat.pow_add]
        ring
    _ ≤ num * 2 ^ scale := Nat.mul_le_mul_right _ h

/-- The upper end of an interval is a number of 64 bits, so that what is below it is not rounded to
more. -/
theorem steps_nearest_le_high (fits : single.Fits m k) (positive : 0 < den)
    (hfinite : double.nearest (num * 2 ^ scale) den < double.infinity)
    (hplaces : double.doublings (num * 2 ^ scale / den) ≤ k + scale - 28)
    (h : num ≤ (Interval.around single (single.join m k)).high * den) :
    double.steps (double.nearest (num * 2 ^ scale) den) ≤
      (Interval.around single (single.join m k)).high * 2 ^ scale := by
  rw [Interval.high_eq fits] at h ⊢
  rw [Nat.mul_assoc, ← Nat.pow_add]
  refine steps_nearest_le positive hfinite (hplaces.trans (Nat.sub_le _ _)) ?_
  calc num * 2 ^ scale ≤ (2 * m + 1) * 2 ^ k * den * 2 ^ scale := Nat.mul_le_mul_right _ h
    _ = (2 * m + 1) * 2 ^ (k + scale) * den := by
        rw [Nat.pow_add]
        ring

/-- What lies in the interval of a number is rounded to that number by way of 64 bits, unless it is
very close to an odd number of half steps, doubled as often as the number is, at an end of the
interval. -/
theorem nearest_nearest (fits : single.Fits m k) (finite : single.join m k < single.infinity)
    (hscale : 28 ≤ scale) (hscale' : scale ≤ 1000) (positive : 0 < den)
    (h : (Interval.around single (single.join m k)).contains num den = true) :
    double.nearest (num * 2 ^ scale) den < double.infinity ∧
    (single.nearest (double.steps (double.nearest (num * 2 ^ scale) den)) (2 * 2 ^ scale) =
        single.join m k ∨
      m % 2 = 1 ∧ ∃ units, (units + 1 = 2 * m ∨ units = 2 * m + 1) ∧ num ≠ units * 2 ^ k * den ∧
        ((num : Int) - (units * 2 ^ k * den : Nat)).natAbs * 2 ^ 29 ≤ 2 ^ k * den) := by
  have hk := doublings_lt fits finite
  have hparity : single.join m k % 2 = m % 2 := by
    show (m + k * 2 ^ 23) % 2 = m % 2
    omega
  obtain ⟨hlow, hhigh, htie⟩ := Interval.contains_iff.1 h
  have hclosed : (Interval.around single (single.join m k)).closed = true ↔ m % 2 = 0 := by
    rw [← hparity]
    exact beq_iff_eq
  rw [hclosed] at htie
  have hplaces : double.doublings (num * 2 ^ scale / den) ≤ k + scale - 28 :=
    doublings_le fits positive (Interval.high_eq fits ▸ hhigh)
  have hfinite : double.nearest (num * 2 ^ scale) den < double.infinity :=
    nearest_lt_infinity_of_doublings (by omega)
  refine ⟨hfinite, ?_⟩
  have hbelow := low_le_steps_nearest fits positive hfinite hscale hplaces hlow
  have habove := steps_nearest_le_high fits positive hfinite hplaces hhigh
  rcases Nat.mod_two_eq_zero_or_one m with heven | hodd
  · exact .inl (nearest_of_between (by decide) finite.le (Nat.two_pow_pos scale) hbelow habove
      fun _ => hparity ▸ heven)
  by_cases hends : (Interval.around single (single.join m k)).low * 2 ^ scale =
        double.steps (double.nearest (num * 2 ^ scale) den) ∨
      double.steps (double.nearest (num * 2 ^ scale) den) =
        (Interval.around single (single.join m k)).high * 2 ^ scale
  · -- it was rounded to an end, where an odd number does not have it
    right
    refine ⟨hodd, ?_⟩
    rcases hends with hend | hend
    · rw [Interval.low_eq fits hodd] at hend htie
      refine ⟨2 * m - 1, .inl (by omega), fun heq => ?_,
        close_of_steps_nearest hscale positive hfinite hplaces hend.symm⟩
      have := htie (.inl heq.symm)
      omega
    · rw [Interval.high_eq fits] at hend htie
      refine ⟨2 * m + 1, .inr rfl, fun heq => ?_,
        close_of_steps_nearest hscale positive hfinite hplaces hend⟩
      have := htie (.inr heq)
      omega
  · exact .inl (nearest_of_between (by decide) finite.le (Nat.two_pow_pos scale) hbelow habove
      fun hend => absurd hend hends)

/-! ## The decimals that are written -/

/-- The points of a grid are as far apart as the power of ten says. -/
theorem gridStep_eq {F : Format} {power : Nat} {place : Int} (hplace : place = power - F.scale) :
    (gridStep F place).1 * 10 ^ F.scale =
      10 ^ power * 2 ^ (F.scale + 1) * (gridStep F place).2 := by
  have hpow : 10 ^ place.toNat * 10 ^ F.scale = 10 ^ power * 10 ^ (-place).toNat := by
    rw [← Nat.pow_add, ← Nat.pow_add]
    congr 1
    omega
  simp only [gridStep, Nat.shiftLeft_eq, Nat.pow_eq]
  rw [Nat.mul_right_comm, hpow, Nat.mul_right_comm]

/-- The point that is taken for an odd number is on a grid whose points are about two units apart or
more if it is close to an end of the interval, the units being the doubled half steps. -/
theorem Interval.Nearest.wide {digits units : Nat} (fits : single.Fits m k) (odd : m % 2 = 1)
    (positive : 0 < den) (h : (Interval.around single (single.join m k)).Nearest num den digits)
    (hunits : units + 1 = 2 * m ∨ units = 2 * m + 1)
    (close : Fraction.gap ⟨num, 2 ^ k * den⟩ ⟨units, digits⟩ * 2 ^ 29 ≤ 2 ^ k * den) :
    0 < digits ∧ Fraction.Wide ⟨num, 2 ^ k * den⟩ := by
  have hcentre : (Interval.around single (single.join m k)).centre * den =
      2 * (m * (2 ^ k * den)) := by
    show 2 * single.steps (single.join m k) * den = _
    rw [fits.steps_join, Nat.mul_assoc, Nat.mul_assoc]
  have hlow : (Interval.around single (single.join m k)).low * den + 2 ^ k * den =
      2 * (m * (2 ^ k * den)) := by
    have hunits : (2 * m - 1).succ = 2 * m := by omega
    rw [Interval.low_eq fits odd, Nat.mul_assoc, ← Nat.succ_mul, hunits, Nat.mul_assoc]
  have hhigh : (Interval.around single (single.join m k)).high * den =
      2 * (m * (2 ^ k * den)) + 2 ^ k * den := by
    rw [Interval.high_eq fits, Nat.mul_assoc, Nat.succ_mul, Nat.mul_assoc]
  have hunit : 0 < 2 ^ k * den := Nat.mul_pos (Nat.two_pow_pos k) positive
  have hend : units * (2 ^ k * den) + 2 ^ k * den = 2 * (m * (2 ^ k * den)) ∨
      units * (2 ^ k * den) = 2 * (m * (2 ^ k * den)) + 2 ^ k * den := by
    refine hunits.imp (fun h => ?_) fun h => ?_
    · rw [← Nat.succ_mul, Nat.succ_eq_add_one, h, Nat.mul_assoc]
    · rw [h, Nat.add_mul, Nat.mul_assoc, Nat.one_mul]
  have hone : 1 * (2 ^ k * den) ≤ m * (2 ^ k * den) := Nat.mul_le_mul_right _ (by omega)
  constructor
  · obtain ⟨hge, -, -⟩ := contains_iff.1 h.mem
    refine Nat.pos_of_ne_zero ?_
    rintro rfl
    omega
  · have hnear : digits * num ≤ units * (2 ^ k * den) +
          Fraction.gap ⟨num, 2 ^ k * den⟩ ⟨units, digits⟩ ∧
        units * (2 ^ k * den) ≤ digits * num +
          Fraction.gap ⟨num, 2 ^ k * den⟩ ⟨units, digits⟩ := by
      unfold Fraction.gap
      dsimp only
      omega
    have hspread := h.spread hunit (by rw [hlow, hcentre]) (by rw [hhigh, hcentre])
      (by omega : digits * num ≤ _ + Fraction.gap ⟨num, 2 ^ k * den⟩ ⟨units, digits⟩ ∨ _)
      (by omega)
    have hlower : 2 ^ 29 - 1 = 536870911 := by norm_num
    rw [Fraction.Wide, hlower]
    linarith only [hspread, close]

/-- The shortest decimal of a number comes close to an odd number of half steps at an end of its
interval for one number only. -/
theorem Interval.Nearest.eq_of_close {digits units power : Nat} {place : Int}
    (fits : single.Fits m k) (finite : single.join m k < single.infinity) (odd : m % 2 = 1)
    (hplace : place = power - single.scale)
    (h : (Interval.around single (single.join m k)).Nearest (gridStep single place).1
      (gridStep single place).2 digits)
    (hunits : units + 1 = 2 * m ∨ units = 2 * m + 1)
    (ne : digits * (gridStep single place).1 ≠ units * 2 ^ k * (gridStep single place).2)
    (close : ((digits * (gridStep single place).1 : Nat) -
      (units * 2 ^ k * (gridStep single place).2 : Nat) : Int).natAbs * 2 ^ 29 ≤
        2 ^ k * (gridStep single place).2) : single.join m k = 0x15ae43fd := by
  have hgrid := gridStep_eq hplace
  have hden := (gridStep_pos single place).2
  generalize (gridStep single place).1 = num at *
  generalize (gridStep single place).2 = den at *
  have hunit : 0 < 2 ^ k * den := Nat.mul_pos (Nat.two_pow_pos k) hden
  have hgap : Fraction.gap ⟨num, 2 ^ k * den⟩ ⟨units, digits⟩ = ((digits * num : Nat) -
      (units * 2 ^ k * den : Nat) : Int).natAbs := by
    unfold Fraction.gap
    push_cast
    rw [Int.mul_assoc]
  rw [← hgap] at close
  obtain ⟨hdigits, hwide⟩ := h.wide fits odd hden hunits close
  have hratio : num * (ratio power k).den = (ratio power k).num * (2 ^ k * den) := by
    show num * (10 ^ single.scale * 2 ^ k) = 10 ^ power * 2 ^ (single.scale + 1) * (2 ^ k * den)
    rw [← Nat.mul_assoc, hgrid]
    ring
  have hne : (ratio power k).gap ⟨units, digits⟩ ≠ 0 := by
    intro hzero
    have hsame := Fraction.gap_congr (r := ⟨num, 2 ^ k * den⟩) hratio ⟨units, digits⟩
    rw [hzero, hgap, Nat.zero_mul] at hsame
    refine ne (Int.ofNat.inj (Int.sub_eq_zero.1 (Int.natAbs_eq_zero.1 ?_)))
    exact (Nat.mul_eq_zero.1 hsame).resolve_right (den_ratio_pos power k).ne'
  have hm : m < 2 * 2 ^ 23 := fits.lt
  clear hgrid
  have hlimit : units < 2 ^ 25 := by clear hratio; omega
  have hparity : units % 2 = 1 := by clear hratio; omega
  obtain ⟨rfl, hone⟩ := Decimal.eq_of_close (doublings_lt fits finite) hparity hlimit hdigits
    (hwide.congr hratio hunit) (Fraction.close_congr hratio hunit close) hne
  clear hratio hne
  obtain rfl : m = 11420669 := by omega
  rfl

/-- A ratio that is equal to a decimal is read as the number of 64 bits nearest to that. -/
theorem nearestRatio_eq {digits : Nat} {place : Int} (positive : 0 < den)
    (hscale : double.scale = single.scale + 1 + scale)
    (h : num * 2 ^ (single.scale + 1) * (gridStep single place).2 =
      digits * (gridStep single place).1 * den) :
    double.nearestRatio num den =
      double.nearest (digits * (gridStep single place).1 * 2 ^ scale)
        (gridStep single place).2 := by
  obtain ⟨-, hpositive⟩ := gridStep_pos single place
  rw [nearestRatio, Nat.shiftLeft_eq, hscale, ← nearest_mul_mul _ _ _ hpositive, Nat.pow_add,
    ← nearest_mul_mul _ (digits * _ * _) _ positive, Nat.mul_comm den]
  refine congrArg (double.nearest · _) ?_
  rw [← Nat.mul_assoc, Nat.mul_right_comm, h, Nat.mul_right_comm]

/-- The shortest decimal of a positive number is read back by way of 64 bits, except for one. -/
theorem nearest_nearest_shortest (positive : 0 < bits) (finite : bits < single.infinity)
    (unexceptional : bits ≠ 0x15ae43fd) (hden : 0 < den)
    (h : num * 2 ^ (single.scale + 1) * (gridStep single (shortest single bits).place).2 =
      (shortest single bits).digits * (gridStep single (shortest single bits).place).1 * den) :
    double.nearestRatio num den < double.infinity ∧
    single.nearest (double.steps (double.nearestRatio num den))
      (2 ^ (double.scale - single.scale)) = bits := by
  obtain ⟨power, -, hplace, hnearest⟩ := shortest_spec positive
  obtain ⟨-, hpositive⟩ := gridStep_pos single (shortest single bits).place
  obtain ⟨scale, hscale, hlow, hhigh⟩ :
      ∃ scale, double.scale = single.scale + 1 + scale ∧ 28 ≤ scale ∧ scale ≤ 1000 :=
    ⟨924, by decide⟩
  rw [nearestRatio_eq hden hscale h, hscale, Nat.add_assoc, Nat.add_sub_cancel_left, Nat.add_comm 1,
    Nat.pow_succ']
  generalize (shortest single bits).place = place at *
  generalize (shortest single bits).digits = digits at *
  obtain ⟨m, k, fits, rfl⟩ := single.exists_join bits
  obtain ⟨hfinite, hback | ⟨odd, units, hunits, ne, close⟩⟩ :=
    nearest_nearest fits finite hlow hhigh hpositive hnearest.mem
  · exact ⟨hfinite, hback⟩
  · exact absurd (hnearest.eq_of_close fits finite odd hplace hunits ne close) unexceptional

end Dataflow.Decimal
