import Dataflow.Proofs.Config.Throttle

/-!
# Accumulated time that leaves the finite numbers

Accumulated time stays finite as long as no exact sum comes to the limit below zero, nor, where time
is carried over, to the limit above (`Config.isFinite_elapse_iff`). Once it is not finite it never
is again (`Config.Stuck.advance`): then either no delta makes an evaluation due any more or all
finite ones do, while a throttle with finite time can be brought to do either
(`Config.responds_iff`).
-/

namespace Dataflow.Config

open Binary.Single

/-- With the delta the exact time is above the limit below zero and, where time is carried over,
below the limit above. A delta that is not finite does not count. -/
def WithinLimits (c : Config) (accumulated delta : Float32) : Prop :=
  delta.isFinite → -limit < value accumulated + value delta ∧
    (c.Carries → value accumulated + value delta < limit)

/-- The accumulated time is not finite and will not be. -/
def Stuck (c : Config) (accumulated : Float32) : Prop :=
  ¬ accumulated.isFinite ∧ (accumulated < 0 ∨ c.Carries)

/-- Some finite deltas make an evaluation due, and with some one has to wait. -/
structure Responds (c : Config) (accumulated : Float32) : Prop where
  fires : ∃ deltas, (∀ delta ∈ deltas, delta.isFinite) ∧ 0 < c.firings accumulated deltas
  waits : ∃ deltas, (∀ delta ∈ deltas, delta.isFinite) ∧
    c.firings accumulated deltas < deltas.length

variable {c : Config} {accumulated delta : Float32} {deltas : List Float32}

/-! ## One delta -/

/-- Time below zero is below the interval. -/
theorem lt_interval_of_lt_zero {total : Float32} (h : total < 0) : total < c.interval :=
  lt_of_lt_of_not_lt h c.interval_nonneg.2 not_isNaN_zero c.interval_nonneg.1

/-- Time below the interval but not below zero is finite. -/
theorem isFinite_of_lt_interval {total : Float32} (nonneg : ¬ total < 0)
    (h : total < c.interval) : total.isFinite := by
  by_contra hfinite
  exact not_lt_of_not_isFinite hfinite nonneg _ h

/-- The interval that time has reached is finite if the time is. -/
theorem isFinite_interval {total : Float32} (h : total.isFinite) (hdue : ¬ total < c.interval) :
    c.interval.isFinite :=
  isFinite_of_not_lt h c.interval_nonneg.1 c.interval_nonneg.2 hdue

/-- What is left of finite time is finite. -/
theorem isFinite_leftover {total : Float32} (h : total.isFinite) (hdue : ¬ total < c.interval) :
    (c.leftover total).isFinite := by
  by_cases hcarries : c.Carries
  · have hinterval := isFinite_interval h hdue
    have hle := lt_iff_value_lt (not_isNaN_of_isFinite h) c.interval_nonneg.1 |>.not.1 hdue
    have hnonneg := c.value_interval_nonneg
    have hlimit := abs_lt.1 (abs_value_lt_limit h)
    rw [leftover_of_carries hcarries, isFinite_sub_iff h hinterval, abs_lt]
    constructor <;> linarith
  · rw [leftover_of_not_carries hcarries]
    decide

/-- Within the limits finite time stays finite. -/
theorem WithinLimits.isFinite (h : c.WithinLimits accumulated delta)
    (hfinite : accumulated.isFinite) : (c.advance accumulated delta).2.isFinite := by
  cases hdue : (c.advance accumulated delta).1 with
  | false =>
      rcases of_advance_eq_false hdue with ⟨-, hnext⟩ | ⟨hdelta, hlt, hnext⟩
      · rwa [hnext]
      · rw [hnext]
        by_cases hneg : accumulated + delta < 0
        · have hbelow := (add_lt_zero_iff hfinite hdelta).1 hneg
          rw [isFinite_add_iff hfinite hdelta, abs_lt]
          exact ⟨(h hdelta).1, hbelow.trans limit_pos⟩
        · exact isFinite_of_lt_interval hneg hlt
  | true =>
      obtain ⟨hdelta, hreached, hnext⟩ := of_advance_eq_true hdue
      rw [hnext]
      by_cases hcarries : c.Carries
      · refine isFinite_leftover ?_ hreached
        rw [isFinite_add_iff hfinite hdelta, abs_lt]
        exact ⟨(h hdelta).1, (h hdelta).2 hcarries⟩
      · rw [leftover_of_not_carries hcarries]
        decide

/-- Time that comes to the limit below zero is waited for, and is not finite for good. -/
theorem stuck_of_le_neg_limit (hfinite : accumulated.isFinite) (hdelta : delta.isFinite)
    (h : value accumulated + value delta ≤ -limit) : c.Stuck (c.advance accumulated delta).2 := by
  have hlimit := limit_pos
  have hneg : accumulated + delta < 0 := (add_lt_zero_iff hfinite hdelta).2 (by linarith)
  rw [advance_of_lt hdelta (lt_interval_of_lt_zero hneg)]
  refine ⟨?_, .inl hneg⟩
  rw [isFinite_add_iff hfinite hdelta, abs_lt]
  exact fun hbounds => absurd h (not_le.2 hbounds.1)

/-- Time that is carried over and comes to the limit above is not finite for good. -/
theorem stuck_of_limit_le (hfinite : accumulated.isFinite) (hdelta : delta.isFinite)
    (hcarries : c.Carries) (h : limit ≤ value accumulated + value delta) :
    c.Stuck (c.advance accumulated delta).2 := by
  have hlimit := limit_pos
  have hnonneg : ¬ accumulated + delta < 0 := by
    rw [add_lt_zero_iff hfinite hdelta]
    linarith
  have hsum : ¬ (accumulated + delta).isFinite := by
    rw [isFinite_add_iff hfinite hdelta, abs_lt]
    exact fun hbounds => absurd h (not_le.2 hbounds.2)
  rw [advance_of_not_lt hdelta (not_lt_of_not_isFinite hsum hnonneg _),
    leftover_of_carries hcarries]
  exact ⟨(sub_above hsum hnonneg c.interval_nonneg.2).1, .inr hcarries⟩

/-- Beyond the limits time is not finite for good. -/
theorem stuck_of_not_withinLimits (h : ¬ c.WithinLimits accumulated delta)
    (hfinite : accumulated.isFinite) : c.Stuck (c.advance accumulated delta).2 := by
  rw [WithinLimits, Classical.not_imp, not_and_or, Classical.not_imp, not_lt, not_lt] at h
  obtain ⟨hdelta, hbelow | ⟨hcarries, habove⟩⟩ := h
  · exact stuck_of_le_neg_limit hfinite hdelta hbelow
  · exact stuck_of_limit_le hfinite hdelta hcarries habove

/-- Time that is not finite stays so, on the same side. If it is below zero no delta makes an
evaluation due, and otherwise every finite one does. -/
theorem Stuck.advance (h : c.Stuck accumulated) (delta : Float32) :
    c.Stuck (c.advance accumulated delta).2 ∧
      ((c.advance accumulated delta).2 < 0 ↔ accumulated < 0) ∧
      ((c.advance accumulated delta).1 = true ↔ delta.isFinite ∧ ¬ accumulated < 0) := by
  by_cases hdelta : delta.isFinite
  · by_cases hneg : accumulated < 0
    · obtain ⟨hfinite', hneg'⟩ := add_below h.1 hneg hdelta
      rw [advance_of_lt hdelta (lt_interval_of_lt_zero hneg')]
      exact ⟨⟨hfinite', .inl hneg'⟩, iff_of_true hneg' hneg,
        iff_of_false Bool.false_ne_true fun hdue => hdue.2 hneg⟩
    · have hcarries : c.Carries := h.2.resolve_left hneg
      obtain ⟨hfinite', hnonneg'⟩ := add_above h.1 hneg hdelta
      obtain ⟨hfinite'', hnonneg''⟩ := sub_above hfinite' hnonneg' c.interval_nonneg.2
      rw [advance_of_not_lt hdelta (not_lt_of_not_isFinite hfinite' hnonneg' _),
        leftover_of_carries hcarries]
      exact ⟨⟨hfinite'', .inr hcarries⟩, iff_of_false hnonneg'' hneg,
        iff_of_true rfl ⟨hdelta, hneg⟩⟩
  · rw [advance_of_not_isFinite hdelta]
    exact ⟨h, Iff.rfl, iff_of_false Bool.false_ne_true fun hdue => hdelta hdue.1⟩

/-! ## Deltas one after another -/

/-- Time that is not finite stays so. -/
theorem Stuck.elapse (h : c.Stuck accumulated) (deltas : List Float32) :
    c.Stuck (c.elapse accumulated deltas) :=
  elapse_invariant (c.Stuck ·) h fun _ delta _ hstuck => (hstuck.advance delta).1

/-- Finite time stays finite as long as it is within the limits, and once it is beyond them it is
not finite for good. -/
theorem isFinite_elapse_iff (h : accumulated.isFinite) (deltas : List Float32) :
    ((c.elapse accumulated deltas).isFinite ↔ c.Throughout c.WithinLimits accumulated deltas) ∧
      ((c.elapse accumulated deltas).isFinite ∨ c.Stuck (c.elapse accumulated deltas)) := by
  induction deltas generalizing accumulated with
  | nil => exact ⟨iff_of_true h trivial, .inl h⟩
  | cons delta rest ih =>
      by_cases hwithin : c.WithinLimits accumulated delta
      · obtain ⟨hiff, hcases⟩ := ih (hwithin.isFinite h)
        exact ⟨hiff.trans (and_iff_right hwithin).symm, hcases⟩
      · have hstuck := (stuck_of_not_withinLimits hwithin h).elapse rest
        exact ⟨iff_of_false hstuck.1 fun hthroughout => hwithin hthroughout.1, .inr hstuck⟩

/-- Where time is not carried over, it stays within the limits as long as no delta is below zero. -/
theorem withinLimits_of_nonneg (h : ¬ c.Carries) (hfinite : accumulated.isFinite)
    (hstart : ¬ accumulated < 0) (nonneg : ∀ delta ∈ deltas, ¬ delta < 0) :
    c.Throughout c.WithinLimits accumulated deltas := by
  induction deltas generalizing accumulated with
  | nil => trivial
  | cons delta rest ih =>
      obtain ⟨hfirst, hrest⟩ := List.forall_mem_cons.1 nonneg
      have htotal (hdelta : delta.isFinite) : 0 ≤ value accumulated + value delta := by
        rw [lt_zero_iff (not_isNaN_of_isFinite hfinite)] at hstart
        rw [lt_zero_iff (not_isNaN_of_isFinite hdelta)] at hfirst
        linarith
      have hwithin : c.WithinLimits accumulated delta := fun hdelta =>
        ⟨(neg_lt_zero.2 limit_pos).trans_le (htotal hdelta), fun hcarries => absurd hcarries h⟩
      refine ⟨hwithin, ih (hwithin.isFinite hfinite) ?_ hrest⟩
      cases hdue : (c.advance accumulated delta).1 with
      | false =>
          rcases of_advance_eq_false hdue with ⟨-, hnext⟩ | ⟨hdelta, -, hnext⟩
          · rwa [hnext]
          · rw [hnext, add_lt_zero_iff hfinite hdelta]
            exact not_lt.2 (htotal hdelta)
      | true =>
          rw [(of_advance_eq_true hdue).2.2, leftover_of_not_carries h]
          decide

/-- Once time is not finite, no delta makes an evaluation due or all of them do. -/
theorem Stuck.firings_eq (h : c.Stuck accumulated) (hdeltas : ∀ delta ∈ deltas, delta.isFinite) :
    c.firings accumulated deltas = if accumulated < 0 then 0 else deltas.length := by
  induction deltas generalizing accumulated with
  | nil => exact (ite_self 0).symm
  | cons delta rest ih =>
      obtain ⟨hnext, hside, hdue⟩ := h.advance delta
      obtain ⟨hdelta, hrest⟩ := List.forall_mem_cons.1 hdeltas
      rw [firings, ih hnext hrest, if_congr hside rfl rfl]
      by_cases hneg : accumulated < 0
      · have hfalse : (c.advance accumulated delta).1 = false :=
          Bool.eq_false_iff.2 fun htrue => (hdue.1 htrue).2 hneg
        rw [if_pos hneg, if_pos hneg, hfalse]
        rfl
      · rw [if_neg hneg, if_neg hneg, hdue.2 ⟨hdelta, hneg⟩]
        exact Nat.add_comm _ _

/-! ## Throttles that respond -/

/-- Where no delta makes an evaluation due, time accumulates below the interval. -/
theorem waits_of_firings_eq_zero (hdelta : delta.isFinite)
    (h : c.firings accumulated (delta :: deltas) = 0) :
    accumulated + delta < c.interval ∧ c.firings (accumulated + delta) deltas = 0 := by
  by_cases hdue : accumulated + delta < c.interval
  · exact ⟨hdue, firings_of_lt hdelta hdue deltas ▸ h⟩
  · rw [firings_of_not_lt hdelta hdue] at h
    cases h

/-- Where every delta makes an evaluation due, time is never below the interval. -/
theorem fires_of_length_le_firings (hdelta : delta.isFinite)
    (h : (delta :: deltas).length ≤ c.firings accumulated (delta :: deltas)) :
    ¬ accumulated + delta < c.interval ∧
      deltas.length ≤ c.firings (c.leftover (accumulated + delta)) deltas := by
  rw [List.length_cons] at h
  by_cases hdue : accumulated + delta < c.interval
  · rw [firings_of_lt hdelta hdue] at h
    exact absurd (c.firings_le_length _ deltas) (Nat.not_le.2 h)
  · rw [firings_of_not_lt hdelta hdue] at h
    exact ⟨hdue, Nat.le_of_succ_le_succ h⟩

/-- Finite time can be brought to make an evaluation due, and to wait. -/
theorem responds_of_isFinite (h : accumulated.isFinite) : c.Responds accumulated := by
  have hgreatest : greatest.isFinite := by decide
  have hleast : least.isFinite := by decide
  obtain ⟨hvalue, hvalue'⟩ := value_greatest
  have habs := abs_le.1 (abs_value_le_greatest h)
  constructor
  · refine ⟨[greatest, greatest, greatest], by simp [hgreatest], Nat.pos_of_ne_zero fun hzero => ?_⟩
    -- time is at least zero, then at least the greatest number, and then out of range
    obtain ⟨hfirst, hzero⟩ := waits_of_firings_eq_zero hgreatest hzero
    have hnonneg : ¬ accumulated + greatest < 0 := by
      rw [add_lt_zero_iff h hgreatest]
      linarith
    have hfinite := isFinite_of_lt_interval hnonneg hfirst
    rw [lt_zero_iff (not_isNaN_of_isFinite hfinite), not_lt] at hnonneg
    obtain ⟨hsecond, hzero⟩ := waits_of_firings_eq_zero hgreatest hzero
    have hlarge : ¬ accumulated + greatest + greatest < greatest :=
      not_add_lt hfinite hgreatest (by decide) (by linarith)
    have hnonneg' : ¬ accumulated + greatest + greatest < 0 := by
      rw [add_lt_zero_iff hfinite hgreatest, hvalue]
      linarith
    have hfinite' := isFinite_of_lt_interval hnonneg' hsecond
    rw [lt_iff_value_lt (not_isNaN_of_isFinite hfinite') (by decide), not_lt] at hlarge
    obtain ⟨hthird, -⟩ := waits_of_firings_eq_zero hgreatest hzero
    refine not_lt_of_not_isFinite ?_ ?_ _ hthird
    · rw [isFinite_add_iff hfinite' hgreatest, abs_lt, not_and_or]
      right
      rw [hvalue] at hlarge ⊢
      norm_num [limit] at hlarge ⊢
      linarith
    · rw [add_lt_zero_iff hfinite' hgreatest]
      rw [hvalue] at hlarge ⊢
      linarith
  · refine ⟨[least, least], by simp [hleast], not_le.1 fun hle => ?_⟩
    -- time is at most zero, so nothing is carried over, and then it is below zero
    obtain ⟨hfirst, hle⟩ := fires_of_length_le_firings hleast hle
    have hnonpos : ¬ 0 < accumulated + least := by
      refine not_lt_add h hleast not_isNaN_zero ?_
      rw [value_zero]
      linarith
    have hcarries : ¬ c.Carries := fun hcarries =>
      hnonpos (lt_of_lt_of_not_lt hcarries.2 hfirst c.interval_nonneg.1 (not_isNaN_add h hleast))
    rw [leftover_of_not_carries hcarries] at hle
    obtain ⟨hsecond, -⟩ := fires_of_length_le_firings hleast hle
    refine hsecond (lt_interval_of_lt_zero ?_)
    decide

/-- Time that is finite, or not for good, is finite if the throttle responds. -/
theorem responds_iff (h : accumulated.isFinite ∨ c.Stuck accumulated) :
    c.Responds accumulated ↔ accumulated.isFinite := by
  refine ⟨fun hresponds => h.resolve_right fun hstuck => ?_, responds_of_isFinite⟩
  obtain ⟨⟨firing, hfiring, hpos⟩, ⟨waiting, hwaiting, hlt⟩⟩ := hresponds
  rw [hstuck.firings_eq hfiring] at hpos
  rw [hstuck.firings_eq hwaiting] at hlt
  split at hpos
  · exact Nat.lt_irrefl 0 hpos
  · rename_i hneg
    rw [if_neg hneg] at hlt
    exact Nat.lt_irrefl _ hlt

end Dataflow.Config
