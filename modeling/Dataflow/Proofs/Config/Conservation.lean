import Mathlib.Data.Rat.Floor
import Dataflow.Proofs.Config.Throttle

/-!
# Where the time goes

As long as no sum and no difference is rounded (`Config.AdvancesExactly`), time that is carried over
is neither lost nor gained: it is accumulated or was spent on evaluations, one interval for each
(`Config.Carries.elapse`). Where time is dropped, each evaluation costs an interval at least
(`Config.elapse_drops`), so that dropping never outpaces carrying over (`Config.firings_le`).
-/

namespace Dataflow

open Binary.Single

/-- The time that passes with a delta. One that is not finite does not count. -/
def timeOf (delta : Float32) : ℚ :=
  if delta.isFinite then value delta else 0

/-- The time that passes with deltas, one after another. -/
def timePassed (deltas : List Float32) : ℚ :=
  (deltas.map timeOf).sum

/-- No time passes without a delta. -/
@[simp] theorem timePassed_nil : timePassed [] = 0 := rfl

/-- The time of the first delta passes first. -/
@[simp] theorem timePassed_cons (delta : Float32) (rest : List Float32) :
    timePassed (delta :: rest) = timeOf delta + timePassed rest :=
  List.sum_cons

/-- No time passes backwards unless a delta is below zero. -/
theorem timeOf_nonneg {delta : Float32} (h : ¬ delta < 0) : 0 ≤ timeOf delta := by
  unfold timeOf
  split
  · rename_i hfinite
    rw [lt_zero_iff (not_isNaN_of_isFinite hfinite)] at h
    exact not_lt.1 h
  · exact le_rfl

namespace Config

/-- Neither the sum nor the difference that a delta asks for is rounded. -/
structure AdvancesExactly (c : Config) (accumulated delta : Float32) : Prop where
  sum : delta.isFinite → IsExactly (accumulated + delta) (value accumulated + value delta)
  difference : delta.isFinite → c.Carries → ¬ accumulated + delta < c.interval →
    IsExactly (accumulated + delta - c.interval)
      (value accumulated + value delta - value c.interval)

/-- What is not rounded is decided by counting steps. -/
instance (c : Config) (accumulated delta : Float32) :
    Decidable (c.AdvancesExactly accumulated delta) :=
  decidable_of_iff
    ((delta.isFinite → (accumulated + delta).isFinite ∧
        signedSteps (accumulated + delta) = signedSteps accumulated + signedSteps delta) ∧
      (delta.isFinite → c.Carries → ¬ accumulated + delta < c.interval →
        (accumulated + delta - c.interval).isFinite ∧
          signedSteps (accumulated + delta - c.interval) =
            signedSteps accumulated + signedSteps delta - signedSteps c.interval)) <| by
    rw [← isExactly_ofSteps_iff, ← isExactly_ofSteps_iff, ofSteps_sub, ofSteps_add]
    exact ⟨fun h => ⟨h.1, h.2⟩, fun h => ⟨h.sum, h.difference⟩⟩

variable {c c' : Config} {accumulated accumulated' delta : Float32} {deltas : List Float32}

/-! ## One delta -/

/-- A delta that makes no evaluation due adds its time, which stays below the interval unless the
delta is ignored. -/
theorem AdvancesExactly.waits (h : c.AdvancesExactly accumulated delta)
    (hdue : (c.advance accumulated delta).1 = false) :
    value (c.advance accumulated delta).2 = value accumulated + timeOf delta ∧
      (delta.isFinite → value accumulated + timeOf delta < value c.interval) := by
  unfold timeOf
  rcases of_advance_eq_false hdue with ⟨hdelta, hnext⟩ | ⟨hdelta, hlt, hnext⟩
  · rw [hnext, if_neg hdelta, add_zero]
    exact ⟨rfl, fun hfinite => absurd hfinite hdelta⟩
  · obtain ⟨hfinite, hvalue⟩ := h.sum hdelta
    rw [lt_iff_value_lt (not_isNaN_of_isFinite hfinite) c.interval_nonneg.1, hvalue] at hlt
    rw [hnext, if_pos hdelta]
    exact ⟨hvalue, fun _ => hlt⟩

/-- A finite delta makes an evaluation due when there is time for one. Then an interval is taken
from the time, or all of it is dropped. -/
theorem AdvancesExactly.fires (h : c.AdvancesExactly accumulated delta)
    (hdue : (c.advance accumulated delta).1 = true) :
    delta.isFinite ∧ value c.interval ≤ value accumulated + timeOf delta ∧
      (c.Carries → value (c.advance accumulated delta).2 =
        value accumulated + timeOf delta - value c.interval) ∧
      (¬ c.Carries → value (c.advance accumulated delta).2 = 0) := by
  obtain ⟨hdelta, hlt, hnext⟩ := of_advance_eq_true hdue
  obtain ⟨hfinite, hvalue⟩ := h.sum hdelta
  rw [hnext, timeOf, if_pos hdelta]
  refine ⟨hdelta, ?_, fun hcarries => ?_, fun hcarries => ?_⟩
  · rw [lt_iff_value_lt (not_isNaN_of_isFinite hfinite) c.interval_nonneg.1, hvalue] at hlt
    exact not_lt.1 hlt
  · rw [leftover_of_carries hcarries]
    exact (h.difference hdelta hcarries hlt).value_eq
  · rw [leftover_of_not_carries hcarries]
    exact value_zero

/-- Time that is not rounded stays finite. -/
theorem AdvancesExactly.isFinite (h : c.AdvancesExactly accumulated delta)
    (hfinite : accumulated.isFinite) : (c.advance accumulated delta).2.isFinite := by
  cases hdue : (c.advance accumulated delta).1 with
  | false =>
      rcases of_advance_eq_false hdue with ⟨-, hnext⟩ | ⟨hdelta, -, hnext⟩
      · rw [hnext]
        exact hfinite
      · rw [hnext]
        exact (h.sum hdelta).isFinite
  | true =>
      obtain ⟨hdelta, hlt, hnext⟩ := of_advance_eq_true hdue
      rw [hnext]
      by_cases hcarries : c.Carries
      · rw [leftover_of_carries hcarries]
        exact (h.difference hdelta hcarries hlt).isFinite
      · rw [leftover_of_not_carries hcarries]
        decide

/-- Time that is carried over is accumulated, or an interval of it is spent on an evaluation. -/
theorem AdvancesExactly.spends (h : c.AdvancesExactly accumulated delta) (hcarries : c.Carries) :
    value accumulated + timeOf delta = value c.interval * (c.advance accumulated delta).1.toNat +
      value (c.advance accumulated delta).2 := by
  cases hdue : (c.advance accumulated delta).1 with
  | false =>
      obtain ⟨hvalue, -⟩ := h.waits hdue
      rw [hvalue, Bool.toNat_false, Nat.cast_zero, mul_zero, zero_add]
  | true =>
      obtain ⟨-, -, hvalue, -⟩ := h.fires hdue
      rw [hvalue hcarries, Bool.toNat_true, Nat.cast_one, mul_one, add_sub_cancel]

/-- Where time is dropped, an evaluation costs an interval at least. -/
theorem AdvancesExactly.drops (h : c.AdvancesExactly accumulated delta) (hdrops : ¬ c.Carries) :
    value c.interval * (c.advance accumulated delta).1.toNat +
      value (c.advance accumulated delta).2 ≤ value accumulated + timeOf delta := by
  cases hdue : (c.advance accumulated delta).1 with
  | false =>
      obtain ⟨hvalue, -⟩ := h.waits hdue
      rw [hvalue, Bool.toNat_false, Nat.cast_zero, mul_zero, zero_add]
  | true =>
      obtain ⟨-, hle, -, hvalue⟩ := h.fires hdue
      rwa [hvalue hdrops, Bool.toNat_true, Nat.cast_one, mul_one, add_zero]

/-- Time that is carried over is not below zero unless the delta is. -/
theorem AdvancesExactly.nonneg (h : c.AdvancesExactly accumulated delta) (hcarries : c.Carries)
    (hdelta : ¬ delta < 0) (hstart : 0 ≤ value accumulated) :
    0 ≤ value (c.advance accumulated delta).2 := by
  cases hdue : (c.advance accumulated delta).1 with
  | false =>
      have htime := timeOf_nonneg hdelta
      rw [(h.waits hdue).1]
      linarith
  | true =>
      obtain ⟨-, hle, hvalue, -⟩ := h.fires hdue
      rw [hvalue hcarries]
      linarith

/-- Time that is carried over stays below the interval unless the delta is above it. -/
theorem AdvancesExactly.lt_interval (h : c.AdvancesExactly accumulated delta)
    (hcarries : c.Carries) (hdelta : ¬ c.interval < delta)
    (hstart : value accumulated < value c.interval) :
    value (c.advance accumulated delta).2 < value c.interval := by
  cases hdue : (c.advance accumulated delta).1 with
  | false =>
      obtain ⟨hvalue, hbelow⟩ := h.waits hdue
      rw [hvalue]
      by_cases hfinite : delta.isFinite
      · exact hbelow hfinite
      · rwa [timeOf, if_neg hfinite, add_zero]
  | true =>
      obtain ⟨hfinite, -, hvalue, -⟩ := h.fires hdue
      rw [lt_iff_value_lt c.interval_nonneg.1 (not_isNaN_of_isFinite hfinite)] at hdelta
      rw [hvalue hcarries, timeOf, if_pos hfinite]
      linarith

/-- Where time is dropped, a delta leaves it below the interval. -/
theorem advance_lt (h : ¬ c.Carries) (positive : 0 < c.interval)
    (hstart : accumulated < c.interval) (delta : Float32) :
    (c.advance accumulated delta).2 < c.interval := by
  cases hdue : (c.advance accumulated delta).1 with
  | false =>
      rcases of_advance_eq_false hdue with ⟨-, hnext⟩ | ⟨-, hlt, hnext⟩
      · rwa [hnext]
      · rwa [hnext]
  | true =>
      obtain ⟨-, -, hnext⟩ := of_advance_eq_true hdue
      rwa [hnext, leftover_of_not_carries h]

/-- A throttle that carries time over stays ahead of one with the same interval that drops it: by
`ahead` evaluations, which make up for the time that it lacks. -/
theorem exists_ahead (h : ¬ c.Carries) (h' : c'.Carries) (hinterval : c'.interval = c.interval)
    (hexact : c.AdvancesExactly accumulated delta)
    (hexact' : c'.AdvancesExactly accumulated' delta) {ahead : Nat}
    (hahead : value accumulated ≤ value accumulated' + value c.interval * ahead) :
    ∃ ahead' : Nat, (c.advance accumulated delta).1.toNat + ahead' =
        (c'.advance accumulated' delta).1.toNat + ahead ∧
      value (c.advance accumulated delta).2 ≤
        value (c'.advance accumulated' delta).2 + value c.interval * ahead' := by
  have hdrops := hexact.drops h
  have hspends := hexact'.spends h'
  rw [hinterval] at hspends
  cases hdue : (c.advance accumulated delta).1 with
  | false =>
      -- the one that carries over gets ahead, if it evaluates
      rw [hdue, Bool.toNat_false, Nat.cast_zero, mul_zero, zero_add] at hdrops
      refine ⟨(c'.advance accumulated' delta).1.toNat + ahead, Nat.zero_add _, ?_⟩
      rw [Nat.cast_add, mul_add]
      linarith
  | true =>
      obtain ⟨hdelta, hle, -, hvalue⟩ := hexact.fires hdue
      have hdropped := hvalue h
      cases hdue' : (c'.advance accumulated' delta).1 with
      | false =>
          -- the one that carries over has less time than the other, so it is ahead already
          obtain ⟨hvalue', hbelow⟩ := hexact'.waits hdue'
          have hlacks := hbelow hdelta
          rw [hinterval] at hlacks
          cases ahead with
          | zero =>
              rw [Nat.cast_zero, mul_zero] at hahead
              linarith
          | succ ahead =>
              rw [Nat.cast_add, Nat.cast_one, mul_add, mul_one] at hahead
              exact ⟨ahead, by rw [Bool.toNat_true, Bool.toNat_false, Nat.zero_add, Nat.add_comm],
                by linarith⟩
      | true =>
          obtain ⟨-, hle', hvalue', -⟩ := hexact'.fires hdue'
          have hcredit : 0 ≤ value c.interval * ahead :=
            mul_nonneg c.value_interval_nonneg (Nat.cast_nonneg ahead)
          rw [hinterval] at hle' hvalue'
          exact ⟨ahead, rfl, by rw [hdropped, hvalue' h']; linarith⟩

/-! ## Deltas one after another -/

/-- Time that is never rounded stays finite. -/
theorem isFinite_elapse (hfinite : accumulated.isFinite)
    (hexact : c.Throughout c.AdvancesExactly accumulated deltas) :
    (c.elapse accumulated deltas).isFinite :=
  hexact.invariant (·.isFinite) hfinite fun _ _ _ hdelta => hdelta.isFinite

/-- Time that is carried over is accumulated or was spent on evaluations, one interval for each. -/
theorem Carries.elapse (h : c.Carries)
    (hexact : c.Throughout c.AdvancesExactly accumulated deltas) :
    value accumulated + timePassed deltas =
      value c.interval * c.firings accumulated deltas + value (c.elapse accumulated deltas) := by
  induction deltas generalizing accumulated with
  | nil => simp [firings, Config.elapse]
  | cons delta rest ih =>
      have hfirst := hexact.1.spends h
      have hrest := ih hexact.2
      rw [timePassed_cons, firings_cons, elapse_cons, Nat.cast_add, mul_add]
      linarith

/-- Time that is carried over is not below zero unless a delta is. -/
theorem Carries.elapse_nonneg (h : c.Carries)
    (hexact : c.Throughout c.AdvancesExactly accumulated deltas)
    (hstart : 0 ≤ value accumulated) (nonneg : ∀ delta ∈ deltas, ¬ delta < 0) :
    0 ≤ value (c.elapse accumulated deltas) :=
  hexact.invariant (0 ≤ value ·) hstart fun _ delta hdelta hexact =>
    hexact.nonneg h (nonneg delta hdelta)

/-- Time that is carried over stays below the interval as long as no delta is above it. -/
theorem Carries.elapse_lt (h : c.Carries)
    (hexact : c.Throughout c.AdvancesExactly accumulated deltas)
    (hstart : value accumulated < value c.interval) (hle : ∀ delta ∈ deltas, ¬ c.interval < delta) :
    value (c.elapse accumulated deltas) < value c.interval :=
  hexact.invariant (value · < value c.interval) hstart fun _ delta hdelta hexact =>
    hexact.lt_interval h (hle delta hdelta)

/-- As long as no delta is below zero or above the interval, the deltas that make an evaluation due
are as many as whole intervals have passed. -/
theorem Carries.firings_eq_floor (h : c.Carries)
    (hexact : c.Throughout c.AdvancesExactly accumulated deltas)
    (hstart : 0 ≤ value accumulated) (hstart' : value accumulated < value c.interval)
    (nonneg : ∀ delta ∈ deltas, ¬ delta < 0) (hle : ∀ delta ∈ deltas, ¬ c.interval < delta) :
    c.firings accumulated deltas =
      ⌊(value accumulated + timePassed deltas) / value c.interval⌋₊ := by
  have hpositive : 0 < value c.interval := hstart.trans_lt hstart'
  have hrest := h.elapse_nonneg hexact hstart nonneg
  have hrest' := h.elapse_lt hexact hstart' hle
  have hwhole : (0 : ℚ) ≤ c.firings accumulated deltas := Nat.cast_nonneg _
  symm
  rw [h.elapse hexact, Nat.floor_eq_iff (by positivity), le_div_iff₀ hpositive,
    div_lt_iff₀ hpositive, add_mul, one_mul, mul_comm]
  constructor <;> linarith

/-- Where time is dropped, each evaluation costs an interval at least. -/
theorem elapse_drops (h : ¬ c.Carries)
    (hexact : c.Throughout c.AdvancesExactly accumulated deltas) :
    value c.interval * c.firings accumulated deltas + value (c.elapse accumulated deltas) ≤
      value accumulated + timePassed deltas := by
  induction deltas generalizing accumulated with
  | nil => simp [firings, Config.elapse]
  | cons delta rest ih =>
      have hfirst := hexact.1.drops h
      have hrest := ih hexact.2
      rw [timePassed_cons, firings_cons, elapse_cons, Nat.cast_add, mul_add]
      linarith

/-- Where time is dropped, nothing is left of it once an evaluation is due. -/
theorem elapse_of_fires (h : ¬ c.Carries) {before : List Float32}
    (hdue : (c.advance (c.elapse accumulated before) delta).1 = true) :
    c.elapse accumulated (before ++ [delta]) = 0 := by
  rw [elapse_append]
  show (c.advance (c.elapse accumulated before) delta).2 = 0
  obtain ⟨-, -, hnext⟩ := of_advance_eq_true hdue
  rw [hnext, leftover_of_not_carries h]

/-- Where time is dropped, an interval at least passes from one delta that makes an evaluation due
to the next. -/
theorem interval_le_between (h : ¬ c.Carries) {before between : List Float32} {delta' : Float32}
    (hexact : c.Throughout c.AdvancesExactly accumulated (before ++ delta :: (between ++ [delta'])))
    (hdue : (c.advance (c.elapse accumulated before) delta).1 = true)
    (hdue' : (c.advance (c.elapse accumulated (before ++ delta :: between)) delta').1 = true) :
    value c.interval * (c.firings (c.elapse accumulated (before ++ [delta])) between + 1) ≤
      timePassed (between ++ [delta']) := by
  have hsplit (rest : List Float32) : before ++ delta :: rest = before ++ [delta] ++ rest := by simp
  rw [hsplit] at hexact
  rw [hsplit, elapse_append] at hdue'
  have hspent := elapse_drops h hexact.append_right
  have hlast :
      c.firings (c.elapse (c.elapse accumulated (before ++ [delta])) between) [delta'] = 1 := by
    rw [firings, hdue']
    rfl
  rw [firings_append, hlast, elapse_of_fires h hdue'] at hspent
  rw [elapse_of_fires h hdue] at hspent ⊢
  rw [value_zero, Nat.cast_add, Nat.cast_one] at hspent
  linarith

/-- Where time is dropped, it stays below the interval. -/
theorem elapse_lt (h : ¬ c.Carries) (positive : 0 < c.interval)
    (hstart : accumulated < c.interval) (deltas : List Float32) :
    c.elapse accumulated deltas < c.interval :=
  elapse_invariant (· < c.interval) hstart fun _ delta _ hstart =>
    advance_lt h positive hstart delta

/-- A throttle that drops time does not make more evaluations due than one with the same interval
that carries it over and is ahead by `ahead` evaluations, as long as these make up for the time that
it lacks. -/
theorem firings_le (h : ¬ c.Carries) (h' : c'.Carries) (hinterval : c'.interval = c.interval)
    (hexact : c.Throughout c.AdvancesExactly accumulated deltas)
    (hexact' : c'.Throughout c'.AdvancesExactly accumulated' deltas) (ahead : Nat)
    (hahead : value accumulated ≤ value accumulated' + value c.interval * ahead) :
    c.firings accumulated deltas ≤ c'.firings accumulated' deltas + ahead := by
  induction deltas generalizing accumulated accumulated' ahead with
  | nil => exact Nat.zero_le _
  | cons delta rest ih =>
      obtain ⟨ahead', hcount, hnext⟩ := exists_ahead h h' hinterval hexact.1 hexact'.1 hahead
      have hrest := ih hexact.2 hexact'.2 ahead' hnext
      rw [firings_cons, firings_cons]
      omega

end Config

end Dataflow
