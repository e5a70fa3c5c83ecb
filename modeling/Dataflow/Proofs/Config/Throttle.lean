import Dataflow.Config.Basic
import Dataflow.Proofs.Binary.Values

/-!
# The throttle step by step

One delta is ignored, is waited for, or makes an evaluation due (`Config.advance_of_not_isFinite`,
`Config.advance_of_lt`, `Config.advance_of_not_lt`). `Config.elapse` and `Config.firings` say what
deltas one after another leave of the accumulated time and how often they make an evaluation due,
and `Config.Throughout` says that something holds of each delta and the time that has accumulated
before it.
-/

namespace Dataflow.Config

open Binary.Single

/-- There is no interval for the rate, so that every tick is to evaluate. -/
def Unthrottled (c : Config) : Prop := ¬ (c.rate.isFinite ∧ 0 < c.rate)

/-- Time that is left once an evaluation is due is carried over. -/
def Carries (c : Config) : Prop := c.throttle = .carryRemainder ∧ 0 < c.interval

/-- The time that has accumulated after deltas, one after another. -/
def elapse (c : Config) (accumulated : Float32) (deltas : List Float32) : Float32 :=
  deltas.foldl (fun accumulated delta => (c.advance accumulated delta).2) accumulated

/-- How many of the deltas make an evaluation due. -/
def firings (c : Config) (accumulated : Float32) : List Float32 → Nat
  | [] => 0
  | delta :: rest =>
      (c.advance accumulated delta).1.toNat + c.firings (c.advance accumulated delta).2 rest

/-- Something holds of each delta and of the time that has accumulated before it. -/
def Throughout (c : Config) (holds : Float32 → Float32 → Prop) (accumulated : Float32) :
    List Float32 → Prop
  | [] => True
  | delta :: rest =>
      holds accumulated delta ∧ c.Throughout holds (c.advance accumulated delta).2 rest

/-- Whether a configuration is unthrottled shows from its rate. -/
instance (c : Config) : Decidable c.Unthrottled :=
  inferInstanceAs (Decidable (¬ _))

/-- Whether a configuration carries time over shows from its mode and its interval. -/
instance (c : Config) : Decidable c.Carries :=
  inferInstanceAs (Decidable (_ ∧ _))

/-- Decides what holds throughout, delta by delta. -/
instance decidableThroughout (c : Config) (holds : Float32 → Float32 → Prop)
    [∀ accumulated delta, Decidable (holds accumulated delta)] (accumulated : Float32) :
    (deltas : List Float32) → Decidable (c.Throughout holds accumulated deltas)
  | [] => isTrue trivial
  | delta :: rest =>
      have := decidableThroughout c holds (c.advance accumulated delta).2 rest
      inferInstanceAs (Decidable (_ ∧ _))

variable {c : Config} {accumulated delta : Float32}

/-! ## The interval -/

/-- An unthrottled configuration has no interval. -/
theorem interval_of_unthrottled (h : c.Unthrottled) : c.interval = 0 := by
  unfold interval
  rw [if_neg]
  simpa [Unthrottled] using h

/-- The interval is a number and not below zero. -/
theorem interval_nonneg (c : Config) : ¬ c.interval.isNaN ∧ ¬ c.interval < 0 := by
  unfold interval
  split
  · rename_i hrate
    obtain ⟨hfinite, hpositive⟩ := (Bool.and_eq_true _ _).mp hrate
    exact div_nonneg (by decide) hfinite (by decide) (of_decide_eq_true hpositive)
  · decide

/-- The value of the interval is not below zero. -/
theorem value_interval_nonneg (c : Config) : 0 ≤ value c.interval := by
  obtain ⟨hnumber, hnonneg⟩ := c.interval_nonneg
  rw [lt_zero_iff hnumber] at hnonneg
  exact not_lt.1 hnonneg

/-- Nothing is carried over where every tick is to evaluate. -/
theorem not_carries_of_unthrottled (h : c.Unthrottled) : ¬ c.Carries := by
  rintro ⟨-, hpositive⟩
  rw [interval_of_unthrottled h] at hpositive
  exact absurd hpositive (by decide)

/-- One interval is taken from time that is carried over. -/
theorem leftover_of_carries (h : c.Carries) (total : Float32) :
    c.leftover total = total - c.interval := by
  unfold leftover
  rw [h.1]
  exact if_pos h.2

/-- Time that is not carried over is dropped. -/
theorem leftover_of_not_carries (h : ¬ c.Carries) (total : Float32) : c.leftover total = 0 := by
  unfold leftover
  split
  · rfl
  · rename_i hthrottle
    exact if_neg fun hpositive => h ⟨hthrottle, hpositive⟩

/-! ## One delta -/

/-- A delta that is not finite is ignored. -/
theorem advance_of_not_isFinite (h : ¬ delta.isFinite) :
    c.advance accumulated delta = (false, accumulated) := by
  unfold advance
  rw [if_pos (by simpa using h)]

/-- Time below the interval accumulates. -/
theorem advance_of_lt (h : delta.isFinite) (hlt : accumulated + delta < c.interval) :
    c.advance accumulated delta = (false, accumulated + delta) := by
  unfold advance
  rw [if_neg (by simpa using h)]
  exact if_pos hlt

/-- Time that is not below the interval makes an evaluation due. -/
theorem advance_of_not_lt (h : delta.isFinite) (hdue : ¬ accumulated + delta < c.interval) :
    c.advance accumulated delta = (true, c.leftover (accumulated + delta)) := by
  unfold advance
  rw [if_neg (by simpa using h)]
  exact if_neg hdue

/-- Only a finite delta makes an evaluation due, when time is not below the interval. -/
theorem of_advance_eq_true (h : (c.advance accumulated delta).1 = true) :
    delta.isFinite ∧ ¬ accumulated + delta < c.interval ∧
      (c.advance accumulated delta).2 = c.leftover (accumulated + delta) := by
  by_cases hdelta : delta.isFinite
  · by_cases hlt : accumulated + delta < c.interval
    · rw [advance_of_lt hdelta hlt] at h
      cases h
    · rw [advance_of_not_lt hdelta hlt]
      exact ⟨hdelta, hlt, rfl⟩
  · rw [advance_of_not_isFinite hdelta] at h
    cases h

/-- A delta that makes no evaluation due is ignored, or time stays below the interval. -/
theorem of_advance_eq_false (h : (c.advance accumulated delta).1 = false) :
    ¬ delta.isFinite ∧ (c.advance accumulated delta).2 = accumulated ∨
      delta.isFinite ∧ accumulated + delta < c.interval ∧
        (c.advance accumulated delta).2 = accumulated + delta := by
  by_cases hdelta : delta.isFinite
  · by_cases hlt : accumulated + delta < c.interval
    · rw [advance_of_lt hdelta hlt]
      exact .inr ⟨hdelta, hlt, rfl⟩
    · rw [advance_of_not_lt hdelta hlt] at h
      cases h
  · rw [advance_of_not_isFinite hdelta]
    exact .inl ⟨hdelta, rfl⟩

/-! ## Deltas one after another -/

/-- The first delta is followed by the others. -/
theorem elapse_cons (c : Config) (accumulated delta : Float32) (rest : List Float32) :
    c.elapse accumulated (delta :: rest) = c.elapse (c.advance accumulated delta).2 rest := rfl

/-- The first delta counts if it makes an evaluation due. -/
theorem firings_cons (c : Config) (accumulated delta : Float32) (rest : List Float32) :
    c.firings accumulated (delta :: rest) =
      (c.advance accumulated delta).1.toNat + c.firings (c.advance accumulated delta).2 rest := rfl

/-- What holds at first, and is kept by each of the deltas, holds in the end. -/
theorem elapse_invariant (invariant : Float32 → Prop) {deltas : List Float32}
    (start : invariant accumulated) (step : ∀ accumulated, ∀ delta ∈ deltas,
      invariant accumulated → invariant (c.advance accumulated delta).2) :
    invariant (c.elapse accumulated deltas) := by
  induction deltas generalizing accumulated with
  | nil => exact start
  | cons delta rest ih =>
      exact ih (step accumulated delta List.mem_cons_self start) fun accumulated delta hdelta =>
        step accumulated delta (List.mem_cons_of_mem _ hdelta)

/-- What holds at first, and is kept by each of the deltas of which something holds throughout,
holds in the end. -/
theorem Throughout.invariant {holds : Float32 → Float32 → Prop} {deltas : List Float32}
    (h : c.Throughout holds accumulated deltas) (invariant : Float32 → Prop)
    (start : invariant accumulated) (step : ∀ accumulated, ∀ delta ∈ deltas,
      holds accumulated delta → invariant accumulated → invariant (c.advance accumulated delta).2) :
    invariant (c.elapse accumulated deltas) := by
  induction deltas generalizing accumulated with
  | nil => exact start
  | cons delta rest ih =>
      exact ih h.2 (step accumulated delta List.mem_cons_self h.1 start)
        fun accumulated delta hdelta => step accumulated delta (List.mem_cons_of_mem _ hdelta)

/-- A delta that is waited for makes no evaluation due. -/
theorem firings_of_lt (h : delta.isFinite) (hlt : accumulated + delta < c.interval)
    (rest : List Float32) :
    c.firings accumulated (delta :: rest) = c.firings (accumulated + delta) rest := by
  rw [firings, advance_of_lt h hlt]
  exact Nat.zero_add _

/-- A delta that is not waited for makes one more evaluation due. -/
theorem firings_of_not_lt (h : delta.isFinite) (hdue : ¬ accumulated + delta < c.interval)
    (rest : List Float32) : c.firings accumulated (delta :: rest) =
      c.firings (c.leftover (accumulated + delta)) rest + 1 := by
  rw [firings, advance_of_not_lt h hdue]
  exact Nat.add_comm _ _

/-- At most every delta makes an evaluation due. -/
theorem firings_le_length (c : Config) (accumulated : Float32) (deltas : List Float32) :
    c.firings accumulated deltas ≤ deltas.length := by
  induction deltas generalizing accumulated with
  | nil => exact Nat.le_refl 0
  | cons delta rest ih =>
      have hrest := ih (c.advance accumulated delta).2
      have hfirst := Bool.toNat_le (c.advance accumulated delta).1
      rw [firings, List.length_cons]
      omega

/-- Deltas before others come first. -/
theorem elapse_append (c : Config) (accumulated : Float32) (before after : List Float32) :
    c.elapse accumulated (before ++ after) = c.elapse (c.elapse accumulated before) after :=
  List.foldl_append

/-- Deltas before others count as well. -/
theorem firings_append (c : Config) (accumulated : Float32) (before after : List Float32) :
    c.firings accumulated (before ++ after) =
      c.firings accumulated before + c.firings (c.elapse accumulated before) after := by
  induction before generalizing accumulated with
  | nil => exact (Nat.zero_add _).symm
  | cons delta rest ih =>
      rw [List.cons_append, firings, firings, ih, Nat.add_assoc]
      rfl

/-- What holds throughout holds in the end as well. -/
theorem Throughout.append_right {holds : Float32 → Float32 → Prop} {before after : List Float32}
    (h : c.Throughout holds accumulated (before ++ after)) :
    c.Throughout holds (c.elapse accumulated before) after := by
  induction before generalizing accumulated with
  | nil => exact h
  | cons delta rest ih => exact ih h.2

/-! ## Without an interval -/

/-- Without an interval a delta leaves nothing of the accumulated time, or less. -/
theorem advance_behind (h : c.Unthrottled) (hbehind : accumulated = 0 ∨ accumulated < 0)
    (delta : Float32) :
    (c.advance accumulated delta).2 = 0 ∨ (c.advance accumulated delta).2 < 0 := by
  cases hdue : (c.advance accumulated delta).1 with
  | false =>
      rcases of_advance_eq_false hdue with ⟨-, hnext⟩ | ⟨-, hlt, hnext⟩
      · rwa [hnext]
      · rw [hnext]
        exact .inr (interval_of_unthrottled h ▸ hlt)
  | true =>
      obtain ⟨-, -, hnext⟩ := of_advance_eq_true hdue
      rw [hnext]
      exact .inl (leftover_of_not_carries (not_carries_of_unthrottled h) _)

/-- Without an interval deltas leave nothing of the accumulated time, or less. -/
theorem elapse_behind (h : c.Unthrottled) (hbehind : accumulated = 0 ∨ accumulated < 0)
    (deltas : List Float32) :
    c.elapse accumulated deltas = 0 ∨ c.elapse accumulated deltas < 0 :=
  elapse_invariant (fun accumulated => accumulated = 0 ∨ accumulated < 0) hbehind
    fun _ delta _ hbehind => advance_behind h hbehind delta

/-- Without an interval a finite delta makes an evaluation due unless time is below zero then. -/
theorem advance_of_unthrottled (h : c.Unthrottled) (hbehind : accumulated = 0 ∨ accumulated < 0)
    (hdelta : delta.isFinite) : (c.advance accumulated delta).1 = true ↔
      accumulated.isFinite ∧ 0 ≤ value accumulated + value delta := by
  have hinterval := interval_of_unthrottled h
  have hdue : (c.advance accumulated delta).1 = true ↔ ¬ accumulated + delta < 0 := by
    by_cases hlt : accumulated + delta < 0
    · rw [advance_of_lt hdelta (hinterval ▸ hlt)]
      exact iff_of_false Bool.false_ne_true (not_not_intro hlt)
    · rw [advance_of_not_lt hdelta (hinterval ▸ hlt)]
      exact iff_of_true rfl hlt
  rw [hdue]
  by_cases hfinite : accumulated.isFinite
  · rw [add_lt_zero_iff hfinite hdelta, not_lt]
    exact (and_iff_right hfinite).symm
  · refine iff_of_false (not_not_intro ?_) fun hand => hfinite hand.1
    refine (add_below hfinite (hbehind.resolve_left ?_) hdelta).2
    rintro rfl
    exact hfinite (by decide)

/-- Without an interval nothing accumulates from a delta that is not below zero. -/
theorem advance_of_nonneg (h : c.Unthrottled) (nonneg : ¬ delta < 0) :
    (c.advance 0 delta).2 = 0 := by
  by_cases hdelta : delta.isFinite
  · rw [lt_zero_iff (not_isNaN_of_isFinite hdelta)] at nonneg
    have hdue : ¬ 0 + delta < c.interval := by
      rwa [interval_of_unthrottled h, add_lt_zero_iff (by decide) hdelta, value_zero, zero_add]
    rw [advance_of_not_lt hdelta hdue]
    exact leftover_of_not_carries (not_carries_of_unthrottled h) _
  · rw [advance_of_not_isFinite hdelta]

/-- Without an interval nothing accumulates as long as no delta is below zero. -/
theorem elapse_of_nonneg (h : c.Unthrottled) {deltas : List Float32}
    (nonneg : ∀ delta ∈ deltas, ¬ delta < 0) : c.elapse 0 deltas = 0 :=
  elapse_invariant (· = 0) rfl fun _ delta hdelta hzero =>
    hzero ▸ advance_of_nonneg h (nonneg delta hdelta)

end Dataflow.Config
