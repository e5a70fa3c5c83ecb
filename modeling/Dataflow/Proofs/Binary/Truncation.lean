import Mathlib.Data.Rat.Floor
import Dataflow.Proofs.Binary.Datum
import Dataflow.Proofs.Binary.Packing

/-!
# What numbers of 32 bits stand for

The bits of a number stand for what the pattern it was made from stands for
(`Single.decode_toBits_ofBits`). Dropping the fraction of a number and clamping it comes to the same
as doing so with what its bits stand for (`Single.truncate_eq`), and a number equals zero if that is
what its bits stand for (`Single.beq_zero_iff`, `Single.decode_eq_zero_iff`).
-/

namespace Dataflow.Binary

open Single (signed signed_false signed_true)

namespace Datum

/-- A rational number without its fraction. -/
def whole (q : ℚ) : Int :=
  if q < 0 then ⌈q⌉ else ⌊q⌋

/-- The integer from `low` to `high` that a datum is read as. What is no number is read as zero. -/
def clamped (low high : Int) : Datum → Int
  | .number q => max low (min high (whole q))
  | .infinite negative => if negative then low else high
  | .notANumber => 0

/-- Without their fraction so many steps are as many units as they are made up of. -/
theorem whole_ofSteps (F : Format) (negative : Bool) (n : Nat) :
    whole (F.ofSteps (signed negative n)) = signed negative (n / 2 ^ F.scale) := by
  have hfloor : ⌊(n : ℚ) / 2 ^ F.scale⌋ = ((n / 2 ^ F.scale : Nat) : Int) := by
    rw [Int.natCast_div, ← Rat.floor_natCast_div_natCast, Nat.cast_pow]
    rfl
  rw [Format.ofSteps_signed, whole]
  cases negative with
  | false =>
      have hnonneg : ¬ (n : ℚ) / 2 ^ F.scale < 0 := not_lt.2 (by positivity)
      rw [if_neg Bool.false_ne_true, one_mul, if_neg hnonneg, hfloor, signed_false]
  | true =>
      rw [if_pos rfl, neg_one_mul, signed_true]
      rcases Nat.eq_zero_or_pos n with rfl | positive
      · simp
      · have hpositive : (0 : ℚ) < n / 2 ^ F.scale := by positivity
        rw [if_pos (neg_lt_zero.2 hpositive), Int.ceil_neg, hfloor]

end Datum

namespace Single

open Format (single)

variable {x : Float32}

/-- What the bits of a number stand for. -/
theorem decode_toBits (x : Float32) : single.decode x.toBits.toNat =
    if single.infinity < magnitude x then .notANumber
    else if magnitude x = single.infinity then .infinite (isNegative x)
    else .number (single.ofSteps (signed (isNegative x) (steps x))) := by
  have hlt : x.toBits.toNat < 2 ^ 32 := x.toBits.toNat_lt
  have hsign : single.isNegative x.toBits.toNat = isNegative x := by
    show decide (x.toBits.toNat / 2 ^ 31 % 2 = 1) = decide (2 ^ 31 ≤ x.toBits.toNat)
    rw [decide_eq_decide]
    omega
  rw [Format.decode_eq (by decide), hsign]
  rfl

/-- The bits of a number stand for what the pattern stands for that it is made from. -/
theorem decode_toBits_ofBits (pattern : UInt32) :
    single.decode (Float32.ofBits pattern).toBits.toNat = single.decode pattern.toNat := by
  rcases Nat.lt_or_ge single.infinity (single.magnitude pattern.toNat) with hlt | hge
  · have hnone : single.decode pattern.toNat = .notANumber := by
      rw [Format.decode_eq (by decide), if_pos hlt]
    have hbits : single.infinity < magnitude notANumber := by decide
    rw [hnone, ofBits_eq_notANumber hlt, decode_toBits, if_pos hbits]
  · rw [toBits_ofBits hge]

/-- What is dropped of a number and where it is clamped is decided by what its bits stand for. -/
theorem truncate_eq {low high : Int} (hlow : -2 ^ 63 ≤ low) (hhigh : high < 2 ^ 64)
    (hle : low ≤ high) (x : Float32) :
    truncate low high x = (single.decode x.toBits.toNat).clamped low high := by
  rw [decode_toBits, truncate, Nat.shiftRight_eq_div_pow]
  rcases Nat.lt_trichotomy (magnitude x) single.infinity with hfinite | hinfinite | hnone
  · rw [if_neg (mt isNaN_iff.1 (Nat.lt_asymm hfinite)), if_neg (Nat.lt_asymm hfinite),
      if_neg hfinite.ne]
    show _ = max low (min high (Datum.whole _))
    rw [Datum.whole_ofSteps]
    rfl
  · have hsteps : steps x / 2 ^ single.scale = 2 ^ 128 := by
      rw [steps, hinfinite]
      decide
    rw [if_neg (mt isNaN_iff.1 hinfinite.not_gt), if_neg hinfinite.not_gt, if_pos hinfinite, hsteps]
    show _ = if isNegative x = true then low else high
    dsimp only
    split <;> omega
  · rw [if_pos (isNaN_iff.2 hnone), if_pos hnone]
    rfl

/-- Only zero is zero with a sign. -/
theorem signed_eq_zero_iff (negative : Bool) (n : Nat) : signed negative n = 0 ↔ n = 0 := by
  cases negative with
  | false => exact Int.natCast_eq_zero
  | true => exact neg_eq_zero.trans Int.natCast_eq_zero

/-- A number equals zero if its magnitude is zero. -/
theorem beq_zero_iff : (x == zero) = true ↔ magnitude x = 0 := by
  show ((parts x).compare (parts zero) == some .eq) = true ↔ _
  rw [beq_iff_eq]
  by_cases hx : x.isNaN
  · have hlt := isNaN_iff.1 hx
    rw [parts_of_isNaN hx]
    exact iff_of_false nofun (Nat.ne_zero_of_lt hlt)
  · have hrank : signed (isNegative zero) (magnitude zero) = 0 := by decide
    rw [isNaN_iff, Nat.not_lt] at hx
    rw [(reads_parts x).compare_eq (reads_parts zero) hx (by decide), hrank,
      Option.some.injEq, Int.compare_eq_eq, signed_eq_zero_iff]

/-- Only the magnitude zero stands for zero. -/
theorem decode_eq_zero_iff : single.decode x.toBits.toNat = .number 0 ↔ magnitude x = 0 := by
  rw [decode_toBits]
  constructor
  · intro hzero
    split at hzero
    · cases hzero
    · split at hzero
      · cases hzero
      · have hvalue := Datum.number.inj hzero
        rw [Format.ofSteps, div_eq_zero_iff, Int.cast_eq_zero, signed_eq_zero_iff] at hvalue
        have hsteps : steps x = single.steps 0 :=
          (hvalue.resolve_right (by positivity)).trans single.steps_zero.symm
        exact single.strictMono_steps.injective hsteps
  · intro hzero
    have hsteps : steps x = 0 := by rw [steps, hzero, Format.steps_zero]
    have hinfinity : single.infinity ≠ 0 := by decide
    rw [hzero, hsteps, signed_zero, if_neg (Nat.not_lt_zero _), if_neg hinfinity.symm,
      Format.ofSteps, Int.cast_zero, zero_div]

end Single

end Dataflow.Binary
