import Mathlib.Data.Int.ModEq
import Dataflow.Proofs.Binary.Truncation
import Dataflow.Value.Coercion

/-!
# Coercions are exact

A number that is read as an integer is the number that its bits stand for, without its fraction and
clamped to the type (`Value.IntegerType.read_float`). An integer read as one of another type is
congruent to it (`Value.IntegerType.read_int`), and read as a number it is rounded once, to the
nearest one (`Value.NumberType.read_int`).
-/

namespace Dataflow.Value

open Binary (Datum Format)
open Binary.Single (beq_zero_iff decode_eq_zero_iff decode_toBits_ofBits truncate truncate_eq zero)

/-! ## Integers -/

/-- A type of integers that a value is read as: signed or unsigned ones of 32 or 64 bits. -/
inductive IntegerType where
  | int32
  | int64
  | uint32
  | uint64

namespace IntegerType

/-- How many bits an integer of the type has. -/
def width : IntegerType → Nat
  | .int32 | .uint32 => 32
  | .int64 | .uint64 => 64

/-- The least integer of the type. -/
def low : IntegerType → Int
  | .int32 => -2 ^ 31
  | .int64 => -2 ^ 63
  | .uint32 | .uint64 => 0

/-- The greatest integer of the type. -/
def high : IntegerType → Int
  | .int32 => 2 ^ 31 - 1
  | .int64 => 2 ^ 63 - 1
  | .uint32 => 2 ^ 32 - 1
  | .uint64 => 2 ^ 64 - 1

/-- The integer that a value is read as. -/
def read : IntegerType → Value → Int
  | .int32, v => v.toInt32.toInt
  | .int64, v => v.toInt64.toInt
  | .uint32, v => v.toUInt32.toNat
  | .uint64, v => v.toUInt64.toNat

/-- Zero is an integer of every type, and all of them are in reach of a number. -/
theorem bounds (t : IntegerType) :
    -2 ^ 63 ≤ t.low ∧ t.low ≤ 0 ∧ 0 ≤ t.high ∧ t.high < 2 ^ 64 := by
  cases t <;> decide

/-- What a datum is read as is an integer of the type. -/
theorem clamped_mem (t : IntegerType) (d : Datum) :
    t.low ≤ d.clamped t.low t.high ∧ d.clamped t.low t.high ≤ t.high := by
  obtain ⟨-, hlow, hhigh, -⟩ := t.bounds
  cases d with
  | number q =>
      show t.low ≤ max _ _ ∧ max _ _ ≤ t.high
      omega
  | infinite negative =>
      show t.low ≤ (if negative = true then t.low else t.high) ∧
        (if negative = true then t.low else t.high) ≤ t.high
      split <;> omega
  | notANumber => exact ⟨hlow, hhigh⟩

/-- An unsigned integer of 32 bits is kept. -/
theorem toNat_ofInt_uint32 {k : Int} (hlow : 0 ≤ k) (hhigh : k ≤ 2 ^ 32 - 1) :
    ((UInt32.ofInt k).toNat : Int) = k := by
  rw [UInt32.ofInt, Int.emod_eq_of_lt hlow (by omega), UInt32.toNat_ofNat_of_lt' (by simp; omega),
    Int.toNat_of_nonneg hlow]

/-- An unsigned integer of 64 bits is kept. -/
theorem toNat_ofInt_uint64 {k : Int} (hlow : 0 ≤ k) (hhigh : k ≤ 2 ^ 64 - 1) :
    ((UInt64.ofInt k).toNat : Int) = k := by
  rw [UInt64.ofInt, Int.emod_eq_of_lt hlow (by omega), UInt64.toNat_ofNat_of_lt' (by simp; omega),
    Int.toNat_of_nonneg hlow]

/-- A number is read as the integer that its bits stand for, without its fraction and clamped. -/
theorem read_float (t : IntegerType) (bits : UInt32) :
    t.read (.float (.ofBits bits)) = (Format.single.decode bits.toNat).clamped t.low t.high := by
  obtain ⟨hleast, hlow, hhigh, hgreatest⟩ := t.bounds
  have htruncate : truncate t.low t.high (Number.ofBits bits).toSingle =
      (Format.single.decode bits.toNat).clamped t.low t.high := by
    rw [truncate_eq hleast hgreatest (hlow.trans hhigh), Number.toSingle_ofBits,
      decode_toBits_ofBits]
  obtain ⟨hmin, hmax⟩ := t.clamped_mem (Format.single.decode bits.toNat)
  rw [← htruncate] at hmin hmax ⊢
  cases t with
  | int32 => exact Int32.toInt_ofInt_of_le hmin (Int.lt_of_le_sub_one hmax)
  | int64 => exact Int64.toInt_ofInt_of_le hmin (Int.lt_of_le_sub_one hmax)
  | uint32 => exact toNat_ofInt_uint32 hmin hmax
  | uint64 => exact toNat_ofInt_uint64 hmin hmax

/-- Bits without a sign are congruent to the bits with it. -/
theorem natCast_toNat_modEq {width : Nat} (b : BitVec width) :
    (b.toNat : Int) ≡ b.toInt [ZMOD 2 ^ width] := by
  rw [BitVec.toInt_eq_toNat_bmod, Int.ModEq, ← Nat.cast_ofNat, ← Nat.cast_pow, Int.bmod_emod]

/-- An integer is read as the one of the type that is congruent to it. -/
theorem read_int (t : IntegerType) (n : Int64) :
    t.low ≤ t.read (.int n) ∧ t.read (.int n) ≤ t.high ∧
      t.read (.int n) ≡ n.toInt [ZMOD 2 ^ t.width] := by
  have hnarrow : n.toInt32.toInt ≡ n.toInt [ZMOD 2 ^ 32] := by
    rw [Int64.toInt_toInt32]
    exact Int.bmod_emod
  cases t with
  | int32 => exact ⟨Int32.le_toInt _, Int.le_sub_one_of_lt (Int32.toInt_lt _), hnarrow⟩
  | int64 => exact ⟨Int64.le_toInt _, Int.le_sub_one_of_lt (Int64.toInt_lt _), rfl⟩
  | uint32 =>
      have hlt : n.toInt32.toUInt32.toNat < 2 ^ 32 := n.toInt32.toUInt32.toNat_lt
      refine ⟨Int.natCast_nonneg _, ?_, (natCast_toNat_modEq n.toInt32.toBitVec).trans hnarrow⟩
      show (n.toInt32.toUInt32.toNat : Int) ≤ 2 ^ 32 - 1
      omega
  | uint64 =>
      have hlt : n.toUInt64.toNat < 2 ^ 64 := n.toUInt64.toNat_lt
      refine ⟨Int.natCast_nonneg _, ?_, natCast_toNat_modEq n.toBitVec⟩
      show (n.toUInt64.toNat : Int) ≤ 2 ^ 64 - 1
      omega

/-- Without a number there is nothing to read but zero and one. -/
theorem read_unit (t : IntegerType) : t.read .empty = 0 ∧ (∀ r, t.read (.reference r) = 0) ∧
    ∀ b : Bool, t.read (.bool b) = b.toNat := by
  refine ⟨?_, fun r => ?_, fun b => ?_⟩
  · cases t <;> rfl
  · cases t <;> rfl
  · cases t <;> cases b <;> rfl

end IntegerType

/-! ## Numbers -/

/-- A type of numbers that a value is read as: those of 32 bits (`single`) or of 64 bits
(`double`). -/
inductive NumberType where
  | single
  | double

namespace NumberType

/-- The format of the numbers. -/
def format : NumberType → Format
  | .single => .single
  | .double => .double

/-- The bits of the number that a value is read as. -/
def read : NumberType → Value → Nat
  | .single, v => v.toSingle.toBits.toNat
  | .double, v => v.toDouble.toBits.toNat

/-- The bits of a number are the pattern for its sign and its magnitude. -/
theorem read_int_eq (t : NumberType) (n : Int64) :
    t.read (.int n) = t.format.pattern (n.toInt < 0) (t.format.nearestRatio n.toInt.natAbs 1) := by
  cases t with
  | single => exact Binary.Single.toNat_toBits_ofMagnitude _ (Nat.min_le_right _ _)
  | double => exact Binary.Double.toNat_toBits_ofMagnitude _ (Nat.min_le_right _ _)

/-- Every integer is rounded to a finite number. -/
theorem nearestRatio_lt_infinity (t : NumberType) (n : Int64) :
    t.format.nearestRatio n.toInt.natAbs 1 < t.format.infinity := by
  have hrange : n.toInt.natAbs ≤ 2 ^ 63 := by
    have hlow := n.le_toInt
    have hhigh := n.toInt_lt
    omega
  have hgreatest : t.format.nearestRatio (2 ^ 63) 1 < t.format.infinity := by
    cases t <;> decide +kernel
  refine Nat.lt_of_le_of_lt (t.format.nearest_mono ?_) hgreatest
  rw [Nat.shiftLeft_eq, Nat.shiftLeft_eq]
  exact Nat.mul_le_mul_right _ hrange

/-- An integer is read as the number nearest to it. -/
theorem read_int (t : NumberType) (n : Int64) :
    t.format.IsNearest n.toInt (t.read (.int n)) := by
  rw [read_int_eq]
  refine Format.isNearest_nearestRatio ?_ ?_ n.toInt (t.nearestRatio_lt_infinity n)
  · cases t <;> decide
  · cases t <;> decide

/-- Of two numbers this integer is closer to the greater one by a unit, which a number of 64 bits in
between would lose. -/
example : NumberType.single.read (.int (2 ^ 60 + 2 ^ 36 + 1)) = 0x5d800001 := by
  decide +kernel

/-- Without a number there is nothing to read but zero and one. -/
theorem read_unit (t : NumberType) : t.read .empty = 0 ∧ (∀ r, t.read (.reference r) = 0) ∧
    t.read (.bool false) = 0 ∧ t.format.decode (t.read (.bool true)) = .number 1 := by
  have hzero : Binary.Single.zero.toBits.toNat = 0 ∧ Binary.Double.zero.toBits.toNat = 0 := by
    decide
  cases t with
  | single =>
      have hone : Binary.Single.one.toBits.toNat = 0x3f800000 := by decide
      refine ⟨hzero.1, fun _ => hzero.1, hzero.1, ?_⟩
      show Format.single.decode Binary.Single.one.toBits.toNat = .number 1
      rw [hone]
      exact Format.decode_one (by decide) (by decide) (by decide)
  | double =>
      have hone : Binary.Double.one.toBits.toNat = 0x3ff0000000000000 := by decide
      refine ⟨hzero.2, fun _ => hzero.2, hzero.2, ?_⟩
      show Format.double.decode Binary.Double.one.toBits.toNat = .number 1
      rw [hone]
      exact Format.decode_one (by decide) (by decide) (by decide)

end NumberType

/-! ## Truth values -/

/-- The magnitude of the number that an integer is read as. -/
theorem magnitude_toSingle_int (n : Int64) : Binary.Single.magnitude (toSingle (.int n)) =
    Format.single.nearestRatio n.toInt.natAbs 1 := by
  have hread := NumberType.read_int_eq .single n
  have hmagnitude := (Format.single.parts_pattern (n.toInt < 0)
    (NumberType.nearestRatio_lt_infinity .single n).le).2
  exact (congrArg Format.single.magnitude hread).trans hmagnitude

/-- Only zero is rounded to zero. -/
theorem toSingle_int_beq_zero (n : Int64) : (toSingle (.int n) == zero) = (n == 0) := by
  rw [Bool.eq_iff_iff, beq_zero_iff, beq_iff_eq, magnitude_toSingle_int, ← Int64.toInt_inj,
    Int64.toInt_zero]
  constructor
  · intro hzero
    by_contra hne
    have hpos : 0 < Format.single.nearestRatio n.toInt.natAbs 1 := by
      refine Format.nearest_pos (by decide) ?_
      rw [Nat.shiftLeft_eq]
      exact Nat.mul_pos (Int.natAbs_pos.2 hne) (Nat.two_pow_pos _)
    omega
  · intro hzero
    rw [hzero]
    decide

/-- A value is true if the number that it is read as differs from zero. -/
theorem toBool_eq (v : Value) : v.toBool = (v.toSingle != zero) := by
  have hzero : false = (zero != zero) := by decide
  cases v with
  | empty | reference r => exact hzero
  | float x => rfl
  | int n => exact congrArg not (toSingle_int_beq_zero n).symm
  | bool b =>
      cases b with
      | false => exact hzero
      | true => exact (by decide : true = (Binary.Single.one != zero))

/-- Coercions are exact: a number is read as an integer by what its bits stand for, without the
fraction and clamped to the type, and an integer as the one of the type that is congruent to it, or
as the number nearest to it. Without a number there is nothing to read but zero and one, and what is
true is what is read as a number other than zero. -/
theorem coercion_exact :
    (∀ (t : IntegerType) (bits : UInt32), t.read (.float (.ofBits bits)) =
      (Format.single.decode bits.toNat).clamped t.low t.high) ∧
    (∀ (t : IntegerType) (n : Int64), t.low ≤ t.read (.int n) ∧ t.read (.int n) ≤ t.high ∧
      t.read (.int n) ≡ n.toInt [ZMOD 2 ^ t.width]) ∧
    (∀ (t : NumberType) (n : Int64), t.format.IsNearest n.toInt (t.read (.int n))) ∧
    (∀ t : IntegerType, t.read .empty = 0 ∧ (∀ r, t.read (.reference r) = 0) ∧
      ∀ b : Bool, t.read (.bool b) = b.toNat) ∧
    (∀ t : NumberType, t.read .empty = 0 ∧ (∀ r, t.read (.reference r) = 0) ∧
      t.read (.bool false) = 0 ∧ t.format.decode (t.read (.bool true)) = .number 1) ∧
    ∀ v : Value, v.toBool = (v.toSingle != zero) ∧
      (v.toBool ↔ Format.single.decode v.toSingle.toBits.toNat ≠ .number 0) := by
  refine ⟨IntegerType.read_float, IntegerType.read_int, NumberType.read_int, IntegerType.read_unit,
    NumberType.read_unit, fun v => ⟨v.toBool_eq, ?_⟩⟩
  rw [toBool_eq, bne, Bool.not_eq_true', ← Bool.not_eq_true, beq_zero_iff, Ne, decode_eq_zero_iff]

end Dataflow.Value
