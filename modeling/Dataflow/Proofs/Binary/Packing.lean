import Dataflow.Binary.Double
import Dataflow.Proofs.Binary.Reading
import Mathlib

/-!
# Bits of numbers

The bits of a number are those that it was made from, unless they were no number's
(`Double.toBits_ofBits`), so a finite number of 64 bits is narrowed by rounding its steps once
(`Double.narrow_ofMagnitude`).
-/

namespace Dataflow.Binary

open Float.Model.UnpackedFloat

/-- What is taken apart and put together again is kept if it is not beyond infinity. -/
theorem pack_unpack {spec : Float.Model.Format} {pattern : BitVec spec.numBits}
    (hspec : 2 ≤ spec.exponentBits)
    (h : pattern.toNat % 2 ^ (spec.mantissaBitsWithoutImplicit + spec.exponentBits) ≤
      2 ^ spec.mantissaBitsWithoutImplicit * (2 ^ spec.exponentBits - 1)) :
    pack spec (unpack spec pattern) = pattern := by
  have hexponent : (unpackExponent pattern).toNat =
      pattern.toNat / 2 ^ spec.mantissaBitsWithoutImplicit % 2 ^ spec.exponentBits := by
    rw [unpackExponent, BitVec.toNat_cast, BitVec.extractLsb_toNat, Nat.shiftRight_eq_div_pow]
    congr 2
    omega
  have hmantissa : (unpackMantissa pattern).toNat =
      pattern.toNat % 2 ^ spec.mantissaBitsWithoutImplicit := by
    have hm := spec.hm
    rw [unpackMantissa, BitVec.toNat_cast, BitVec.extractLsb_toNat, Nat.shiftRight_zero]
    congr 2
    omega
  rw [Nat.pow_add, Nat.mod_mul, ← hexponent, ← hmantissa] at h
  -- beside an exponent of ones there is no room for a fraction
  refine pack_unpack_of_valid ⟨fun hones hsome => absurd (BitVec.eq_of_toNat_eq ?_) hsome⟩ hspec
  rw [hones, BitVec.neg_one_eq_allOnes, BitVec.toNat_allOnes] at h
  rw [BitVec.toNat_ofNat, Nat.zero_mod]
  omega

/-! ## Numbers of 32 bits -/

namespace Single

open Format (single)

/-- There is one value that is no number. -/
theorem eq_notANumber {x : Float32} (h : x.isNaN) : x = notANumber := by
  rw [← Float32.ofBits_toBits x]
  exact ofBits_eq_notANumber (isNaN_iff.1 h)

/-- A number is made from its own sign and magnitude. -/
theorem ofMagnitude_magnitude (x : Float32) : ofMagnitude (isNegative x) (magnitude x) = x := by
  have hlt : x.toBits.toNat < 2 ^ 32 := x.toBits.toNat_lt
  have hbits : (if isNegative x then magnitude x + 1 <<< 31 else magnitude x) = x.toBits.toNat := by
    unfold isNegative magnitude
    rw [Nat.one_shiftLeft]
    simp only [decide_eq_true_eq]
    split <;> omega
  rw [ofMagnitude, hbits, UInt32.ofNat_toNat, Float32.ofBits_toBits]

/-- Bits that are not beyond infinity are kept. -/
theorem toBits_ofBits {pattern : UInt32} (h : pattern.toNat % 2 ^ 31 ≤ single.infinity) :
    (Float32.ofBits pattern).toBits = pattern := by
  have hkept : pack .binary32 (unpack .binary32 pattern.toBitVec) = pattern.toBitVec :=
    pack_unpack (by decide) h
  exact congrArg UInt32.ofBitVec hkept

/-- The bits of a number are its magnitude and its sign. -/
theorem toNat_toBits_ofMagnitude (negative : Bool) {bits : Nat} (h : bits ≤ single.infinity) :
    (ofMagnitude negative bits).toBits.toNat = if negative then bits + 2 ^ 31 else bits := by
  have hinfinity : single.infinity = 255 * 2 ^ 23 := by decide
  rw [ofMagnitude, Nat.one_shiftLeft]
  generalize hpattern : (if negative then bits + 2 ^ 31 else bits) = pattern
  have hrange : pattern < 2 ^ 32 ∧ pattern % 2 ^ 31 = bits := by
    rw [← hpattern]
    split <;> omega
  have hnat : (UInt32.ofNat pattern).toNat = pattern := UInt32.toNat_ofNat_of_lt' hrange.1
  rw [toBits_ofBits (by rwa [hnat, hrange.2]), hnat]

end Single

/-! ## Numbers of 64 bits -/

namespace Double

open Format (single double)

variable {bits : Nat}

/-- The exponent field of a pattern. -/
theorem toNat_unpackExponent (pattern : BitVec 64) :
    (@unpackExponent .binary64 pattern).toNat = pattern.toNat / 2 ^ 52 % 2 ^ 11 := by
  simp [unpackExponent, Nat.shiftRight_eq_div_pow]

/-- Bits that are not beyond infinity are kept. -/
theorem toBits_ofBits {pattern : UInt64} (h : pattern.toNat % 2 ^ 63 ≤ double.infinity) :
    (Float.ofBits pattern).toBits = pattern := by
  have hkept : pack .binary64 (unpack .binary64 pattern.toBitVec) = pattern.toBitVec :=
    pack_unpack (by decide) h
  exact congrArg UInt64.ofBitVec hkept

/-- The bits of a number are its magnitude and its sign. -/
theorem toNat_toBits_ofMagnitude (negative : Bool) (h : bits ≤ double.infinity) :
    (ofMagnitude negative bits).toBits.toNat = if negative then bits + 2 ^ 63 else bits := by
  have hinfinity : double.infinity = 2047 * 2 ^ 52 := by decide
  rw [ofMagnitude, Nat.one_shiftLeft]
  generalize hpattern : (if negative then bits + 2 ^ 63 else bits) = pattern
  have hrange : pattern < 2 ^ 64 ∧ pattern % 2 ^ 63 = bits := by
    rw [← hpattern]
    split <;> omega
  have hnat : (UInt64.ofNat pattern).toNat = pattern := UInt64.toNat_ofNat_of_lt' hrange.1
  rw [toBits_ofBits (by rwa [hnat, hrange.2]), hnat]

/-- A number has the sign and the magnitude that it is made from. -/
theorem parts_ofMagnitude (negative : Bool) (h : bits ≤ double.infinity) :
    isNegative (ofMagnitude negative bits) = negative ∧
      magnitude (ofMagnitude negative bits) = bits := by
  have hinfinity : double.infinity = 2047 * 2 ^ 52 := by decide
  unfold isNegative magnitude
  rw [toNat_toBits_ofMagnitude negative h, Nat.one_shiftLeft]
  cases negative
  · simp
    omega
  · simp
    omega

/-- A magnitude below infinity is that of a number, and not of an infinity. -/
theorem not_isNaN_ofMagnitude (negative : Bool) (h : bits < double.infinity) :
    (ofMagnitude negative bits).isNaN = false ∧ (ofMagnitude negative bits).isInf = false := by
  have hinfinity : double.infinity = 2047 * 2 ^ 52 := by decide
  have hexponent :
      @unpackExponent .binary64 (ofMagnitude negative bits).toBits.toBitVec ≠ -1#11 := by
    intro hones
    have hones := congrArg BitVec.toNat hones
    have hones' : (-1#11 : BitVec 11).toNat = 2047 := by decide
    rw [toNat_unpackExponent, hones', UInt64.toNat_toBitVec, toNat_toBits_ofMagnitude negative h.le]
      at hones
    cases negative
    · simp at hones
      omega
    · simp at hones
      omega
  show (unpack .binary64 (ofMagnitude negative bits).toBits.toBitVec).isNaN = false ∧
    (unpack .binary64 (ofMagnitude negative bits).toBits.toBitVec).isInf = false
  unfold unpack
  dsimp only
  rw [if_neg hexponent]
  split
  · split <;> exact ⟨rfl, rfl⟩
  · exact ⟨rfl, rfl⟩

/-- A finite number is narrowed to the number nearest to its steps. -/
theorem narrow_ofMagnitude (negative : Bool) (h : bits < double.infinity) :
    narrow (ofMagnitude negative bits) = Single.ofMagnitude negative
      (single.nearest (double.steps bits) (2 ^ (double.scale - single.scale))) := by
  obtain ⟨hnumber, hfinite⟩ := not_isNaN_ofMagnitude negative h
  obtain ⟨hsign, hmagnitude⟩ := parts_ofMagnitude negative h.le
  rw [narrow, hnumber, hfinite, hsign, steps, hmagnitude, Nat.one_shiftLeft]
  rfl

/-- An infinity stays an infinity. -/
theorem narrow_infinity (negative : Bool) :
    narrow (ofMagnitude negative double.infinity) =
      Single.ofMagnitude negative single.infinity := by
  have hkind : (ofMagnitude negative double.infinity).isNaN = false ∧
      (ofMagnitude negative double.infinity).isInf = true := by
    cases negative <;> decide
  rw [narrow, hkind.1, hkind.2, (parts_ofMagnitude negative (Nat.le_refl _)).1]
  rfl

/-- What is no number stays none. -/
theorem narrow_notANumber : narrow notANumber = Single.notANumber := by
  have hnone : notANumber.isNaN = true := by decide
  rw [narrow, if_pos hnone]

end Double

end Dataflow.Binary
