import Dataflow.Binary.Single
import Dataflow.Proofs.Binary.Nearest

/-!
# What arithmetic reads in the bits of a number

Arithmetic takes a number of 32 bits apart into a sign, a significand and an exponent, and puts its
result together again. `Single.Reads` says what the parts are for a given sign and magnitude:
every number has such parts (`reads_parts`), and what is put together from parts has that sign and
magnitude (`Reads.ofParts`). Numbers are ordered as their signed magnitudes are
(`lt_iff_rank_lt`).
-/

namespace Dataflow.Binary.Single

open Float.Model (UnpackedFloat)
open Float.Model.UnpackedFloat
open Format (single)

/-- The parts into which arithmetic takes a number. -/
def parts (x : Float32) : UnpackedFloat :=
  x.toModel.unpack

/-- The number that arithmetic puts together from parts. -/
def ofParts (u : UnpackedFloat) : Float32 :=
  .ofModel (.pack u)

/-- The sign of a number for its sign bit. -/
def signOf (negative : Bool) : Sign :=
  if negative then .negative else .positive

/-- The parts of a number for its sign bit and its magnitude bits. Zeros and infinities keep their
signs, a finite number has a significand that is doubled, and beyond infinity there are no numbers.
The exponent of the least step is that of a significand that is not doubled. -/
inductive Reads : UnpackedFloat → Bool → Nat → Prop
  | zero (negative : Bool) : Reads (.zero (signOf negative)) negative 0
  | finite (negative : Bool) {m k : Nat} (fits : single.Fits m k) (positive : 0 < m)
      (inRange : single.join m k < single.infinity) :
      Reads (.finite (signOf negative) m (k - 149) positive) negative (single.join m k)
  | infinity (negative : Bool) : Reads (.infinity (signOf negative)) negative single.infinity
  | notANumber (negative : Bool) {bits : Nat} (beyond : single.infinity < bits) :
      Reads .notANumber negative bits

/-! ## Taking a number apart -/

/-- The exponent field of a pattern. -/
theorem toNat_unpackExponent (bits : BitVec 32) :
    (@unpackExponent .binary32 bits).toNat = bits.toNat / 2 ^ 23 % 2 ^ 8 := by
  simp [unpackExponent, Nat.shiftRight_eq_div_pow]

/-- The fraction field of a pattern. -/
theorem toNat_unpackMantissa (bits : BitVec 32) :
    (@unpackMantissa .binary32 bits).toNat = bits.toNat % 2 ^ 23 := by
  simp [unpackMantissa]

/-- The sign field of a pattern. -/
theorem toNat_unpackSign (bits : BitVec 32) :
    (@unpackSign .binary32 bits).toNat = bits.toNat / 2 ^ 31 % 2 := by
  unfold unpackSign
  simp [Nat.shiftRight_eq_div_pow]

/-- The significand of a doubled number has its leading bit set. -/
theorem toNat_leading {width : Nat} (fraction : BitVec width) :
    (1#1 ++ fraction).toNat = 2 ^ width + fraction.toNat := by
  rw [BitVec.toNat_append, ← Nat.shiftLeft_add_eq_or_of_lt fraction.isLt]
  simp [Nat.shiftLeft_eq]

/-- The sign field holds the sign bit. -/
theorem ofBitVec_unpackSign (x : Float32) :
    Sign.ofBitVec (@unpackSign .binary32 x.toBits.toBitVec) = signOf (isNegative x) := by
  have hfield := toNat_unpackSign x.toBits.toBitVec
  rw [UInt32.toNat_toBitVec] at hfield
  have hlt : x.toBits.toNat < 2 ^ 32 := x.toBits.toNat_lt
  unfold Sign.ofBitVec signOf isNegative
  rw [Nat.one_shiftLeft]
  by_cases hneg : 2 ^ 31 ≤ x.toBits.toNat
  · have hne : @unpackSign .binary32 x.toBits.toBitVec ≠ 0#1 := by
      intro heq
      rw [heq, BitVec.toNat_zero] at hfield
      omega
    rw [if_neg hne, if_pos (decide_eq_true hneg)]
  · have heq : @unpackSign .binary32 x.toBits.toBitVec = 0#1 := by
      apply BitVec.eq_of_toNat_eq
      rw [hfield, BitVec.toNat_zero]
      omega
    rw [if_pos heq, if_neg (by simpa using hneg)]

/-- The magnitude is made up of the exponent field and the fraction field. -/
theorem magnitude_eq (x : Float32) : magnitude x =
    (@unpackExponent .binary32 x.toBits.toBitVec).toNat * 2 ^ 23 +
      (@unpackMantissa .binary32 x.toBits.toBitVec).toNat := by
  have hlt : x.toBits.toNat < 2 ^ 32 := x.toBits.toNat_lt
  rw [toNat_unpackExponent, toNat_unpackMantissa, UInt32.toNat_toBitVec]
  unfold magnitude
  rw [Nat.one_shiftLeft]
  omega

/-- A significand and an exponent are the parts of a finite number if together they make up its
magnitude. -/
theorem reads_finite (negative : Bool) {m k bits : Nat} {e : Int} (fits : single.Fits m k)
    (positive : 0 < m) (he : e = k - 149) (hbits : bits = single.join m k)
    (inRange : bits < single.infinity) :
    Reads (.finite (signOf negative) m e positive) negative bits := by
  subst he hbits
  exact .finite negative fits positive inRange

/-- The parts of a number are those for its sign and its magnitude. -/
theorem reads_parts (x : Float32) : Reads (parts x) (isNegative x) (magnitude x) := by
  have hinfinity : single.infinity = 255 * 2 ^ 23 := by decide
  rw [magnitude_eq]
  show Reads (unpack .binary32 x.toBits.toBitVec) _ _
  unfold unpack
  dsimp only
  rw [ofBitVec_unpackSign]
  have hexponent : (@unpackExponent .binary32 x.toBits.toBitVec).toNat < 2 ^ 8 :=
    (@unpackExponent .binary32 x.toBits.toBitVec).isLt
  have hmantissa : (@unpackMantissa .binary32 x.toBits.toBitVec).toNat < 2 ^ 23 :=
    (@unpackMantissa .binary32 x.toBits.toBitVec).isLt
  by_cases hall : @unpackExponent .binary32 x.toBits.toBitVec = -1#8
  · have hones : (@unpackExponent .binary32 x.toBits.toBitVec).toNat = 255 :=
      congrArg BitVec.toNat hall
    rw [if_pos hall]
    by_cases hnone : @unpackMantissa .binary32 x.toBits.toBitVec = 0#23
    · have hzeros : (@unpackMantissa .binary32 x.toBits.toBitVec).toNat = 0 :=
        congrArg BitVec.toNat hnone
      rw [if_pos hnone, hones, hzeros, Nat.add_zero, ← hinfinity]
      exact .infinity _
    · have hsome : (@unpackMantissa .binary32 x.toBits.toBitVec).toNat ≠ 0 :=
        fun h => hnone (BitVec.eq_of_toNat_eq h)
      rw [if_neg hnone]
      exact .notANumber _ (by omega)
  · have hbelow : (@unpackExponent .binary32 x.toBits.toBitVec).toNat ≠ 255 :=
      fun h => hall (BitVec.eq_of_toNat_eq h)
    have hbias : (Float.Model.Format.binary32.exponentBias : Int) = 127 := by decide
    have hinRange : (@unpackExponent .binary32 x.toBits.toBitVec).toNat * 2 ^ 23 +
        (@unpackMantissa .binary32 x.toBits.toBitVec).toNat < single.infinity := by
      rw [hinfinity]
      omega
    rw [if_neg hall]
    by_cases hnone : @unpackExponent .binary32 x.toBits.toBitVec = 0#8
    · have hzero : (@unpackExponent .binary32 x.toBits.toBitVec).toNat = 0 :=
        congrArg BitVec.toNat hnone
      rw [if_pos hnone, hzero]
      rw [hzero] at hinRange
      by_cases hplain : @unpackMantissa .binary32 x.toBits.toBitVec = 0#23
      · have hzeros : (@unpackMantissa .binary32 x.toBits.toBitVec).toNat = 0 :=
          congrArg BitVec.toNat hplain
        rw [dif_pos hplain, hzeros]
        exact .zero _
      · rw [dif_neg hplain]
        refine reads_finite (k := 0) _ ⟨?_, .inl rfl⟩ _ ?_ ?_ hinRange
        · exact Nat.lt_trans hmantissa (by decide)
        · rw [hbias]
          rfl
        · simp [Format.join]
    · have hzero : (@unpackExponent .binary32 x.toBits.toBitVec).toNat ≠ 0 :=
        fun h => hnone (BitVec.eq_of_toNat_eq h)
      rw [if_neg hnone]
      obtain ⟨k, hk⟩ := Nat.exists_eq_succ_of_ne_zero hzero
      have hleading : (1#1 ++ @unpackMantissa .binary32 x.toBits.toBitVec).toNat =
          2 ^ 23 + (@unpackMantissa .binary32 x.toBits.toBitVec).toNat := toNat_leading _
      rw [hk] at hinRange ⊢
      refine reads_finite (k := k) _ ⟨?_, .inr ?_⟩ _ ?_ ?_ hinRange
      · rw [hleading]
        show _ < 2 * 2 ^ 23
        omega
      · rw [hleading]
        exact Nat.le_add_right _ _
      · rw [hbias]
        omega
      · rw [hleading]
        show _ = _ + k * 2 ^ 23
        omega

/-! ## Putting a number together -/

/-- The bits of a number that is put together from fields. -/
theorem toNat_packComponents (negative : Bool) (exponent : BitVec 8) (fraction : BitVec 23) :
    (packComponents .binary32 (signOf negative) exponent fraction).toNat =
      (if negative then 2 ^ 31 else 0) + (exponent.toNat * 2 ^ 23 + fraction.toNat) := by
  unfold packComponents
  rw [BitVec.toNat_append, BitVec.toNat_append]
  have hfraction : fraction.toNat < 2 ^ 23 := fraction.isLt
  have hexponent : exponent.toNat < 2 ^ 8 := exponent.isLt
  rw [← Nat.shiftLeft_add_eq_or_of_lt fraction.isLt, ← Nat.shiftLeft_add_eq_or_of_lt exponent.isLt]
  simp only [Nat.shiftLeft_eq]
  cases negative
  · simp [signOf, Sign.toBitVec]
  · simp [signOf, Sign.toBitVec]
    omega

/-- What is put together from fields has their sign and their magnitude. -/
theorem ofParts_of_fields {u : UnpackedFloat} {negative : Bool} {exponent : BitVec 8}
    {fraction : BitVec 23}
    (h : pack .binary32 u = packComponents .binary32 (signOf negative) exponent fraction) :
    isNegative (ofParts u) = negative ∧
      magnitude (ofParts u) = exponent.toNat * 2 ^ 23 + fraction.toNat := by
  have hfraction : fraction.toNat < 2 ^ 23 := fraction.isLt
  have hexponent : exponent.toNat < 2 ^ 8 := exponent.isLt
  have hbits : (ofParts u).toBits.toNat =
      (if negative then 2 ^ 31 else 0) + (exponent.toNat * 2 ^ 23 + fraction.toNat) := by
    rw [← toNat_packComponents, ← h]
    rfl
  unfold isNegative magnitude
  rw [hbits, Nat.one_shiftLeft]
  cases negative
  · simp
    omega
  · simp
    omega

/-- What is put together from the parts of infinity has its sign and its magnitude. -/
theorem ofParts_of_packedInfinity {u : UnpackedFloat} {negative : Bool}
    (h : pack .binary32 u = packedInfinity .binary32 (signOf negative)) :
    isNegative (ofParts u) = negative ∧ magnitude (ofParts u) = single.infinity := by
  have hfields : pack .binary32 u = packComponents .binary32 (signOf negative) (-1#8) 0#23 := h
  obtain ⟨hsign, hmagnitude⟩ := ofParts_of_fields hfields
  exact ⟨hsign, hmagnitude.trans (by decide)⟩

/-- The fields of a finite number are those of infinity if the exponent is too large. Otherwise the
exponent field stays empty for a significand without its leading bit. -/
theorem pack_finite (s : Sign) {m : Nat} {e : Int} (positive : 0 < m) :
    pack .binary32 (.finite s m e positive) =
      if 2 ^ 8 ≤ (e + 150).toNat + 1 then packedInfinity .binary32 s
      else if m.log2 + 1 = 24 then
        packComponents .binary32 s (BitVec.ofNat 8 (e + 150).toNat) (BitVec.ofNat 23 m)
      else packComponents .binary32 s 0#8 (BitVec.ofNat 23 m) := by
  have hbias : e + Float.Model.Format.binary32.exponentBias + (23 : Nat) = e + 150 := by
    rw [show (Float.Model.Format.binary32.exponentBias : Int) = 127 by decide]
    omega
  unfold pack
  dsimp only
  rw [hbias]
  rfl

/-- What is put together from a sign, a significand and an exponent has that sign and is a
number. -/
theorem ofParts_finite (negative : Bool) {m : Nat} {e : Int} (positive : 0 < m) :
    isNegative (ofParts (.finite (signOf negative) m e positive)) = negative ∧
      magnitude (ofParts (.finite (signOf negative) m e positive)) ≤ single.infinity := by
  have hinfinity : single.infinity = 255 * 2 ^ 23 := by decide
  have hpack := pack_finite (signOf negative) (e := e) positive
  by_cases hrange : 2 ^ 8 ≤ (e + 150).toNat + 1
  · rw [if_pos hrange] at hpack
    obtain ⟨hsign, hmagnitude⟩ := ofParts_of_packedInfinity hpack
    exact ⟨hsign, hmagnitude.le⟩
  · have hfraction : m % 2 ^ 23 < 2 ^ 23 := Nat.mod_lt _ (by decide)
    rw [if_neg hrange] at hpack
    by_cases hnormal : m.log2 + 1 = 24
    · rw [if_pos hnormal] at hpack
      obtain ⟨hsign, hmagnitude⟩ := ofParts_of_fields hpack
      rw [BitVec.toNat_ofNat, BitVec.toNat_ofNat, Nat.mod_eq_of_lt
        (Nat.lt_of_succ_lt (Nat.not_le.1 hrange))] at hmagnitude
      have hlast := Nat.mul_le_mul_right (2 ^ 23)
        (Nat.le_of_lt_succ (Nat.not_le.1 hrange) : _ ≤ 2 ^ 8 - 1)
      refine ⟨hsign, ?_⟩
      rw [hmagnitude, hinfinity]
      omega
    · rw [if_neg hnormal] at hpack
      obtain ⟨hsign, hmagnitude⟩ := ofParts_of_fields hpack
      rw [BitVec.toNat_ofNat, BitVec.toNat_ofNat] at hmagnitude
      exact ⟨hsign, by omega⟩

/-- A significand that is doubled is put together to the magnitude that it makes up, unless that is
out of range. -/
theorem magnitude_ofParts_finite (negative : Bool) {m k : Nat} (fits : single.Fits m k)
    (positive : 0 < m) :
    magnitude (ofParts (.finite (signOf negative) m (k - 149) positive)) =
      min (single.join m k) single.infinity := by
  have hinfinity : single.infinity = 255 * 2 ^ 23 := by decide
  have hlt : m < 2 * 2 ^ 23 := fits.lt
  have hjoin : single.join m k = m + k * 2 ^ 23 := rfl
  have hpack := pack_finite (signOf negative) (e := k - 149) positive
  rw [show ((k : Int) - 149 + 150).toNat = k + 1 by omega] at hpack
  by_cases hrange : 2 ^ 8 ≤ k + 1 + 1
  · rw [if_pos hrange] at hpack
    obtain ⟨-, hmagnitude⟩ := ofParts_of_packedInfinity hpack
    have hfull : 2 ^ 23 ≤ m := fits.full.resolve_left (by omega)
    rw [hmagnitude, hjoin, hinfinity]
    omega
  · rw [if_neg hrange] at hpack
    by_cases hnormal : m.log2 + 1 = 24
    · rw [if_pos hnormal] at hpack
      have hlog : m.log2 = 23 := Nat.succ.inj hnormal
      have hfull : 2 ^ 23 ≤ m := hlog ▸ Nat.log2_self_le positive.ne'
      obtain ⟨-, hmagnitude⟩ := ofParts_of_fields hpack
      rw [BitVec.toNat_ofNat, BitVec.toNat_ofNat] at hmagnitude
      rw [hmagnitude, hjoin, hinfinity]
      omega
    · rw [if_neg hnormal] at hpack
      have hlog : m.log2 < 24 := (Nat.log2_lt positive.ne').2 (by omega)
      have hsmall : m < 2 ^ 23 := (Nat.log2_lt positive.ne').1 (by omega)
      obtain ⟨-, hmagnitude⟩ := ofParts_of_fields hpack
      have hk : k = 0 := fits.full.resolve_right (Nat.not_le.2 hsmall)
      rw [BitVec.toNat_ofNat, BitVec.toNat_ofNat] at hmagnitude
      rw [hmagnitude, hjoin, hinfinity, hk]
      omega

/-- What is put together from the parts of a number has its sign and its magnitude. -/
theorem Reads.ofParts {u : UnpackedFloat} {negative : Bool} {bits : Nat}
    (h : Reads u negative bits) (hnumber : bits ≤ single.infinity) :
    isNegative (ofParts u) = negative ∧ magnitude (ofParts u) = bits := by
  cases h with
  | zero => cases negative <;> decide
  | finite _ fits positive inRange =>
      refine ⟨(ofParts_finite negative positive).1, ?_⟩
      rw [magnitude_ofParts_finite negative fits positive]
      exact Nat.min_eq_left inRange.le
  | infinity => cases negative <;> decide
  | notANumber _ beyond => exact absurd hnumber (Nat.not_le.2 beyond)

/-! ## Order -/

/-- A natural number with a sign. -/
def signed (negative : Bool) (n : Nat) : Int :=
  if negative then -n else n

/-- Without a sign bit the number stays. -/
@[simp] theorem signed_false (n : Nat) : signed false n = n := rfl

/-- With a sign bit the number changes its sign. -/
@[simp] theorem signed_true (n : Nat) : signed true n = -n := rfl

/-- Zero has no sign. -/
@[simp] theorem signed_zero (negative : Bool) : signed negative 0 = 0 := by
  cases negative <;> rfl

/-- A sign does not move a number out of bounds. -/
theorem signed_bounds (negative : Bool) {n bound : Nat} (h : n < bound) :
    -(bound : Int) < signed negative n ∧ signed negative n < bound := by
  cases negative with
  | false =>
      rw [signed_false]
      omega
  | true =>
      rw [signed_true]
      omega

/-- Changing both signs turns an order round. -/
theorem compare_neg_neg (a b : Int) : compare (-a) (-b) = compare b a := by
  rcases Int.lt_trichotomy a b with h | rfl | h
  · rw [Int.compare_eq_gt.2 h, Int.compare_eq_gt.2 (Int.neg_lt_neg h)]
  · rw [Int.compare_eq_eq.2 rfl, Int.compare_eq_eq.2 rfl]
  · rw [Int.compare_eq_lt.2 h, Int.compare_eq_lt.2 (Int.neg_lt_neg h)]

/-- Exponents are compared first, then significands, and so are magnitudes. -/
theorem compare_join {m m' k k' : Nat} (h : single.Fits m k) (h' : single.Fits m' k') :
    (compare ((k : Int) - 149) (k' - 149)).then (compare m m') =
      compare (single.join m k : Int) (single.join m' k') := by
  have hlt := h.join_lt_join_iff h'
  have hgt := h'.join_lt_join_iff h
  rcases Nat.lt_trichotomy k k' with hk | rfl | hk
  · rw [Int.compare_eq_lt.2 (by omega), Int.compare_eq_lt.2 (by omega)]
    rfl
  · rw [Int.compare_eq_eq.2 rfl, Ordering.eq_then]
    rcases Nat.lt_trichotomy m m' with hm | rfl | hm
    · rw [Nat.compare_eq_lt.2 hm, Int.compare_eq_lt.2 (by omega)]
    · rw [Nat.compare_eq_eq.2 rfl, Int.compare_eq_eq.2 rfl]
    · rw [Nat.compare_eq_gt.2 hm, Int.compare_eq_gt.2 (by omega)]
  · rw [Int.compare_eq_gt.2 (by omega), Int.compare_eq_gt.2 (by omega)]
    rfl

/-- A significand that is not zero makes up a magnitude that is not zero. -/
theorem join_pos {m : Nat} (positive : 0 < m) (k : Nat) : 0 < (single.join m k : Int) :=
  Int.natCast_pos.2 (Nat.add_pos_left positive _)

/-- Finite parts are compared as their signed magnitudes are. -/
theorem compare_finite (negative negative' : Bool) {m m' k k' : Nat} (fits : single.Fits m k)
    (fits' : single.Fits m' k') (positive : 0 < m) (positive' : 0 < m') :
    (UnpackedFloat.finite (signOf negative) m (k - 149) positive).compare
        (.finite (signOf negative') m' (k' - 149) positive') =
      some (compare (signed negative (single.join m k))
        (signed negative' (single.join m' k'))) := by
  have hfirst := join_pos positive k
  have hsecond := join_pos positive' k'
  cases negative with
  | false =>
      rw [signed_false]
      cases negative' with
      | false => exact congrArg some (compare_join fits fits')
      | true =>
          rw [signed_true, Int.compare_eq_gt.2 (by omega)]
          rfl
  | true =>
      rw [signed_true]
      cases negative' with
      | false =>
          rw [signed_false, Int.compare_eq_lt.2 (by omega)]
          rfl
      | true =>
          rw [signed_true, compare_neg_neg, ← Int.compare_swap, ← compare_join fits fits']
          rfl

/-- Two sets of parts are compared as their signed magnitudes are. -/
theorem Reads.compare_eq {u u' : UnpackedFloat} {negative negative' : Bool} {bits bits' : Nat}
    (h : Reads u negative bits) (h' : Reads u' negative' bits')
    (hnumber : bits ≤ single.infinity) (hnumber' : bits' ≤ single.infinity) :
    u.compare u' = some (compare (signed negative bits) (signed negative' bits')) := by
  cases h with
  | zero =>
      cases h' with
      | zero => cases negative <;> cases negative' <;> decide
      | @finite _ _ k' _ positive' =>
          have hsecond := join_pos positive' k'
          rw [signed_zero]
          cases negative' with
          | false =>
              rw [signed_false, Int.compare_eq_lt.2 hsecond]
              rfl
          | true =>
              rw [signed_true, Int.compare_eq_gt.2 (by omega)]
              rfl
      | infinity => cases negative <;> cases negative' <;> decide
      | notANumber _ beyond => exact absurd hnumber' (Nat.not_le.2 beyond)
  | @finite _ _ k fits positive inRange =>
      cases h' with
      | zero =>
          have hfirst := join_pos positive k
          rw [signed_zero]
          cases negative with
          | false =>
              rw [signed_false, Int.compare_eq_gt.2 hfirst]
              rfl
          | true =>
              rw [signed_true, Int.compare_eq_lt.2 (by omega)]
              rfl
      | finite _ fits' positive' => exact compare_finite _ _ fits fits' positive positive'
      | infinity =>
          obtain ⟨habove, hbelow⟩ := signed_bounds negative inRange
          cases negative' with
          | false =>
              rw [signed_false, Int.compare_eq_lt.2 hbelow]
              rfl
          | true =>
              rw [signed_true, Int.compare_eq_gt.2 habove]
              rfl
      | notANumber _ beyond => exact absurd hnumber' (Nat.not_le.2 beyond)
  | infinity =>
      cases h' with
      | zero => cases negative <;> cases negative' <;> decide
      | finite _ fits' positive' inRange' =>
          obtain ⟨habove, hbelow⟩ := signed_bounds negative' inRange'
          cases negative with
          | false =>
              rw [signed_false, Int.compare_eq_gt.2 hbelow]
              rfl
          | true =>
              rw [signed_true, Int.compare_eq_lt.2 habove]
              rfl
      | infinity => cases negative <;> cases negative' <;> decide
      | notANumber _ beyond => exact absurd hnumber' (Nat.not_le.2 beyond)
  | notANumber _ beyond => exact absurd hnumber (Nat.not_le.2 beyond)

/-! ## Kinds of numbers -/

/-- Parts are finite if the magnitude is below infinity. -/
theorem Reads.isFinite_iff {u : UnpackedFloat} {negative : Bool} {bits : Nat}
    (h : Reads u negative bits) : u.isFinite ↔ bits < single.infinity := by
  cases h with
  | zero => exact iff_of_true rfl (by decide)
  | finite _ _ _ inRange => exact iff_of_true rfl inRange
  | infinity => exact iff_of_false Bool.false_ne_true (Nat.lt_irrefl _)
  | notANumber _ beyond => exact iff_of_false Bool.false_ne_true (Nat.lt_asymm beyond)

/-- Parts are those of no number if the magnitude is beyond infinity. -/
theorem Reads.isNaN_iff {u : UnpackedFloat} {negative : Bool} {bits : Nat}
    (h : Reads u negative bits) : u.isNaN ↔ single.infinity < bits := by
  cases h with
  | zero => exact iff_of_false Bool.false_ne_true (by decide)
  | finite _ _ _ inRange => exact iff_of_false Bool.false_ne_true (Nat.lt_asymm inRange)
  | infinity => exact iff_of_false Bool.false_ne_true (Nat.lt_irrefl _)
  | notANumber _ beyond => exact iff_of_true rfl beyond

/-- Parts are those of an infinity if the magnitude is that of infinity. -/
theorem Reads.isInf_iff {u : UnpackedFloat} {negative : Bool} {bits : Nat}
    (h : Reads u negative bits) : u.isInf ↔ bits = single.infinity := by
  cases h with
  | zero => exact iff_of_false Bool.false_ne_true (by decide)
  | finite _ _ _ inRange => exact iff_of_false Bool.false_ne_true inRange.ne
  | infinity => exact iff_of_true rfl rfl
  | notANumber _ beyond => exact iff_of_false Bool.false_ne_true beyond.ne'

/-- The signed magnitude of a number, by which numbers are ordered. -/
def rank (x : Float32) : Int :=
  signed (isNegative x) (magnitude x)

variable {x y : Float32}

/-- A number is finite if its magnitude is below infinity. -/
theorem isFinite_iff : x.isFinite ↔ magnitude x < single.infinity :=
  (reads_parts x).isFinite_iff

/-- There is no number where the magnitude is beyond infinity. -/
theorem isNaN_iff : x.isNaN ↔ single.infinity < magnitude x :=
  (reads_parts x).isNaN_iff

/-- A number is infinite if its magnitude is that of infinity. -/
theorem isInf_iff : x.isInf ↔ magnitude x = single.infinity :=
  (reads_parts x).isInf_iff

/-- A finite number is a number. -/
theorem not_isNaN_of_isFinite (h : x.isFinite) : ¬ x.isNaN := by
  rw [isFinite_iff] at h
  rw [isNaN_iff]
  exact Nat.lt_asymm h

/-- Numbers are ordered as their parts are. -/
theorem lt_iff_compare_eq : x < y ↔ (parts x).compare (parts y) = some .lt := by
  show decide (x.toModel < y.toModel) = true ↔ _
  rw [decide_eq_true_iff]
  show ((parts x).compare (parts y) == some .lt) = true ↔ _
  rw [beq_iff_eq]

/-- Numbers are ordered as their signed magnitudes are. -/
theorem lt_iff_rank_lt (hx : ¬ x.isNaN) (hy : ¬ y.isNaN) : x < y ↔ rank x < rank y := by
  rw [isNaN_iff, Nat.not_lt] at hx hy
  rw [lt_iff_compare_eq, (reads_parts x).compare_eq (reads_parts y) hx hy, Option.some.injEq,
    Int.compare_eq_lt]
  rfl

/-- The parts of what is no number. -/
theorem parts_of_isNaN (h : x.isNaN) : parts x = .notANumber := by
  have hnone : (parts x).isNaN := h
  cases hx : parts x with
  | notANumber => rfl
  | infinity s | zero s | finite s => rw [hx] at hnone; cases hnone

/-- What is no number is not less than anything. -/
theorem not_lt_of_isNaN (h : x.isNaN) : ¬ x < y := by
  rw [lt_iff_compare_eq, parts_of_isNaN h]
  exact nofun

end Dataflow.Binary.Single
