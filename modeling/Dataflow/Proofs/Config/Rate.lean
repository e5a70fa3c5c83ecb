import Dataflow.Config.Document
import Dataflow.Proofs.Binary.Packing
import Dataflow.Proofs.Decimal.Positional
import Dataflow.Proofs.Decimal.Reread
import Dataflow.Proofs.Toml.Line

/-!
# Rates in configuration text

The text of a rate stands for a number of 64 bits that is narrowed to the rate, unless the rate is
one of two numbers (`Binary.Single.denotes_text`).
-/

namespace Dataflow

open Binary.Format (single double)

namespace Binary.Single

variable {x : Float32}

/-- The number that the text of a number is read as: the number, or its neighbour for the one
magnitude whose text comes too close to half way between the two. -/
def reread (x : Float32) : Float32 :=
  if magnitude x = 0x15ae43fd then ofMagnitude (isNegative x) 0x15ae43fe else x

/-- The magnitude that the shortest decimal of a magnitude is read as. -/
def rereadBits (bits : Nat) : Nat := if bits = 0x15ae43fd then 0x15ae43fe else bits

/-- What is read has the sign of the number. -/
theorem reread_eq (x : Float32) :
    reread x = ofMagnitude (isNegative x) (rereadBits (magnitude x)) := by
  unfold reread rereadBits
  split
  · rfl
  · exact (ofMagnitude_magnitude x).symm

/-- What is read equals the number, unless the number has the one magnitude or there is none. -/
theorem reread_beq_iff : (reread x == x) = true ↔ ¬ x.isNaN ∧ magnitude x ≠ 0x15ae43fd := by
  by_cases hmagnitude : magnitude x = 0x15ae43fd
  · refine iff_of_false ?_ fun h => h.2 hmagnitude
    have hx : x = ofMagnitude (isNegative x) 0x15ae43fd := by
      rw [← hmagnitude, ofMagnitude_magnitude]
    rw [reread, if_pos hmagnitude]
    generalize isNegative x = negative at *
    rw [hx]
    cases negative <;> decide
  · rw [reread, if_neg hmagnitude, Float32.beq_self_iff, Float32.isNaN_eq_decide_eq_nan,
      decide_eq_true_eq]
    exact (and_iff_left hmagnitude).symm

end Binary.Single

namespace Toml

variable {bits n places : Nat}

/-- A number of moderate length is not decided by its length. -/
theorem nearestDecimal_eq (positive : 0 < n) (hlimit : n < 10 ^ (39 + places))
    (hplaces : places ≤ 400) :
    nearestDecimal n (-(places : Int)) = double.nearestRatio n (10 ^ places) := by
  have hlength : (Nat.toDigits 10 n).length ≤ 39 + places :=
    (Nat.length_toDigits_le_iff (by decide) (by omega)).2 hlimit
  unfold nearestDecimal
  dsimp only
  rw [if_neg, if_neg (by omega)]
  · simp
  · simp
    omega

/-- The digits that are written for a positive number make a number that is not too great. -/
theorem shortest_digits_bounds (positive : 0 < bits) (finite : bits < single.infinity)
    (h : n * 10 ^ (-(Decimal.shortest single bits).place).toNat =
      (Decimal.shortest single bits).digits * 10 ^ (Decimal.shortest single bits).place.toNat *
        10 ^ places) : 0 < n ∧ n < 10 ^ (39 + places) := by
  obtain ⟨hdigits, hlimit, -⟩ := Decimal.shortest_bounds positive finite
  have hpow (places : Nat) : 0 < 10 ^ places := Nat.pow_pos (by decide)
  constructor
  · refine Nat.pos_of_ne_zero ?_
    rintro rfl
    rw [Nat.zero_mul] at h
    exact absurd h (Nat.mul_pos (Nat.mul_pos hdigits (hpow _)) (hpow _)).ne
  · have hle : n ≤ 2 ^ 128 * 10 ^ places := by
      refine Nat.le_of_mul_le_mul_right ?_ (hpow (-(Decimal.shortest single bits).place).toNat)
      rw [h, Nat.mul_right_comm (2 ^ 128)]
      exact Nat.mul_le_mul_right _ hlimit
    calc n ≤ 2 ^ 128 * 10 ^ places := hle
      _ < 10 ^ 39 * 10 ^ places := Nat.mul_lt_mul_of_pos_right (by norm_num) (hpow places)
      _ = 10 ^ (39 + places) := (Nat.pow_add _ _ _).symm

/-- The digits that are written for the one number are read as its neighbour. -/
theorem nearestDecimal_exception :
    nearestDecimal 7038531 (-(32 : Nat)) < double.infinity ∧
    single.nearest (double.steps (nearestDecimal 7038531 (-(32 : Nat))))
      (2 ^ (double.scale - single.scale)) = 0x15ae43fe := by
  decide +kernel

/-- The digits that are written for a positive number are read back as the number, except one. -/
theorem nearestDecimal_shortest (positive : 0 < bits) (finite : bits < single.infinity)
    (hplaces : places = max 1 (-(Decimal.shortest single bits).place).toNat)
    (h : n * 10 ^ (-(Decimal.shortest single bits).place).toNat =
      (Decimal.shortest single bits).digits * 10 ^ (Decimal.shortest single bits).place.toNat *
        10 ^ places) :
    nearestDecimal n (-(places : Int)) < double.infinity ∧
    single.nearest (double.steps (nearestDecimal n (-(places : Int))))
      (2 ^ (double.scale - single.scale)) = Binary.Single.rereadBits bits := by
  by_cases hexception : bits = 0x15ae43fd
  · subst hexception
    have hshortest : Decimal.shortest single 0x15ae43fd = ⟨7038531, -32⟩ := by decide +kernel
    rw [hshortest] at h hplaces
    obtain rfl : places = 32 := hplaces
    obtain rfl : n = 7038531 := Nat.eq_of_mul_eq_mul_right (Nat.pow_pos (by decide)) h
    exact nearestDecimal_exception
  · obtain ⟨hpositive, hbound⟩ := shortest_digits_bounds positive finite h
    obtain ⟨-, -, hfine⟩ := Decimal.shortest_bounds positive finite
    rw [Binary.Single.rereadBits, if_neg hexception, nearestDecimal_eq hpositive hbound (by omega)]
    refine Decimal.nearest_nearest_shortest positive finite hexception (Nat.pow_pos (by decide)) ?_
    have hnum (place : Int) : (Decimal.gridStep single place).1 =
      10 ^ place.toNat * 2 ^ (single.scale + 1) := Nat.shiftLeft_eq _ _
    have hdown (place : Int) : (Decimal.gridStep single place).2 = 10 ^ (-place).toNat := rfl
    rw [hnum, hdown, Nat.mul_right_comm, h]
    ring

/-- A number with a point is read as the nearest number of 64 bits, with its sign. -/
theorem scalarOf?_positional (negative : Bool) (whole : Nat) {fraction : List Char}
    (hfraction : AllDigits fraction) (ne : fraction ≠ [])
    (hbits : nearestDecimal (Nat.ofDigitChars 10 fraction whole) (-(fraction.length : Int)) = bits)
    (finite : bits < double.infinity) :
    scalarOf? (signChars negative ++ (Nat.toDigits 10 whole ++ '.' :: fraction)) =
      some (.float (Binary.Double.ofMagnitude negative bits)) := by
  have hfirst {d : Char} {rest : List Char} (hd : d.isDigit = false) (hsign : d ≠ '-') :
      signChars negative ++ (Nat.toDigits 10 whole ++ '.' :: fraction) ≠ d :: rest := by
    obtain ⟨c, cs, heq⟩ :=
      List.exists_cons_of_ne_nil (Nat.toDigits_ne_nil : Nat.toDigits 10 whole ≠ [])
    have hc : c.isDigit = true := allDigits_toDigits whole c (heq ▸ List.mem_cons_self)
    rw [heq]
    cases negative with
    | false => exact fun heq => ne_of_kind hc hd (List.cons.inj heq).1
    | true => exact fun heq => hsign (List.cons.inj heq).1.symm
  rw [scalarOf?, if_neg (hfirst rfl (by decide)), if_neg (hfirst rfl (by decide)),
    integer?_append_point negative (allDigits_toDigits whole) Nat.toDigits_ne_nil,
    float?_positional whole hfraction ne negative hbits finite]

/-- A number with a point has only characters that can stand in a token. -/
theorem isScalar_positional (negative : Bool) (whole : Nat) {fraction : List Char}
    (hfraction : AllDigits fraction) :
    ∀ c ∈ signChars negative ++ (Nat.toDigits 10 whole ++ '.' :: fraction), isScalar c = true := by
  intro c hc
  rcases List.mem_append.1 hc with hc | hc
  · cases negative with
    | false => cases hc
    | true =>
        obtain rfl := List.mem_singleton.1 hc
        rfl
  · rcases List.mem_append.1 hc with hc | hc
    · exact isScalar_of_isDigit (allDigits_toDigits whole c hc)
    · rcases List.mem_cons.1 hc with rfl | hc
      · rfl
      · exact isScalar_of_isDigit (hfraction c hc)

/-- A number with a point stands for the nearest number of 64 bits, with its sign. -/
theorem denotes_positional (negative : Bool) (whole : Nat) {fraction : List Char}
    (hfraction : AllDigits fraction) (ne : fraction ≠ [])
    (hbits : nearestDecimal (Nat.ofDigitChars 10 fraction whole) (-(fraction.length : Int)) = bits)
    (finite : bits < double.infinity) :
    Denotes (signChars negative ++ (Nat.toDigits 10 whole ++ '.' :: fraction))
      (.float (Binary.Double.ofMagnitude negative bits)) :=
  denotes_scalar (isScalar_positional negative whole hfraction)
    (scalarOf?_positional negative whole hfraction ne hbits finite)

end Toml

namespace Binary.Single

open Toml (AllDigits Denotes denotes_positional denotes_scalar signChars)

/-- The text of zero stands for zero, with its sign. -/
theorem denotes_zero (negative : Bool) :
    Denotes (signChars negative ++ ['0', '.', '0']) (.float (Double.ofMagnitude negative 0)) ∧
      Double.narrow (Double.ofMagnitude negative 0) = ofMagnitude negative 0 := by
  have hdigit : AllDigits ['0'] := by simp [AllDigits]
  have hnearest : single.nearest (double.steps 0) (2 ^ (double.scale - single.scale)) = 0 := by
    decide +kernel
  refine ⟨denotes_positional negative 0 hdigit (by simp) (by decide) (by decide), ?_⟩
  rw [Double.narrow_ofMagnitude negative (by decide), hnearest]

/-- The text of a number that is neither zero nor infinite stands for a number of 64 bits that is
narrowed to the number, except for one magnitude. -/
theorem denotes_shortest (negative : Bool) {bits : Nat} (positive : 0 < bits)
    (finite : bits < single.infinity) :
    ∃ y, Denotes (signChars negative ++ ((Decimal.shortest single bits).text .document).toList)
        (.float y) ∧
      Double.narrow y = ofMagnitude negative (rereadBits bits) := by
  obtain ⟨whole, fraction, htext, hdigits, hlength, hvalue⟩ :=
    Decimal.text_document (Decimal.shortest single bits)
  obtain ⟨hbelow, hnearest⟩ := Toml.nearestDecimal_shortest positive finite hlength hvalue
  have hne : fraction ≠ [] := by
    rintro rfl
    rw [List.length_nil] at hlength
    omega
  refine ⟨_, htext ▸ denotes_positional negative whole hdigits hne rfl hbelow, ?_⟩
  rw [Double.narrow_ofMagnitude negative hbelow, hnearest]

/-- The text of a number in a document stands for a number of 64 bits that is narrowed to the
number, except for two numbers. -/
theorem denotes_text (x : Float32) :
    ∃ y, Denotes (text .document x).toList (.float y) ∧ Double.narrow y = reread x := by
  have hsign : (if isNegative x then "-" else "").toList = signChars (isNegative x) := by
    cases isNegative x <;> rfl
  have hone : 0x15ae43fd < single.infinity := by decide
  unfold text
  split
  · rename_i hnone
    have hbeyond := isNaN_iff.1 hnone
    refine ⟨Double.notANumber, denotes_scalar (List.all_eq_true.1 rfl) rfl, ?_⟩
    rw [Double.narrow_notANumber, reread, if_neg (by omega), eq_notANumber hnone]
  dsimp only
  split
  · rename_i hinfinite
    have hmagnitude := isInf_iff.1 hinfinite
    refine ⟨Double.ofMagnitude (isNegative x) double.infinity, ?_, ?_⟩
    · rw [String.toList_append, hsign]
      cases isNegative x
      · exact denotes_scalar (List.all_eq_true.1 rfl) rfl
      · exact denotes_scalar (List.all_eq_true.1 rfl) rfl
    · rw [Double.narrow_infinity, ← hmagnitude, ofMagnitude_magnitude, reread, if_neg (by omega)]
  split
  · rename_i hzero
    obtain ⟨hdenotes, hnarrow⟩ := denotes_zero (isNegative x)
    refine ⟨Double.ofMagnitude (isNegative x) 0, ?_, ?_⟩
    · rw [String.toList_append, String.toList_append, hsign, List.append_assoc]
      exact hdenotes
    · rw [hnarrow, reread_eq, eq_of_beq hzero]
      rfl
  · rename_i hnumber hfinite hzero
    rw [isNaN_iff] at hnumber
    rw [isInf_iff] at hfinite
    rw [beq_iff_eq] at hzero
    obtain ⟨y, hdenotes, hnarrow⟩ :=
      denotes_shortest (isNegative x) (Nat.pos_of_ne_zero hzero) (by omega)
    refine ⟨y, ?_, hnarrow.trans (reread_eq x).symm⟩
    rw [String.toList_append, hsign]
    exact hdenotes

end Binary.Single

end Dataflow
