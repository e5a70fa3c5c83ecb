import Dataflow.Toml.Number
import Mathlib.Data.List.TakeWhile

/-!
# Reading numbers

What decimal digits are read as: whole numbers (`integer?_toDigits`) and, with a point between them,
numbers of 64 bits (`float?_positional`).
-/

namespace Dataflow.Toml

open Binary (Format)

variable {c : Char} {cs ds : List Char} {n : Nat}

/-! ## Digits -/

/-- Each of the characters is a decimal digit. -/
def AllDigits (cs : List Char) : Prop := ∀ c ∈ cs, c.isDigit = true

/-- The digits of a number are decimal digits. -/
theorem allDigits_toDigits (n : Nat) : AllDigits (Nat.toDigits 10 n) :=
  fun _ => Nat.isDigit_of_mem_toDigits (by decide) (by decide)

/-- A list is made of digits if its head is one and its tail is made of them. -/
theorem allDigits_cons : AllDigits (c :: cs) ↔ c.isDigit = true ∧ AllDigits cs :=
  List.forall_mem_cons

/-- Digits after digits are digits. -/
theorem AllDigits.append (h : AllDigits cs) (h' : AllDigits ds) : AllDigits (cs ++ ds) :=
  fun c hc => (List.mem_append.1 hc).elim (h c) (h' c)

/-- A character of a kind is none of the characters that are not of that kind. -/
theorem ne_of_kind {kind : Char → Bool} {other : Char} (h : kind c = true)
    (hother : kind other = false) : c ≠ other := by
  rintro rfl
  rw [h] at hother
  cases hother

/-- The value of a decimal digit. -/
theorem digitOf?_of_isDigit (h : c.isDigit = true) :
    digitOf? 10 c = some (c.toNat - '0'.toNat) := by
  have hbounds : 48 ≤ c.toNat ∧ c.toNat ≤ 57 := by
    simp [Char.isDigit, UInt32.le_iff_toNat_le] at h
    exact h
  have hdigit : digitValue? c = some (c.toNat - '0'.toNat) := by
    unfold digitValue?
    rw [if_pos]
    simp [Char.le_def, UInt32.le_iff_toNat_le]
    exact hbounds
  have hzero : '0'.toNat = 48 := rfl
  rw [digitOf?, hdigit, hzero, Option.filter_some, if_pos (decide_eq_true (by omega))]

/-- A digit after others is the last one of the number that they make. -/
theorem digitsAfter?_cons (h : c.isDigit = true) (value : Nat) (cs : List Char) :
    digitsAfter? 10 value (c :: cs) = digitsAfter? 10 (10 * value + (c.toNat - '0'.toNat)) cs := by
  rw [digitsAfter?, digitOf?_of_isDigit h]
  · rfl
  · rintro d rest heq -
    exact ne_of_kind h rfl heq

/-- Digits are read from the left to the right. -/
theorem digitsAfter?_append (h : AllDigits ds) (value : Nat) (cs : List Char) :
    digitsAfter? 10 value (ds ++ cs) = digitsAfter? 10 (Nat.ofDigitChars 10 ds value) cs := by
  induction ds generalizing value with
  | nil => rw [List.nil_append, Nat.ofDigitChars_nil]
  | cons d ds ih =>
      obtain ⟨hd, hds⟩ := allDigits_cons.1 h
      rw [List.cons_append, digitsAfter?_cons hd, ih hds, Nat.ofDigitChars_cons]

/-- What begins with digits is read on after the number that they make. -/
theorem digits?_append (h : AllDigits ds) (ne : ds ≠ []) (cs : List Char) :
    digits? 10 (ds ++ cs) = digitsAfter? 10 (Nat.ofDigitChars 10 ds 0) cs := by
  cases ds with
  | nil => exact absurd rfl ne
  | cons d ds =>
      obtain ⟨hd, hds⟩ := allDigits_cons.1 h
      rw [List.cons_append, digits?, digitOf?_of_isDigit hd, Nat.ofDigitChars_cons, Nat.mul_zero,
        Nat.zero_add, ← digitsAfter?_append hds]
      rfl

/-- Digits are read as the number that they make. -/
theorem digits?_eq (h : AllDigits ds) (ne : ds ≠ []) :
    digits? 10 ds = some (Nat.ofDigitChars 10 ds 0) := by
  have happend := digits?_append h ne []
  rwa [List.append_nil, digitsAfter?] at happend

/-- Only zero is written with a zero in front. -/
theorem eq_zero_of_head?_toDigits (h : (Nat.toDigits 10 n).head? = some '0') : n = 0 := by
  induction n using Nat.strongRecOn with
  | ind n ih =>
      rw [Nat.toDigits_eq_if (by decide)] at h
      split at h
      · exact Nat.digitChar_eq_zero.1 (Option.some.inj h)
      · rw [List.head?_append, Option.or_of_isSome (List.isSome_head?.2 Nat.toDigits_ne_nil)] at h
        have := ih (n / 10) (by omega) h
        omega

/-- The digits of a number are read as the number. -/
theorem decimal?_toDigits (n : Nat) : decimal? (Nat.toDigits 10 n) = some n := by
  unfold decimal?
  split
  · rename_i heq
    have hzero : n = 0 := eq_zero_of_head?_toDigits (by rw [heq]; rfl)
    rw [hzero, Nat.toDigits_zero] at heq
    cases heq
  · rw [digits?_eq (allDigits_toDigits n) Nat.toDigits_ne_nil, Nat.ofDigitChars_ten_toDigits]

/-- What has a point after its digits is no whole number. -/
theorem decimal?_append_point (h : AllDigits ds) (ne : ds ≠ []) (cs : List Char) :
    decimal? (ds ++ '.' :: cs) = none := by
  unfold decimal?
  split
  · rfl
  · rw [digits?_append h ne, digitsAfter?]
    · rfl
    · rintro d rest heq
      cases heq

/-! ## Whole numbers -/

/-- What begins with a digit has no sign. -/
theorem splitSign_cons (h : c.isDigit = true) (cs : List Char) :
    splitSign (c :: cs) = (false, c :: cs) := by
  unfold splitSign
  split
  · rename_i heq
    exact absurd (List.cons.inj heq).1 (ne_of_kind h rfl)
  · rename_i heq
    exact absurd (List.cons.inj heq).1 (ne_of_kind h rfl)
  · rfl

/-- What has no mark of another base in front is a decimal number, with a sign or without. -/
theorem integer?_eq (h : ∀ mark rest, cs = '0' :: mark :: rest → mark.isDigit = true ∨ mark = '.') :
    integer? cs = ((decimal? (splitSign cs).2).map fun n : Nat =>
      if (splitSign cs).1 then -(n : Int) else n).filter inIntegerRange := by
  unfold integer?
  dsimp only
  split
  · exact absurd (h _ _ rfl) (by decide)
  · exact absurd (h _ _ rfl) (by decide)
  · exact absurd (h _ _ rfl) (by decide)
  · cases decimal? (splitSign cs).2 <;> rfl

/-- The digits of a number are read as the number, if that is in range. -/
theorem integer?_toDigits (h : inIntegerRange n = true) :
    integer? (Nat.toDigits 10 n) = some (n : Int) := by
  have hdigits := allDigits_toDigits n
  have hread := decimal?_toDigits n
  rw [integer?_eq]
  · obtain ⟨c, cs, heq⟩ := List.exists_cons_of_ne_nil (Nat.toDigits_ne_nil : Nat.toDigits 10 n ≠ [])
    rw [heq] at hdigits hread ⊢
    rw [splitSign_cons (allDigits_cons.1 hdigits).1, hread, Option.map_some]
    exact Option.filter_some_pos h
  · intro mark rest heq
    rw [heq] at hdigits
    exact .inl (allDigits_cons.1 (allDigits_cons.1 hdigits).2).1

/-- A minus is the only sign that is written. -/
def signChars (negative : Bool) : List Char := if negative then ['-'] else []

/-- What stands before a digit is its sign. -/
theorem splitSign_signChars (negative : Bool) (h : AllDigits ds) (ne : ds ≠ []) (cs : List Char) :
    splitSign (signChars negative ++ (ds ++ cs)) = (negative, ds ++ cs) := by
  obtain ⟨d, ds, rfl⟩ := List.exists_cons_of_ne_nil ne
  cases negative with
  | false => exact splitSign_cons (allDigits_cons.1 h).1 _
  | true => rfl

/-- What has a point after its digits is no whole number, with a sign or without. -/
theorem integer?_append_point (negative : Bool) (h : AllDigits ds) (ne : ds ≠ [])
    (cs : List Char) : integer? (signChars negative ++ (ds ++ '.' :: cs)) = none := by
  rw [integer?_eq, splitSign_signChars negative h ne, decimal?_append_point h ne]
  · rfl
  · intro mark rest heq
    cases negative with
    | false =>
        match ds, h, ne with
        | [d], _, _ => exact .inr (List.cons.inj (List.cons.inj heq).2).1.symm
        | d :: e :: ds, h, _ =>
            obtain rfl := (List.cons.inj (List.cons.inj heq).2).1
            exact .inl (allDigits_cons.1 (allDigits_cons.1 h).2).1
    | true => cases heq

/-! ## Numbers with a point -/

section Positional

variable {fraction : List Char} (whole : Nat) (hfraction : AllDigits fraction) (ne : fraction ≠ [])

include hfraction ne

/-- A number with a point is read as its digits and the count of those after the point. -/
theorem scientific?_positional : scientific? (Nat.toDigits 10 whole ++ '.' :: fraction) =
    some (Nat.ofDigitChars 10 fraction whole, -(fraction.length : Int)) := by
  have hwhole := allDigits_toDigits whole
  have hread := decimal?_toDigits whole
  have hdigits : Nat.ofDigitChars 10 (Nat.toDigits 10 whole ++ fraction) 0 =
      Nat.ofDigitChars 10 fraction whole := by
    rw [Nat.ofDigitChars_append, Nat.ofDigitChars_ten_toDigits]
  have hne : Nat.toDigits 10 whole ++ fraction ≠ [] := List.append_ne_nil_of_right_ne_nil _ ne
  rw [← hdigits]
  generalize Nat.toDigits 10 whole = digits at *
  have hmantissa : ∀ c ∈ digits ++ '.' :: fraction, (c ≠ 'e' && c ≠ 'E') = true := by
    intro c hc
    have hother (other : Char) (hdigit : other.isDigit = false) (hpoint : '.' ≠ other) :
        c ≠ other := by
      rcases List.mem_append.1 hc with hc | hc
      · exact ne_of_kind (hwhole c hc) hdigit
      · rcases List.mem_cons.1 hc with rfl | hc
        · exact hpoint
        · exact ne_of_kind (hfraction c hc) hdigit
    simp [hother 'e' rfl (by decide), hother 'E' rfl (by decide)]
  have hpoint : ∀ c ∈ digits, decide (c ≠ '.') = true :=
    fun c hc => decide_eq_true (ne_of_kind (hwhole c hc) rfl)
  have hbars : fraction.filter (· ≠ '_') = fraction :=
    List.filter_eq_self.2 fun c hc => decide_eq_true (ne_of_kind (hfraction c hc) rfl)
  have htake : (digits ++ '.' :: fraction).takeWhile (fun c => decide (c ≠ '.')) = digits := by
    rw [List.takeWhile_append_of_pos hpoint, List.takeWhile_cons_of_neg (by decide),
      List.append_nil]
  have hdrop : (digits ++ '.' :: fraction).dropWhile (fun c => decide (c ≠ '.')) =
      '.' :: fraction := by
    rw [List.dropWhile_append_of_pos hpoint, List.dropWhile_cons_of_neg (by decide)]
  have hcontains : (digits ++ '.' :: fraction).contains '.' = true := by simp
  unfold scientific?
  dsimp only
  rw [List.takeWhile_eq_self_iff.2 hmantissa, List.dropWhile_eq_nil_iff.2 hmantissa]
  dsimp only
  rw [if_pos hcontains, htake, hdrop, hread]
  dsimp only [bind, Option.bind]
  rw [digits?_eq hfraction ne, digits?_eq (hwhole.append hfraction) hne, hbars]
  simp

/-- A number with a point is read as the nearest number of 64 bits, if that is finite. -/
theorem float?_positional (negative : Bool) {bits : Nat}
    (hbits : nearestDecimal (Nat.ofDigitChars 10 fraction whole) (-(fraction.length : Int)) = bits)
    (finite : bits < Format.double.infinity) :
    float? (signChars negative ++ (Nat.toDigits 10 whole ++ '.' :: fraction)) =
      some (Binary.Double.ofMagnitude negative bits) := by
  have hwhole := allDigits_toDigits whole
  have hfirst {d : Char} {rest : List Char} (hd : d.isDigit = false) :
      Nat.toDigits 10 whole ++ '.' :: fraction ≠ d :: rest := by
    obtain ⟨c, cs, heq⟩ :=
      List.exists_cons_of_ne_nil (Nat.toDigits_ne_nil : Nat.toDigits 10 whole ≠ [])
    rw [heq] at hwhole ⊢
    exact fun heq => ne_of_kind (allDigits_cons.1 hwhole).1 hd (List.cons.inj heq).1
  unfold float?
  rw [splitSign_signChars negative hwhole Nat.toDigits_ne_nil]
  dsimp only
  rw [if_neg (hfirst rfl), if_neg (hfirst rfl), scientific?_positional whole hfraction ne]
  dsimp only [bind, Option.bind]
  rw [hbits, if_pos finite]

end Positional

end Dataflow.Toml
