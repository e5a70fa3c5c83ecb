import Dataflow.Decimal.Positional
import Dataflow.Proofs.Toml.Number
import Mathlib.Tactic.Ring

/-!
# Numbers in documents

In a document a number has digits before and after its point (`Decimal.text_document`).
-/

namespace Dataflow.Decimal

open Toml (AllDigits allDigits_toDigits)

/-- Digits with zeros in front make the same number. -/
theorem ofDigitChars_leftpad {places n init : Nat} (h : n < 10 ^ places) (positive : 0 < places) :
    Nat.ofDigitChars 10 ((Nat.toDigits 10 n).leftpad places '0') init = init * 10 ^ places + n := by
  have hlength : (Nat.toDigits 10 n).length ≤ places :=
    (Nat.length_toDigits_le_iff (by decide) positive).2 h
  have hpow : 10 ^ places =
      10 ^ (Nat.toDigits 10 n).length * 10 ^ (places - (Nat.toDigits 10 n).length) := by
    rw [← Nat.pow_add, Nat.add_sub_cancel' hlength]
  rw [List.leftpad, Nat.ofDigitChars_append, Nat.ofDigitChars_replicate_zero,
    Nat.ofDigitChars_eq_ofDigitChars_zero, Nat.ofDigitChars_ten_toDigits, hpow]
  ring

/-- A number in a document has digits before and after its point, as many after it as the place of
the last one says but at least one. -/
theorem text_document (d : Decimal) : ∃ whole fraction,
    (d.text .document).toList = Nat.toDigits 10 whole ++ '.' :: fraction ∧
    AllDigits fraction ∧ fraction.length = max 1 (-d.place).toNat ∧
    Nat.ofDigitChars 10 fraction whole * 10 ^ (-d.place).toNat =
      d.digits * 10 ^ d.place.toNat * 10 ^ fraction.length := by
  unfold text
  split
  · rename_i hplace
    have hdown : (-d.place).toNat = 0 := by omega
    refine ⟨d.digits * 10 ^ d.place.toNat, ['0'], ?_, by simp [AllDigits], ?_, ?_⟩
    · simp [Style.document]
    · rw [hdown]
      rfl
    · rw [hdown, Nat.ofDigitChars_cons, Nat.ofDigitChars_nil]
      simp [Nat.mul_comm]
  · rename_i hplace
    have hup : d.place.toNat = 0 := by omega
    have hpositive : 0 < (-d.place).toNat := by omega
    dsimp only
    generalize (-d.place).toNat = places at *
    have hlt : d.digits % 10 ^ places < 10 ^ places := Nat.mod_lt _ (Nat.pow_pos (by decide))
    have hlength : ((Nat.toDigits 10 (d.digits % 10 ^ places)).leftpad places '0').length =
        max 1 places := by
      have := (Nat.length_toDigits_le_iff (by decide) hpositive).2 hlt
      rw [List.length_leftpad]
      omega
    refine ⟨d.digits / 10 ^ places, (Nat.toDigits 10 (d.digits % 10 ^ places)).leftpad places '0',
      ?_, ?_, hlength, ?_⟩
    · simp [Text.padLeft]
    · intro c hc
      rcases List.mem_append.1 hc with hc | hc
      · rw [(List.mem_replicate.1 hc).2]
        rfl
      · exact allDigits_toDigits _ c hc
    · rw [hlength, hup, ofDigitChars_leftpad hlt hpositive, Nat.div_add_mod', Nat.pow_zero,
        Nat.mul_one, Nat.max_eq_right hpositive]

end Dataflow.Decimal
