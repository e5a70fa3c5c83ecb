import Dataflow.Text.Quoted
import Mathlib.Logic.Function.Basic

/-!
# Texts that show where they end

A way of writing is self-delimiting if what is written for an item can be told apart from whatever
follows it (`SelfDelimiting`). Quoted text is (`selfDelimiting_quote`), whatever stands in it, and
so is anything that ends with a character which it does not have elsewhere. Quoted text is also on
one line (`newline_not_mem_quote`).
-/

namespace Dataflow.Text

variable {α : Type} {c d : Char} {cs ds rest rest' : List Char}

/-- What is written for an item can be told apart from whatever follows it. -/
def SelfDelimiting (write : α → List Char) : Prop :=
  ∀ ⦃x y : α⦄ ⦃rest rest' : List Char⦄, write x ++ rest = write y ++ rest' → x = y ∧ rest = rest'

/-- A character ends what stands before its first occurrence. -/
theorem append_cons_inj (hcs : c ∉ cs) (hds : c ∉ ds) (h : cs ++ c :: rest = ds ++ c :: rest') :
    cs = ds ∧ rest = rest' := by
  have hpieces := congrArg (List.splitOn c) h
  rw [List.splitOn_append_cons_self_of_not_mem hcs, List.splitOn_append_cons_self_of_not_mem hds]
    at hpieces
  obtain rfl := (List.cons.inj hpieces).1
  exact ⟨rfl, (List.cons.inj (List.append_cancel_left h)).2⟩

/-- Text in which each line is ended by a character falls into its lines at this character, and
nothing is left after the last of them. -/
theorem splitOn_flatMap_append_singleton {lines : List (List Char)}
    (h : ∀ line ∈ lines, c ∉ line) :
    (lines.flatMap (· ++ [c])).splitOn c = lines ++ [[]] := by
  induction lines with
  | nil => exact List.splitOn_nil c
  | cons line lines ih =>
      obtain ⟨hline, hlines⟩ := List.forall_mem_cons.1 h
      rw [List.flatMap_cons, List.append_assoc, List.singleton_append,
        List.splitOn_append_cons_self_of_not_mem hline, ih hlines, List.cons_append]

/-- Items one after another show where they end if a character is put behind them with which none
of them begins. -/
theorem SelfDelimiting.flatMap_append_singleton {write : α → List Char} (h : SelfDelimiting write)
    (hfirst : ∀ x, ∃ d ds, write x = d :: ds ∧ d ≠ c) :
    SelfDelimiting fun xs : List α => xs.flatMap write ++ [c] := by
  intro xs
  induction xs with
  | nil =>
      rintro (_ | ⟨y, ys⟩) rest rest' heq
      · exact ⟨rfl, (List.cons.inj heq).2⟩
      · obtain ⟨d, ds, hd, hne⟩ := hfirst y
        simp only [List.flatMap_cons, hd] at heq
        exact absurd (List.cons.inj heq).1.symm hne
  | cons x xs ih =>
      rintro (_ | ⟨y, ys⟩) rest rest' heq
      · obtain ⟨d, ds, hd, hne⟩ := hfirst x
        simp only [List.flatMap_cons, hd] at heq
        exact absurd (List.cons.inj heq).1 hne
      · simp only [List.flatMap_cons, List.append_assoc] at heq
        obtain ⟨rfl, hafter⟩ := h heq
        obtain ⟨rfl, hrest⟩ := ih (by simpa using hafter)
        exact ⟨rfl, hrest⟩

/-! ## Separated items -/

/-- Every character of separated items is that of an item or of the separator. -/
theorem mem_intercalate {sep : List Char} {words : List (List Char)}
    (h : c ∈ sep.intercalate words) : c ∈ sep ∨ ∃ word ∈ words, c ∈ word := by
  induction words with
  | nil => cases h
  | cons word words ih =>
      cases words with
      | nil => exact .inr ⟨word, List.mem_cons_self, by simpa using h⟩
      | cons next words =>
          rw [List.intercalate_cons_cons, List.append_assoc, List.mem_append, List.mem_append] at h
          rcases h with hword | hsep | hrest
          · exact .inr ⟨word, List.mem_cons_self, hword⟩
          · exact .inl hsep
          · exact (ih hrest).imp_right fun ⟨other, hmem, hc⟩ =>
              ⟨other, List.mem_cons_of_mem _ hmem, hc⟩

/-- Items that are not empty can be told apart if the separator begins with a character that none
of them has. -/
theorem intercalate_cons_inj {sep : List Char} {xs ys : List (List Char)}
    (hxs : ∀ x ∈ xs, x ≠ [] ∧ c ∉ x) (hys : ∀ y ∈ ys, y ≠ [] ∧ c ∉ y)
    (h : (c :: sep).intercalate xs = (c :: sep).intercalate ys) : xs = ys := by
  induction xs generalizing ys with
  | nil =>
      match ys, hys with
      | [], _ => rfl
      | [y], hys => exact absurd (by simpa using h) (hys y List.mem_cons_self).1
      | y :: y' :: ys, _ => simp [List.intercalate_cons_cons] at h
  | cons x xs ih =>
      obtain ⟨⟨hx, hcx⟩, hxs⟩ := List.forall_mem_cons.1 hxs
      match xs, ys, hxs, hys with
      | [], [], _, _ => exact absurd (by simpa using h) hx
      | x' :: xs, [], _, _ => simp [List.intercalate_cons_cons] at h
      | [], [y], _, _ => simpa using h
      | [], y :: y' :: ys, _, _ =>
          rw [List.intercalate_singleton, List.intercalate_cons_cons] at h
          simp [h] at hcx
      | x' :: xs, [y], _, hys =>
          rw [List.intercalate_singleton, List.intercalate_cons_cons] at h
          have hcy := (hys y List.mem_cons_self).2
          simp [← h] at hcy
      | x' :: xs, y :: y' :: ys, hxs, hys =>
          obtain ⟨⟨-, hcy⟩, hys'⟩ := List.forall_mem_cons.1 hys
          rw [List.intercalate_cons_cons, List.intercalate_cons_cons, List.append_assoc,
            List.append_assoc] at h
          obtain ⟨rfl, hrest⟩ := append_cons_inj hcx hcy h
          rw [ih hxs hys' (List.append_cancel_left hrest)]

/-! ## Digits -/

/-- The characters of a number are digits of its base. -/
theorem exists_digitChar_of_mem_toDigits {b n : Nat} (hb : 1 < b) (hc : c ∈ Nat.toDigits b n) :
    ∃ m < b, c = Nat.digitChar m := by
  induction n using Nat.strongRecOn with
  | ind n ih =>
      rw [Nat.toDigits_eq_if hb] at hc
      split at hc
      · rename_i hlt
        exact ⟨n, hlt, List.mem_singleton.1 hc⟩
      · rcases List.mem_append.1 hc with hc | hc
        · exact ih (n / b) (Nat.div_lt_self (by omega) hb) hc
        · exact ⟨n % b, Nat.mod_lt n (by omega), List.mem_singleton.1 hc⟩

/-- Digits up to the fifteenth are different characters. -/
theorem digitChar_inj : ∀ m < 16, ∀ n < 16, Nat.digitChar m = Nat.digitChar n → m = n := by
  decide

/-- Different numbers have different digits. -/
theorem toDigits_injective {b : Nat} (hb : 1 < b) (hle : b ≤ 16) :
    Function.Injective (Nat.toDigits b) := by
  intro m
  induction m using Nat.strongRecOn with
  | ind m ih =>
      intro n h
      have hdigit (n : Nat) : (Nat.toDigits b n).length ≤ 1 ↔ n < b := by
        rw [Nat.length_toDigits_le_iff hb Nat.one_pos, Nat.pow_one]
      -- either both numbers have one digit, or both have more
      have hsame : m < b ↔ n < b := by rw [← hdigit, ← hdigit, h]
      by_cases hm : m < b
      · rw [Nat.toDigits_of_lt_base hm, Nat.toDigits_of_lt_base (hsame.1 hm)] at h
        exact digitChar_inj m (by omega) n (by omega) (List.cons.inj h).1
      · rw [Nat.toDigits_of_base_le hb (Nat.not_lt.1 hm),
          Nat.toDigits_of_base_le hb (Nat.not_lt.1 (hm ∘ hsame.2))] at h
        obtain ⟨hfront, hback⟩ := List.append_inj' h rfl
        have hlast (n : Nat) : n % b < 16 := Nat.lt_of_lt_of_le (Nat.mod_lt n (by omega)) hle
        have hdiv : m / b = n / b := ih _ (Nat.div_lt_self (by omega) hb) hfront
        have hmod : m % b = n % b :=
          digitChar_inj _ (hlast m) _ (hlast n) (List.cons.inj hback).1
        rw [← Nat.div_add_mod m b, ← Nat.div_add_mod n b, hdiv, hmod]

/-- A character that is no digit is not among the digits of a number. -/
theorem not_mem_toDigits {b n : Nat} (hb : 1 < b) (hc : ∀ m < b, Nat.digitChar m ≠ c) :
    c ∉ Nat.toDigits b n := by
  intro hmem
  obtain ⟨m, hm, rfl⟩ := exists_digitChar_of_mem_toDigits hb hmem
  exact hc m hm rfl

/-- A character that is no digit ends a number. -/
theorem toDigits_append_cons_inj {b m n : Nat} (hb : 1 < b) (hle : b ≤ 16)
    (hc : ∀ m < b, Nat.digitChar m ≠ c)
    (h : Nat.toDigits b m ++ c :: rest = Nat.toDigits b n ++ c :: rest') :
    m = n ∧ rest = rest' := by
  obtain ⟨hdigits, hrest⟩ := append_cons_inj (not_mem_toDigits hb hc) (not_mem_toDigits hb hc) h
  exact ⟨toDigits_injective hb hle hdigits, hrest⟩

/-! ## Quotes -/

/-- The characters that have a letter inside quotes, with their letters. -/
def escapeLetters : List (Char × Char) :=
  [('"', '"'), ('\\', '\\'), ('\t', 't'), ('\n', 'n'), ('\r', 'r'), ('\x00', '0')]

/-- How a character is written inside quotes: with a backslash and its letter if it has one, by its
code point in braces, or as itself if it prints and neither ends the text nor begins an escape. -/
inductive Escaped : Char → List Char → Prop
  | letter {c letter : Char} (mem : (c, letter) ∈ escapeLetters) : Escaped c ['\\', letter]
  | code (c : Char) :
      Escaped c ('\\' :: 'u' :: '\x7b' :: (Nat.toDigits 16 c.toNat ++ ['\x7d']))
  | plain {c : Char} (quote : c ≠ '"') (backslash : c ≠ '\\') (prints : isUnprintable c = false) :
      Escaped c [c]

/-- Each character is written in one of these ways. -/
theorem escaped_escape (c : Char) : Escaped c (escape c) := by
  unfold escape
  split
  case h_1 | h_2 | h_3 | h_4 | h_5 | h_6 => exact .letter (by decide)
  case h_7 hquote hbackslash _ _ _ _ =>
    split
    · exact .code c
    · rename_i hprints
      exact .plain hquote hbackslash (Bool.eq_false_iff.2 hprints)

/-- No two characters have the same letter, and no letter begins a code point. -/
theorem escapeLetters_unique : ∀ entry ∈ escapeLetters, entry.2 ≠ 'u' ∧
    ∀ other ∈ escapeLetters, entry.2 = other.2 → entry.1 = other.1 := by
  decide

/-- What is written for a character inside quotes can be told apart from whatever follows it. -/
theorem Escaped.append_inj (hc : Escaped c cs) (hd : Escaped d ds)
    (h : cs ++ rest = ds ++ rest') : c = d ∧ rest = rest' := by
  cases hc with
  | letter mem =>
      obtain ⟨hno, hunique⟩ := escapeLetters_unique _ mem
      cases hd with
      | letter mem' =>
          obtain ⟨hletter, hrest⟩ := List.cons.inj (List.cons.inj h).2
          exact ⟨hunique _ mem' hletter, hrest⟩
      | code => exact absurd (List.cons.inj (List.cons.inj h).2).1 hno
      | plain _ backslash => exact absurd (List.cons.inj h).1.symm backslash
  | code =>
      cases hd with
      | letter mem' =>
          exact absurd (List.cons.inj (List.cons.inj h).2).1.symm (escapeLetters_unique _ mem').1
      | code =>
          simp only [List.cons_append, List.append_assoc, List.nil_append, List.cons.injEq,
            true_and] at h
          obtain ⟨hpoint, hrest⟩ :=
            toDigits_append_cons_inj (by decide) (by decide) (by decide) h
          exact ⟨Char.toNat_inj.1 hpoint, hrest⟩
      | plain _ backslash => exact absurd (List.cons.inj h).1.symm backslash
  | plain _ backslash =>
      cases hd with
      | letter | code => exact absurd (List.cons.inj h).1 backslash
      | plain => exact List.cons.inj h

/-- What is written for a character inside quotes does not begin with a quote. -/
theorem Escaped.exists_cons (h : Escaped c cs) : ∃ d ds, cs = d :: ds ∧ d ≠ '"' := by
  cases h with
  | letter | code => exact ⟨_, _, rfl, by decide⟩
  | plain quote => exact ⟨_, _, rfl, quote⟩

/-- A line feed is not written as it is. -/
theorem Escaped.newline_not_mem (h : Escaped c cs) : '\n' ∉ cs := by
  cases h with
  | letter mem =>
      have hletters : ∀ entry ∈ escapeLetters, '\n' ∉ ['\\', entry.2] := by decide
      exact hletters _ mem
  | code =>
      have hdigits : '\n' ∉ Nat.toDigits 16 c.toNat := not_mem_toDigits (by decide) (by decide)
      simpa using hdigits
  | plain quote backslash prints =>
      intro hmem
      rw [← List.mem_singleton.1 hmem] at prints
      cases prints

/-- Quoted text can be told apart from whatever follows it. -/
theorem selfDelimiting_quote : SelfDelimiting fun s => (quote s).toList := by
  have hescape : SelfDelimiting escape := fun c d _ _ h =>
    (escaped_escape c).append_inj (escaped_escape d) h
  intro s t rest rest' h
  simp only [quote, String.toList_ofList, List.cons_append] at h
  obtain ⟨hchars, hrest⟩ := hescape.flatMap_append_singleton
    (fun c => (escaped_escape c).exists_cons) (List.cons.inj h).2
  exact ⟨String.toList_inj.1 hchars, hrest⟩

/-- Quoted text is on one line. -/
theorem newline_not_mem_quote (s : String) : '\n' ∉ (quote s).toList := by
  have hescaped : ∀ c ∈ s.toList, '\n' ∉ escape c := fun c _ => (escaped_escape c).newline_not_mem
  simpa [quote] using hescaped

/-- A quote inside quoted text does not end it. -/
example : quote "a\" -> $1\n" = "\"a\\\" -> $1\\n\"" := by decide

end Dataflow.Text
