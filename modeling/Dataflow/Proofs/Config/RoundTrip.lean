import Dataflow.Proofs.Config.Rate
import Mathlib.Data.List.Nodup

/-!
# Configuration text is read back

A document has a line for each of some fields, in any order, and what it lacks is as in the default
(`Config.ofText_document`). The text of a configuration is such a document, so it is read back as
the configuration, except that two rates are read as their neighbours (`Config.text_reads_back`).
-/

namespace Dataflow

open Binary.Single (reread)
open Toml (Denotes Line)

/-- A field of a configuration, which is the rate, the mode or the seed, and its value. -/
inductive Setting where
  | rate (x : Float32)
  | throttle (mode : ThrottleMode)
  | seed (n : UInt64)

namespace Setting

/-- The key of the field. -/
def key : Setting → String
  | rate _ => Config.rateKey
  | throttle _ => Config.throttleKey
  | seed _ => Config.seedKey

/-- How the value is written. -/
def value : Setting → String
  | rate x => Binary.Single.text .document x
  | throttle mode => "\"" ++ mode.word ++ "\""
  | seed n => toString n

/-- The line of the field. -/
def text (s : Setting) : String := s.key ++ " = " ++ s.value ++ "\n"

/-- The rate that is read in the line. -/
def rate? : Setting → Option Float32
  | rate x => some (reread x)
  | _ => none

/-- The mode that is read in the line. -/
def throttle? : Setting → Option ThrottleMode
  | throttle mode => some mode
  | _ => none

/-- The seed that is read in the line. -/
def seed? : Setting → Option UInt64
  | seed n => some n
  | _ => none

/-- The keys are those of different fields. -/
theorem isSome_iff (s : Setting) : (s.rate?.isSome ↔ s.key = Config.rateKey) ∧
    (s.throttle?.isSome ↔ s.key = Config.throttleKey) ∧
    (s.seed?.isSome ↔ s.key = Config.seedKey) := by
  cases s <;>
    simp [rate?, throttle?, seed?, key, Config.rateKey, Config.throttleKey, Config.seedKey]

/-- The item stands for the value, once read as the rate, the mode or the seed. -/
structure IsItem (s : Setting) (i : Toml.Item) : Prop where
  rate : ∀ x, s.rate? = some x → Config.rateOf? i = some x
  throttle : ∀ mode, s.throttle? = some mode → Config.throttleOf? i = some mode
  seed : ∀ n, s.seed? = some n → Config.seedOf? i = some n

/-- The value of a field is written so that it is read. -/
theorem exists_denotes (s : Setting) : ∃ i, Denotes s.value.toList i ∧ s.IsItem i := by
  cases s with
  | rate x =>
      obtain ⟨y, hy, hnarrow⟩ := Binary.Single.denotes_text x
      refine ⟨.float y, hy, ?_, by simp [throttle?], by simp [seed?]⟩
      rintro z hz
      rw [Config.rateOf?, hnarrow]
      exact hz
  | throttle mode =>
      have hword : mode.word.toList.all Toml.isPlain = true := by
        cases mode <;> decide
      have hvalue : (value (throttle mode)).toList = '"' :: (mode.word.toList ++ ['"']) := by
        simp [value]
      refine ⟨.text mode.word, ?_, by simp [rate?], ?_, by simp [seed?]⟩
      · rw [hvalue]
        simpa using Toml.denotes_quoted (List.all_eq_true.1 hword)
      · rintro other hother
        cases hother
        cases mode <;> rfl
  | seed n =>
      have hlt : n.toNat < 2 ^ 64 := n.toNat_lt
      have hvalue : (value (seed n)).toList = Nat.toDigits 10 n.toNat := Nat.toList_repr
      refine ⟨.integer n.toNat, ?_, by simp [rate?], by simp [throttle?], ?_⟩
      · have hrange : Toml.inIntegerRange n.toNat = true := by
          simp [Toml.inIntegerRange]
          omega
        rw [hvalue]
        exact Toml.denotes_toDigits hrange
      · rintro other hother
        cases hother
        have hrange : (0 ≤ (n.toNat : Int) && (n.toNat : Int) < UInt64.size) = true := by
          simp [UInt64.size]
          omega
        have hwhole : ((n.toNat : Int) % 2 ^ 64).toNat = n.toNat := by omega
        rw [Config.seedOf?, if_pos hrange, UInt64.ofInt, hwhole, UInt64.ofNat_toNat]

/-- The keys need no quotes. -/
theorem isBare_key (s : Setting) : Toml.IsBare s.key := by
  cases s with
  | rate x => exact (by decide : Toml.IsBare Config.rateKey)
  | throttle mode => exact (by decide : Toml.IsBare Config.throttleKey)
  | seed n => exact (by decide : Toml.IsBare Config.seedKey)

/-- The line of a field, with its item. -/
theorem exists_line (s : Setting) :
    ∃ l : Line, l.WellFormed ∧ l.name = s.key ∧ l.chars = s.text.toList ∧ s.IsItem l.item := by
  obtain ⟨i, hi, hitem⟩ := s.exists_denotes
  refine ⟨⟨s.key, s.value.toList, i⟩, ⟨s.isBare_key, hi⟩, rfl, ?_, hitem⟩
  simp [Line.chars, text]

/-- What is found under the key of a field is the item of that field. -/
theorem lookup_of_mem {settings : List Setting} (hkeys : (settings.map key).Nodup)
    (item : Setting → Toml.Item) {s : Setting} (h : s ∈ settings) :
    (settings.map fun s => (s.key, item s)).lookup s.key = some (item s) := by
  induction settings with
  | nil => cases h
  | cons first settings ih =>
      rw [List.map_cons, List.nodup_cons] at hkeys
      rw [List.map_cons, List.lookup_cons]
      rcases List.mem_cons.1 h with rfl | h
      · rw [beq_self_eq_true]
      · have hne : s.key ≠ first.key := fun heq => hkeys.1 (heq ▸ List.mem_map_of_mem h)
        rw [beq_eq_false_iff_ne.2 hne]
        exact ih hkeys.2 h

/-- Under another key nothing is found. -/
theorem lookup_of_forall_ne {settings : List Setting} (item : Setting → Toml.Item) {k : String}
    (h : ∀ s ∈ settings, s.key ≠ k) :
    (settings.map fun s => (s.key, item s)).lookup k = none := by
  rw [List.lookup_eq_none_iff]
  simpa using fun s hs => (h s hs).symm

/-- A field is read from its line, and without a line it is as in the default. -/
theorem exists_field {α : Type} {settings : List Setting} (hkeys : (settings.map key).Nodup)
    (item : Setting → Toml.Item) (k : String) (field? : Setting → Option α)
    (read? : Toml.Item → Option α) (initial : α)
    (hfield : ∀ s, (field? s).isSome ↔ s.key = k)
    (hread : ∀ s a, field? s = some a → read? (item s) = some a) :
    ∃ a, ((settings.map fun s => (s.key, item s)).lookup k).elim (some initial) read? = some a ∧
      (∀ s ∈ settings, ∀ b, field? s = some b → a = b) ∧
      ((∀ s ∈ settings, field? s = none) → a = initial) := by
  by_cases hpresent : ∃ s ∈ settings, s.key = k
  · obtain ⟨s, hs, rfl⟩ := hpresent
    obtain ⟨a, ha⟩ := Option.isSome_iff_exists.1 ((hfield s).2 rfl)
    have hlookup := lookup_of_mem hkeys item hs
    refine ⟨a, by rw [hlookup]; exact hread s a ha, fun s' hs' b hb => ?_, fun hnone => ?_⟩
    · have hkey : s'.key = s.key := (hfield s').1 (hb ▸ rfl)
      obtain rfl : s' = s := List.inj_on_of_nodup_map hkeys hs' hs hkey
      exact Option.some.inj (ha.symm.trans hb)
    · rw [hnone s hs] at ha
      cases ha
  · have habsent : ∀ s ∈ settings, s.key ≠ k := fun s hs heq => hpresent ⟨s, hs, heq⟩
    refine ⟨initial, by rw [lookup_of_forall_ne item habsent]; rfl, fun s hs b hb => ?_,
      fun _ => rfl⟩
    exact absurd ((hfield s).1 (hb ▸ rfl)) (habsent s hs)

end Setting

namespace Config

open Binary.Single (magnitude isNegative ofMagnitude)

/-- A document with a line for each of some fields. -/
def document (settings : List Setting) : String := .join (settings.map Setting.text)

/-- The fields of a configuration that are written. -/
def settings (c : Config) : List Setting :=
  .rate c.rate :: .throttle c.throttle :: c.seed.toList.map .seed

/-- The text of a configuration has a line for each field that there is. -/
theorem text_eq (c : Config) : c.text = document c.settings := by
  obtain ⟨rate, throttle, seed⟩ := c
  apply String.toList_injective
  cases seed with
  | none => simp [text, document, settings, Setting.text, Setting.key, Setting.value]
  | some n => simp [text, document, settings, Setting.text, Setting.key, Setting.value]

/-- A document is read as a table with the items of its lines. -/
theorem exists_items {settings : List Setting} (hkeys : (settings.map Setting.key).Nodup) :
    ∃ item : Setting → Toml.Item, (∀ s : Setting, s.IsItem (item s)) ∧
      Toml.parse? (document settings) = some (settings.map fun s => (s.key, item s)) := by
  choose line hformed hname hchars hitem using Setting.exists_line
  have hdocument : document settings = .ofList ((settings.map line).flatMap Line.chars) := by
    apply String.toList_injective
    rw [document, String.toList_join, String.toList_ofList, List.flatMap_map, List.flatMap_map]
    exact List.flatMap_congr fun s _ => (hchars s).symm
  have hentries : (settings.map line).map Line.entry =
      settings.map fun s => (s.key, (line s).item) := by
    simp [Line.entry, hname]
  refine ⟨fun s => (line s).item, hitem, ?_⟩
  rw [hdocument, Toml.parse?_lines, hentries]
  · simpa using fun s _ => hformed s
  · simpa [Function.comp_def, hname] using hkeys

/-- What stands in a document is read, and what it lacks is as in the default. -/
theorem ofText_document {settings : List Setting} (hkeys : (settings.map Setting.key).Nodup) :
    ∃ c, ofText (document settings) = .ok c ∧
      (∀ x, .rate x ∈ settings → c.rate = reread x) ∧
      ((∀ x, .rate x ∉ settings) → c.rate = default.rate) ∧
      (∀ mode, .throttle mode ∈ settings → c.throttle = mode) ∧
      ((∀ mode, .throttle mode ∉ settings) → c.throttle = default.throttle) ∧
      (∀ n, .seed n ∈ settings → c.seed = some n) ∧
      ((∀ n, .seed n ∉ settings) → c.seed = default.seed) := by
  obtain ⟨item, hitem, hparse⟩ := exists_items hkeys
  obtain ⟨rate, hrate, hrates, hrate'⟩ := Setting.exists_field hkeys item rateKey Setting.rate?
    rateOf? default.rate (fun s => s.isSome_iff.1) fun s => (hitem s).rate
  obtain ⟨mode, hmode, hmodes, hmode'⟩ := Setting.exists_field hkeys item throttleKey
    Setting.throttle? throttleOf? default.throttle (fun s => s.isSome_iff.2.1)
    fun s => (hitem s).throttle
  have hread (s : Setting) (a : Option UInt64) (ha : s.seed?.map some = some a) :
      (seedOf? (item s)).map some = some a := by
    obtain ⟨n, hn, rfl⟩ := Option.map_eq_some_iff.1 ha
    rw [(hitem s).seed n hn, Option.map_some]
  obtain ⟨seed, hseed, hseeds, hseed'⟩ := Setting.exists_field hkeys item seedKey
    (fun s => s.seed?.map some) (fun i => (seedOf? i).map some) default.seed
    (fun s => by rw [Option.isSome_map]; exact s.isSome_iff.2.2) hread
  refine ⟨⟨rate, mode, seed⟩, ?_, fun x hx => hrates _ hx _ rfl, fun h => hrate' ?_,
    fun m hm => hmodes _ hm _ rfl, fun h => hmode' ?_, fun n hn => hseeds _ hn _ rfl,
    fun h => hseed' ?_⟩
  · have hentries : ofEntries? (settings.map fun s => (s.key, item s)) =
        some ⟨rate, mode, seed⟩ := by
      rw [ofEntries?, hrate, hmode, hseed]
      rfl
    rw [ofText, hparse, Option.bind_some, hentries]
  · rintro ⟨⟩ hs
    · exact absurd hs (h _)
    · rfl
    · rfl
  · rintro ⟨⟩ hs
    · rfl
    · exact absurd hs (h _)
    · rfl
  · rintro ⟨⟩ hs
    · rfl
    · rfl
    · exact absurd hs (h _)

/-- The text of a configuration is read as the configuration with the rate that the text of its rate
is read as. -/
theorem ofText_text (c : Config) : ofText c.text = .ok { c with rate := reread c.rate } := by
  have hkeys : (c.settings.map Setting.key).Nodup := by
    obtain ⟨rate, throttle, seed⟩ := c
    cases seed <;> simp [settings, Setting.key, rateKey, throttleKey, seedKey]
  obtain ⟨c', hread, hrate, -, hthrottle, -, hseed, hseed'⟩ := ofText_document hkeys
  have hrate := hrate c.rate (by simp [settings])
  have hthrottle := hthrottle c.throttle (by simp [settings])
  have hseed : c'.seed = c.seed := by
    cases h : c.seed with
    | none => exact hseed' (by simp [settings, h])
    | some n => exact hseed n (by simp [settings, h])
  obtain ⟨rate, throttle, seed⟩ := c'
  rw [text_eq, hread]
  subst hrate hthrottle hseed
  rfl

/-- What is read is equal to the configuration, unless its rate has the one magnitude or is no
number. -/
theorem beq_reread_iff (c : Config) : ({ c with rate := reread c.rate } == c) = true ↔
    ¬ c.rate.isNaN ∧ magnitude c.rate ≠ 0x15ae43fd := by
  rw [← Binary.Single.reread_beq_iff]
  show (reread c.rate == c.rate && c.throttle == c.throttle && c.seed == c.seed) = true ↔ _
  simp

/-- Configuration text is read back: the text of a configuration as the configuration, with a rate
of one magnitude read as its neighbour, and a document with a line for each of some fields, in any
order, as a configuration that has these fields and otherwise those of the default. -/
theorem text_reads_back :
    (∀ c : Config, ¬ c.rate.isNaN → magnitude c.rate ≠ 0x15ae43fd →
      ofText c.text = .ok c ∧ (c == c) = true) ∧
    (∀ c : Config, magnitude c.rate = 0x15ae43fd →
      ofText c.text = .ok { c with rate := ofMagnitude (isNegative c.rate) 0x15ae43fe }) ∧
    ∀ settings : List Setting, (settings.map Setting.key).Nodup →
      ∃ c, ofText (document settings) = .ok c ∧
        (∀ x, .rate x ∈ settings → c.rate = reread x) ∧
        ((∀ x, .rate x ∉ settings) → c.rate = default.rate) ∧
        (∀ mode, .throttle mode ∈ settings → c.throttle = mode) ∧
        ((∀ mode, .throttle mode ∉ settings) → c.throttle = default.throttle) ∧
        (∀ n, .seed n ∈ settings → c.seed = some n) ∧
        ((∀ n, .seed n ∉ settings) → c.seed = default.seed) := by
  refine ⟨fun c hnumber hrate => ?_, fun c hrate => ?_, fun _ => ofText_document⟩
  · have hsame : reread c.rate = c.rate := if_neg hrate
    have htext := c.ofText_text
    have hequal := c.beq_reread_iff.2 ⟨hnumber, hrate⟩
    rw [hsame] at htext hequal
    exact ⟨htext, hequal⟩
  · rw [ofText_text, reread, if_pos hrate]

/-- Two of the fields, in the other order: the mode is that of the default. -/
theorem seed_rate_read_back :
    document [.seed 7, .rate (.ofBits 0x41f00000)] = "seed = 7\nupdates_per_second = 30.0\n" ∧
    ∃ c, ofText (document [.seed 7, .rate (.ofBits 0x41f00000)]) = .ok c ∧
      c.rate = .ofBits 0x41f00000 ∧ c.throttle = .reset ∧ c.seed = some 7 := by
  have hreread : reread (.ofBits 0x41f00000) = .ofBits 0x41f00000 := if_neg (by decide)
  obtain ⟨c, hread, hrate, -, -, hthrottle, hseed, -⟩ :=
    text_reads_back.2.2 [.seed 7, .rate (.ofBits 0x41f00000)] (by decide)
  exact ⟨by decide +kernel, c, hread, (hrate _ (by simp)).trans hreread, hthrottle (by simp),
    hseed 7 (by simp)⟩

/-- A configuration with a rate of the one magnitude, 7.038531e-26. -/
def misread : Config := ⟨.ofBits 0x15ae43fd, .reset, none⟩

/-- The rate is a number, but the text is not read as an equal configuration. -/
theorem misread_text :
    ¬ misread.rate.isNaN ∧ ¬ ∃ c, ofText misread.text = .ok c ∧ (c == misread) = true := by
  have hmagnitude : magnitude misread.rate = 0x15ae43fd := by decide
  refine ⟨by decide, ?_⟩
  rintro ⟨c, hread, heq⟩
  rw [ofText_text] at hread
  cases hread
  exact ((beq_reread_iff misread).1 heq).2 hmagnitude

end Config

end Dataflow
