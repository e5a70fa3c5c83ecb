import Dataflow.Toml.Document
import Dataflow.Proofs.Toml.Number

/-!
# Reading lines

A document of lines with a name and an item each is read as these items (`parse?_lines`).
-/

namespace Dataflow.Toml

open Reader

variable {α β : Type} {c : Char} {cs rest word : List Char} {name : String} {i : Item}

/-! ## Steps of a reader -/

/-- What a reader takes first is taken off the text for the reader after it. -/
theorem run_bind {x : Reader α} {a : α} (h : x.run cs = some (a, rest)) (f : α → Reader β) :
    (x >>= f).run cs = (f a).run rest := by
  rw [StateT.run_bind, h]
  rfl

/-- What is left is looked at without being taken. -/
theorem run_rest (cs : List Char) : Reader.rest.run cs = some (cs, cs) := rfl

/-- The front is taken up to the first character that does not belong to it. -/
theorem run_takeWhile {p : Char → Bool} (h : ∀ c ∈ cs, p c = true)
    (hrest : ∀ c ∈ rest.head?, p c = false) :
    (Reader.takeWhile p).run (cs ++ rest) = some (cs, rest) := by
  have hstop : rest.takeWhile p = [] ∧ rest.dropWhile p = rest := by
    cases rest with
    | nil => exact ⟨rfl, rfl⟩
    | cons c rest => simp [hrest c rfl]
  show some ((cs ++ rest).takeWhile p, (cs ++ rest).dropWhile p) = _
  rw [List.takeWhile_append_of_pos h, List.dropWhile_append_of_pos h, hstop.1, hstop.2,
    List.append_nil]

/-- Where there are no blanks none are taken. -/
theorem run_blanks (h : ∀ c ∈ cs.head?, isBlank c = false) : blanks.run cs = some ((), cs) :=
  run_bind (run_takeWhile (List.forall_mem_nil _) h) fun _ => pure ()

/-- A space is taken. -/
theorem run_blanks_cons (h : ∀ c ∈ cs.head?, isBlank c = false) :
    blanks.run (' ' :: cs) = some ((), cs) :=
  run_bind (run_takeWhile (List.forall_mem_singleton.2 rfl) h) fun _ => pure ()

/-- The expected character is taken. -/
theorem run_char (c : Char) (cs : List Char) : (Reader.char c).run (c :: cs) = some ((), cs) :=
  if_pos rfl

/-- Another character is not taken. -/
theorem run_char? (h : ∀ d ∈ cs.head?, d ≠ c) : (char? c).run cs = some (false, cs) := by
  cases cs with
  | nil => rfl
  | cons d cs => exact if_neg (h d rfl)

/-! ## Keys -/

/-- A name of letters, digits, bars and underscores, at least one of them, needs no quotes. -/
structure IsBare (name : String) : Prop where
  ne : name.toList ≠ []
  bare : name.toList.all isBareKey = true

/-- Whether a name needs quotes shows from its characters. -/
instance (name : String) : Decidable (IsBare name) :=
  decidable_of_iff (name.toList ≠ [] ∧ name.toList.all isBareKey = true)
    ⟨fun h => ⟨h.1, h.2⟩, fun h => ⟨h.ne, h.bare⟩⟩

/-- What can stand in a token is no blank. -/
theorem not_isBlank_of_isScalar (h : isScalar c = true) : isBlank c = false := by
  simp [isBlank, ne_of_kind h (by decide : isScalar ' ' = false),
    ne_of_kind h (by decide : isScalar '\t' = false)]

/-- What can stand in a name is no blank. -/
theorem not_isBlank_of_isBareKey (h : isBareKey c = true) : isBlank c = false :=
  not_isBlank_of_isScalar (by simp [isScalar, h])

/-- What begins a name begins the text that begins with the name. -/
theorem IsBare.exists_cons (h : IsBare name) :
    ∃ c cs, name.toList = c :: cs ∧ isBareKey c = true := by
  obtain ⟨c, cs, heq⟩ := List.exists_cons_of_ne_nil h.ne
  exact ⟨c, cs, heq, List.all_eq_true.1 h.bare c (heq ▸ List.mem_cons_self)⟩

/-- A name without quotes is taken as a part of a key. -/
theorem run_keyPart (h : IsBare name) (hrest : ∀ c ∈ rest.head?, isBareKey c = false) :
    keyPart.run (name.toList ++ rest) = some (name, rest) := by
  obtain ⟨c, cs, heq, hc⟩ := h.exists_cons
  have htake := run_takeWhile (List.all_eq_true.1 h.bare) hrest
  rw [keyPart, run_bind (run_rest _)]
  split
  · rename_i heq'
    rw [heq] at heq'
    exact absurd (List.cons.inj heq').1 (ne_of_kind hc rfl)
  · rename_i heq'
    rw [heq] at heq'
    exact absurd (List.cons.inj heq').1 (ne_of_kind hc rfl)
  · rw [run_bind htake, if_neg (by simpa using h.ne), String.ofList_toList]
    rfl

/-- A name without quotes is taken as a key. -/
theorem run_key (h : IsBare name) (hrest : ∀ c ∈ rest.head?, isBlank c = false ∧ c ≠ '.') :
    key.run (name.toList ++ ' ' :: rest) = some ([name], rest) := by
  obtain ⟨c, cs, heq, hc⟩ := h.exists_cons
  have hfirst : ∀ d ∈ (name.toList ++ ' ' :: rest).head?, isBlank d = false := by
    rw [heq]
    rintro d hd
    exact Option.some.inj hd ▸ not_isBlank_of_isBareKey hc
  show (keyPath (79 + 1)).run _ = _
  rw [keyPath, run_bind (run_blanks hfirst), run_bind (run_keyPart h (by simp; decide)),
    run_bind (run_blanks_cons fun c hc => (hrest c hc).1),
    run_bind (run_char? fun c hc => (hrest c hc).2)]
  rfl

/-! ## Items -/

/-- The text stands for an item: it does not begin with a blank, and at the end of a line it is
taken as the item. -/
structure Denotes (cs : List Char) (i : Item) : Prop where
  head : ∀ c ∈ cs.head?, isBlank c = false
  run : ∀ rest, (item maxDepth).run (cs ++ '\n' :: rest) = some (i, '\n' :: rest)

/-- What begins with neither a bracket nor a brace is no array and no inline table. -/
theorem run_item (h : ∀ c ∈ cs.head?, c ≠ '[' ∧ c ≠ '\x7b') (depth : Nat) :
    (item (depth + 1)).run cs = plainItem.run cs := by
  rw [item, run_bind (run_rest _)]
  split
  · exact absurd rfl (h _ rfl).1
  · exact absurd rfl (h _ rfl).2
  · rfl

/-- A token without quotes stands for what it is read as. -/
theorem denotes_scalar (hscalar : ∀ c ∈ cs, isScalar c = true) (h : scalarOf? cs = some i) :
    Denotes cs i := by
  have hhead (rest : List Char) {d : Char} (hd : d ∈ (cs ++ '\n' :: rest).head?) :
      isScalar d = true ∨ d = '\n' := by
    cases cs with
    | nil => exact .inr (Option.some.inj hd).symm
    | cons c cs => exact .inl (Option.some.inj hd ▸ hscalar c List.mem_cons_self)
  have hother (rest : List Char) {d e : Char} (hd : d ∈ (cs ++ '\n' :: rest).head?)
      (hscalar : isScalar e = false) (hline : '\n' ≠ e) : d ≠ e := by
    rcases hhead rest hd with hd | rfl
    · exact ne_of_kind hd hscalar
    · exact hline
  refine ⟨fun c hc => not_isBlank_of_isScalar (hscalar c (List.mem_of_mem_head? hc)),
    fun rest => ?_⟩
  have htoken : (timeAfterDate cs).run ('\n' :: rest) = some (cs, '\n' :: rest) := by
    rw [timeAfterDate, run_bind (run_rest _)]
    rfl
  show (item (79 + 1)).run _ = _
  rw [run_item fun d hd => ⟨hother rest hd (by decide) (by decide),
      hother rest hd (by decide) (by decide)⟩, plainItem, run_bind (run_rest _)]
  split
  · rename_i heq
    exact absurd rfl (hother rest (by rw [heq]; rfl) (by decide) (by decide))
  · rename_i heq
    exact absurd rfl (hother rest (by rw [heq]; rfl) (by decide) (by decide))
  · rw [scalar, run_bind (run_takeWhile hscalar (by simp; decide)), run_bind htoken, h]
    rfl

/-- A digit can stand in a token. -/
theorem isScalar_of_isDigit (h : c.isDigit = true) : isScalar c = true := by
  simp [isScalar, isBareKey, Char.isAlphanum, h]

/-- The digits of a number stand for the number, if that is in range. -/
theorem denotes_toDigits {n : Nat} (h : inIntegerRange n = true) :
    Denotes (Nat.toDigits 10 n) (.integer n) := by
  have hdigits := allDigits_toDigits n
  have hfirst {d : Char} {rest : List Char} (hd : d.isDigit = false) :
      Nat.toDigits 10 n ≠ d :: rest :=
    fun heq => ne_of_kind (hdigits d (heq ▸ List.mem_cons_self)) hd rfl
  refine denotes_scalar (fun c hc => isScalar_of_isDigit (hdigits c hc)) ?_
  rw [scalarOf?, if_neg (hfirst rfl), if_neg (hfirst rfl), integer?_toDigits h]

/-- Whether the character needs no escape between quotes. -/
def isPlain (c : Char) : Bool := c != '"' && c != '\\' && !isControl c

/-- What is between quotes and needs no escapes is taken as it is. -/
theorem quoted?_append (h : ∀ c ∈ word, isPlain c = true) (rest : List Char) :
    quoted? (word ++ '"' :: rest) = some (word, rest) := by
  induction word with
  | nil => rw [List.nil_append, quoted?]
  | cons c word ih =>
      obtain ⟨hplain, hword⟩ := List.forall_mem_cons.1 h
      have hcontrol : isControl c = false := by simp_all [isPlain]
      rw [List.cons_append, quoted?, if_neg (by rw [hcontrol]; exact Bool.false_ne_true), ih hword]
      · rfl
      · exact ne_of_kind hplain rfl
      · exact ne_of_kind hplain rfl

/-- A word between quotes is taken. -/
theorem run_text (h : ∀ c ∈ word, isPlain c = true) (rest : List Char) :
    text.run ('"' :: (word ++ '"' :: '\n' :: rest)) = some (.ofList word, '\n' :: rest) := by
  have hline : lineText.run ('"' :: (word ++ '"' :: '\n' :: rest)) =
      some (.ofList word, '\n' :: rest) := by
    show (quoted? (word ++ '"' :: '\n' :: rest)).map _ = _
    rw [quoted?_append h]
    rfl
  -- no three quotes follow one another, so the text is on one line
  match word, h, hline with
  | [], _, hline => exact hline
  | c :: word, h, hline =>
      have hquote : c ≠ '"' := ne_of_kind (h c List.mem_cons_self) rfl
      show text ('"' :: c :: (word ++ '"' :: '\n' :: rest)) = _
      unfold text
      split
      · rename_i heq
        exact absurd (List.cons.inj (List.cons.inj heq).2).1 hquote
      · rename_i heq
        cases (List.cons.inj heq).1
      · exact hline

/-- A word between quotes stands for itself. -/
theorem denotes_quoted (h : ∀ c ∈ word, isPlain c = true) :
    Denotes ('"' :: (word ++ ['"'])) (.text (.ofList word)) := by
  refine ⟨by simp; rfl, fun rest => ?_⟩
  show (item (79 + 1)).run _ = _
  rw [run_item (by simp), plainItem, run_bind (run_rest _)]
  have htext := run_text h rest
  simp only [List.cons_append, List.append_assoc, List.nil_append]
  rw [run_bind htext]
  rfl

/-! ## Lines -/

/-- A name that is not there yet is added at the end. -/
theorem insertAt_name {entries : Entries} (h : entries.lookup name = none) (i : Item) :
    entries.insertAt [name] i = some (entries ++ [(name, i)]) := by
  show entries.insert name i = _
  rw [Entries.insert, h]
  rfl

/-- A name and an item with an equals sign between them are taken. -/
theorem run_assignment (hname : IsBare name) (hvalue : Denotes cs i) (rest : List Char) :
    (assignment blanks (item maxDepth)).run
        (name.toList ++ ' ' :: '=' :: ' ' :: (cs ++ '\n' :: rest)) =
      some (([name], i), '\n' :: rest) := by
  have hhead : ∀ c ∈ (cs ++ '\n' :: rest).head?, isBlank c = false := by
    cases cs with
    | nil => simp; rfl
    | cons c cs => exact hvalue.head
  rw [assignment, run_bind (run_key hname (by simp; rfl)), run_bind (run_blanks (by simp; rfl)),
    run_bind (run_char _ _), run_bind (run_blanks_cons hhead), run_bind (hvalue.run rest)]
  rfl

/-- The end of a line is taken, where there is no comment. -/
theorem run_endOfLine (rest : List Char) : endOfLine.run ('\n' :: rest) = some ((), rest) := rfl

/-- A name with its item is added to the table at hand. -/
theorem run_entry {entries : Entries} (hname : IsBare name) (hvalue : Denotes cs i)
    (hnew : entries.lookup name = none) (rest : List Char) :
    (entry ⟨entries, []⟩).run (name.toList ++ ' ' :: '=' :: ' ' :: (cs ++ '\n' :: rest)) =
      some (⟨entries ++ [(name, i)], []⟩, '\n' :: rest) := by
  have hadd : Entries.alterAt (fun inner => inner.insertAt [name] i) [] entries =
      some (entries ++ [(name, i)]) := insertAt_name hnew i
  rw [entry, run_bind (run_assignment hname hvalue rest)]
  dsimp only
  rw [hadd]
  rfl

/-- A line with a name and an item adds the item to the table at hand. -/
theorem run_line {entries : Entries} (hname : IsBare name) (hvalue : Denotes cs i)
    (hnew : entries.lookup name = none) (rest : List Char) :
    (line ⟨entries, []⟩).run (name.toList ++ ' ' :: '=' :: ' ' :: (cs ++ '\n' :: rest)) =
      some (⟨entries ++ [(name, i)], []⟩, rest) := by
  have hentry := run_entry hname hvalue hnew rest
  have hcomment : comment.run ('\n' :: rest) = some ((), '\n' :: rest) := rfl
  obtain ⟨c, cs, heq, hc⟩ := hname.exists_cons
  rw [heq, List.cons_append] at hentry ⊢
  have hblank {cs : List Char} : ∀ d ∈ (c :: cs).head?, isBlank d = false := by
    rintro d hd
    exact Option.some.inj hd ▸ not_isBlank_of_isBareKey hc
  rw [line, run_bind (run_blanks hblank), run_bind (run_rest _)]
  dsimp only
  split
  · rename_i heq
    cases heq
  · rename_i heq
    exact absurd (List.cons.inj heq).1 (ne_of_kind hc rfl)
  · rename_i heq
    exact absurd (List.cons.inj heq).1 (ne_of_kind hc rfl)
  · rename_i heq
    exact absurd (List.cons.inj heq).1 (ne_of_kind hc rfl)
  · rename_i heq
    exact absurd (List.cons.inj heq).1 (ne_of_kind hc rfl)
  · rw [run_bind hentry, run_bind (run_blanks (by simp; rfl)), run_bind hcomment,
      run_bind (run_endOfLine rest)]
    rfl

/-- A line with a name, what is written for an item, and the item. -/
structure Line where
  name : String
  value : List Char
  item : Item

namespace Line

/-- How a line is written. -/
def chars (l : Line) : List Char := l.name.toList ++ ' ' :: '=' :: ' ' :: (l.value ++ ['\n'])

/-- What a line adds to a table. -/
def entry (l : Line) : String × Item := (l.name, l.item)

/-- There are no more lines than characters. -/
theorem length_le_length_chars (ls : List Line) : ls.length ≤ (ls.flatMap chars).length := by
  induction ls with
  | nil => exact Nat.le_refl 0
  | cons l ls ih =>
      rw [List.flatMap_cons, List.length_append, List.length_cons, chars, List.length_append,
        List.length_cons]
      omega

/-- A line whose name needs no quotes and whose value stands for its item. -/
structure WellFormed (l : Line) : Prop where
  bare : IsBare l.name
  denotes : Denotes l.value l.item

end Line

/-- Nothing is read where nothing is left. -/
theorem run_lines_nil (count : Nat) (entries : Entries) :
    (lines (count + 1) ⟨entries, []⟩).run [] = some (entries, []) := rfl

/-- Lines with new names are read as their items. -/
theorem run_lines {ls : List Line} (h : ∀ l ∈ ls, l.WellFormed) {entries : Entries}
    (hnew : ∀ l ∈ ls, entries.lookup l.name = none) (hnames : (ls.map Line.name).Nodup)
    {count : Nat} (hcount : ls.length ≤ count) :
    (lines (count + 1) ⟨entries, []⟩).run (ls.flatMap Line.chars) =
      some (entries ++ ls.map Line.entry, []) := by
  induction ls generalizing entries count with
  | nil => simpa using run_lines_nil count entries
  | cons l ls ih =>
      obtain ⟨hl, hls⟩ := List.forall_mem_cons.1 h
      obtain ⟨hfirst, hothers⟩ := List.forall_mem_cons.1 hnew
      rw [List.map_cons, List.nodup_cons] at hnames
      obtain ⟨count, rfl⟩ : ∃ more, count = more + 1 := ⟨count - 1, by simp at hcount; omega⟩
      have hline := run_line hl.bare hl.denotes hfirst (ls.flatMap Line.chars)
      have hchars : (l :: ls).flatMap Line.chars =
          l.name.toList ++ ' ' :: '=' :: ' ' :: (l.value ++ '\n' :: ls.flatMap Line.chars) := by
        simp [Line.chars]
      have hnext : ∀ l' ∈ ls, (entries ++ [l.entry]).lookup l'.name = none := by
        intro l' hl'
        have hne : l'.name ≠ l.name := fun heq => hnames.1 (heq ▸ List.mem_map_of_mem hl')
        rw [List.lookup_append, hothers l' hl', Option.none_or, Line.entry, List.lookup_cons,
          beq_eq_false_iff_ne.2 hne]
        rfl
      have hrest := ih hls hnext hnames.2 (Nat.le_of_succ_le_succ hcount)
      have hentries : entries ++ (l :: ls).map Line.entry =
          entries ++ [l.entry] ++ ls.map Line.entry := by simp
      rw [lines, hchars, run_bind hline, run_bind (run_rest _), hentries]
      split
      · rename_i hempty
        rw [List.isEmpty_iff] at hempty
        rw [hempty] at hrest ⊢
        exact hrest
      · exact hrest

/-- A document of lines with different names is read as their items. -/
theorem parse?_lines {ls : List Line} (h : ∀ l ∈ ls, l.WellFormed)
    (hnames : (ls.map Line.name).Nodup) :
    parse? (.ofList (ls.flatMap Line.chars)) = some (ls.map Line.entry) := by
  have hmark : characters (.ofList (ls.flatMap Line.chars)) = ls.flatMap Line.chars := by
    rw [characters, String.toList_ofList]
    split
    · rename_i heq
      cases ls with
      | nil => cases heq
      | cons l ls =>
          obtain ⟨c, cs, hname, hc⟩ := (h l List.mem_cons_self).bare.exists_cons
          rw [List.flatMap_cons, Line.chars, hname] at heq
          exact absurd (List.cons.inj heq).1 (ne_of_kind hc (by decide))
    · rfl
  rw [parse?, hmark, run_lines h (fun _ _ => rfl) hnames (Line.length_le_length_chars ls)]
  rfl

end Dataflow.Toml
