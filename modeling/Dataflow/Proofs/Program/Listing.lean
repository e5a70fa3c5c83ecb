import Dataflow.Program.Listing
import Dataflow.Proofs.Program.Computation
import Dataflow.Proofs.Program.Validity
import Dataflow.Proofs.Text.Delimited

/-!
# What a listing shows

The outline of a program is all of its layout: slots, parameters by name, and what each instruction
reads and writes. The listing of a program that was compiled shows its outline, whatever the names
of the parameters, if no name of an operation has a line feed or an opening bracket in it
(`compile_listing_shows_outline`). A listing falls into lines at its line feeds
(`Program.splitOn_listing`), the kind of a line is known from its first character, and the parts of
a line are read off from the left to the right: each of them shows where it ends.
-/

namespace Dataflow

open Text (SelfDelimiting append_cons_inj toDigits_append_cons_inj not_mem_toDigits)

/-! ## Parts of lines -/

namespace OpId

/-- The characters of an identifier. -/
theorem toList_text (op : OpId) : op.text.toList =
    '(' :: (Nat.toDigits 10 op.group.toNat ++ ',' :: ' ' :: (Nat.toDigits 10 op.kind.toNat ++
      ',' :: ' ' :: (Nat.toDigits 10 op.method.toNat ++ [')']))) := by
  show ("(" ++ op.group.toNat.repr ++ ", " ++ op.kind.toNat.repr ++ ", " ++
    op.method.toNat.repr ++ ")").toList = _
  simp

/-- An identifier can be told apart from whatever follows it. -/
theorem selfDelimiting_text : SelfDelimiting fun op : OpId => op.text.toList := by
  rintro ⟨group, kind, method⟩ ⟨group', kind', method'⟩ rest rest' h
  simp only [toList_text, List.cons_append, List.append_assoc, List.nil_append, List.cons.injEq,
    true_and] at h
  obtain ⟨hgroup, h⟩ := toDigits_append_cons_inj (by decide) (by decide) (by decide) h
  obtain ⟨hkind, h⟩ :=
    toDigits_append_cons_inj (by decide) (by decide) (by decide) (List.cons.inj h).2
  obtain ⟨hmethod, hrest⟩ :=
    toDigits_append_cons_inj (by decide) (by decide) (by decide) (List.cons.inj h).2
  rw [UInt16.toNat_inj.1 hgroup, UInt16.toNat_inj.1 hkind, UInt16.toNat_inj.1 hmethod]
  exact ⟨rfl, hrest⟩

/-- An identifier is on one line. -/
theorem newline_not_mem_text (op : OpId) : '\n' ∉ op.text.toList := by
  have hdigits (n : Nat) : '\n' ∉ Nat.toDigits 10 n := not_mem_toDigits (by decide) (by decide)
  simp [toList_text, hdigits]

end OpId

/-- How a slot is shown, or that there is none. -/
def slotMark (slot : Option Slot) : List Char :=
  slot.elim ['_'] fun s => '$' :: Nat.toDigits 10 s.index

/-- The characters of a slot. -/
theorem Slot.toList_text (s : Slot) : s.text.toList = '$' :: Nat.toDigits 10 s.index := by
  show ("$" ++ s.index.repr).toList = _
  simp

/-- Different slots are shown differently. -/
theorem Slot.eq_of_text_eq {s s' : Slot} (h : s.text.toList = s'.text.toList) : s = s' := by
  rw [toList_text, toList_text, List.cons.injEq] at h
  exact congrArg Slot.mk (Text.toDigits_injective (by decide) (by decide) h.2)

/-- Whether and which slot there is can be told. -/
theorem slotMark_injective : Function.Injective slotMark := by
  rintro (_ | s) (_ | s') h
  · rfl
  · exact absurd (List.cons.inj h).1 (by decide)
  · exact absurd (List.cons.inj h).1 (by decide)
  · refine congrArg some (Slot.eq_of_text_eq ?_)
    rwa [Slot.toList_text, Slot.toList_text]

/-- Slots are shown with underscores, dollar signs and digits. -/
theorem not_mem_slotMark {c : Char} (hc : c ≠ '_' ∧ c ≠ '$' ∧ ∀ m < 10, Nat.digitChar m ≠ c)
    (slot : Option Slot) : c ∉ slotMark slot := by
  obtain ⟨hunderscore, hdollar, hdigit⟩ := hc
  cases slot with
  | none => simpa [slotMark] using hunderscore
  | some s => simpa [slotMark, hdollar] using not_mem_toDigits (by decide) hdigit

/-- The characters of a list of slots. -/
theorem toList_listSlots (slots : List (Option Slot)) : (listSlots slots).toList =
    '[' :: ([',', ' '].intercalate (slots.map slotMark) ++ [']']) := by
  have hmark (slot : Option Slot) : (slot.elim "_" Slot.text).toList = slotMark slot := by
    cases slot with
    | none => rfl
    | some s => exact s.toList_text
  simp [listSlots, Function.comp_def, hmark]

/-- A character of slots between brackets is that of a slot or of what separates slots. -/
theorem not_mem_intercalate_slotMark {c : Char} (hc : c ≠ '_' ∧ c ≠ '$' ∧
    ∀ m < 10, Nat.digitChar m ≠ c) (hsep : c ∉ [',', ' ']) (slots : List (Option Slot)) :
    c ∉ [',', ' '].intercalate (slots.map slotMark) := by
  intro hmem
  rcases Text.mem_intercalate hmem with hmem | ⟨mark, hmark, hmem⟩
  · exact hsep hmem
  · obtain ⟨slot, -, rfl⟩ := List.mem_map.1 hmark
    exact not_mem_slotMark hc slot hmem

/-- A list of slots can be told apart from whatever follows it. -/
theorem selfDelimiting_listSlots : SelfDelimiting fun slots => (listSlots slots).toList := by
  intro slots slots' rest rest' h
  simp only [toList_listSlots, List.cons_append, List.append_assoc, List.nil_append,
    List.cons.injEq, true_and] at h
  have hend (slots : List (Option Slot)) : ']' ∉ [',', ' '].intercalate (slots.map slotMark) :=
    not_mem_intercalate_slotMark (by decide) (by decide) slots
  have hmarks (slots : List (Option Slot)) :
      ∀ mark ∈ slots.map slotMark, mark ≠ [] ∧ ',' ∉ mark := by
    intro mark hmark
    obtain ⟨slot, -, rfl⟩ := List.mem_map.1 hmark
    exact ⟨by cases slot <;> exact List.cons_ne_nil _ _, not_mem_slotMark (by decide) slot⟩
  obtain ⟨hslots, hrest⟩ := append_cons_inj (hend slots) (hend slots') h
  have hmap := Text.intercalate_cons_inj (hmarks slots) (hmarks slots') hslots
  exact ⟨slotMark_injective.list_map hmap, hrest⟩

/-- A list of slots is on one line. -/
theorem newline_not_mem_listSlots (slots : List (Option Slot)) :
    '\n' ∉ (listSlots slots).toList := by
  have hslots := not_mem_intercalate_slotMark (c := '\n') (by decide) (by decide) slots
  simp [toList_listSlots, hslots]

/-- Padding puts nothing but the fill before the text. -/
theorem Text.mem_padLeft {width : Nat} {fill c : Char} {s : String}
    (h : c ∈ (padLeft width fill s).toList) : c = fill ∨ c ∈ s.toList := by
  rw [padLeft, String.toList_ofList, List.leftpad, List.mem_append, List.mem_replicate] at h
  exact h.imp_left And.right

/-- Padding puts nothing but the fill after the text. -/
theorem Text.mem_padRight {width : Nat} {fill c : Char} {s : String}
    (h : c ∈ (padRight width fill s).toList) : c = fill ∨ c ∈ s.toList := by
  rw [padRight, String.toList_ofList, List.rightpad, List.mem_append, List.mem_replicate] at h
  exact h.symm.imp_left And.right

/-! ## Lines -/

/-- No name of an operation has a line feed or an opening bracket in it. -/
def Table.NamesPlain (t : Table) : Prop :=
  ∀ r ∈ t.entries, '\n' ∉ r.name.toList ∧ '[' ∉ r.name.toList

/-- The names of the bundled operations have no line feed and no opening bracket in them. -/
theorem Catalog.namesPlain : table.NamesPlain := by
  unfold Table.NamesPlain
  decide +kernel

namespace Parameter

/-- The characters of the line of a parameter. -/
theorem toList_line (q : Parameter) : q.line.toList =
    "param ".toList ++ ((Text.quote q.name).toList ++ (" -> ".toList ++ q.slot.text.toList)) := by
  simp [line]

/-- The line of a parameter shows its name and its slot. -/
theorem line_inj {q q' : Parameter} (h : q.line.toList = q'.line.toList) :
    q.name = q'.name ∧ q.slot = q'.slot := by
  rw [toList_line, toList_line] at h
  obtain ⟨hname, h⟩ := Text.selfDelimiting_quote (List.append_cancel_left h)
  exact ⟨hname, Slot.eq_of_text_eq (List.append_cancel_left h)⟩

/-- The line of a parameter is one line. -/
theorem newline_not_mem_line (q : Parameter) : '\n' ∉ q.line.toList := by
  have hname := Text.newline_not_mem_quote q.name
  have hslot : '\n' ∉ Nat.toDigits 10 q.slot.index := not_mem_toDigits (by decide) (by decide)
  simp [toList_line, Slot.toList_text, hname, hslot]

end Parameter

namespace Instruction

/-- The name that the line of an instruction shows. -/
def shownName (i : Instruction) (table : Table) : String :=
  (table.get? i.opIndex).elim "?" (·.name)

/-- The name that is shown is that of an operation, or a question mark. -/
theorem shownName_plain {table : Table} (h : table.NamesPlain) (i : Instruction) :
    '\n' ∉ (i.shownName table).toList ∧ '[' ∉ (i.shownName table).toList := by
  unfold shownName
  cases hget : table.get? i.opIndex with
  | none => decide
  | some r => exact h r (Array.mem_of_getElem? hget)

/-- The characters of the line of an instruction. -/
theorem toList_line (i : Instruction) (table : Table) (index : Nat) (isOutput : Bool) :
    (i.line table index isOutput).toList =
      (Text.padLeft 4 ' ' (toString index)).toList ++ (": ".toList ++ (i.op.text.toList ++
        (' ' :: ((Text.padRight 14 ' ' (i.shownName table)).toList ++ [' '] ++
          ((listSlots i.inputSlots).toList ++ (" -> ".toList ++ ((listSlots i.outputSlots).toList ++
            (if isOutput then "  ; output" else "").toList))))))) := by
  simp [line, shownName]

/-- What stands before the slots of an instruction has no bracket. -/
theorem bracket_not_mem_padRight {table : Table} (h : table.NamesPlain) (i : Instruction) :
    '[' ∉ (Text.padRight 14 ' ' (i.shownName table)).toList ++ [' '] := by
  intro hmem
  rcases List.mem_append.1 hmem with hmem | hmem
  · exact (Text.mem_padRight hmem).elim (by decide) (shownName_plain h i).2
  · exact absurd hmem (by decide)

/-- The line of an instruction in a given place shows its operation, its slots, and whether it is
the output. -/
theorem line_inj {i i' : Instruction} {table table' : Table} {index : Nat}
    {isOutput isOutput' : Bool} (htable : table.NamesPlain) (htable' : table'.NamesPlain)
    (h : (i.line table index isOutput).toList = (i'.line table' index isOutput').toList) :
    i.op = i'.op ∧ i.inputSlots = i'.inputSlots ∧ i.outputSlots = i'.outputSlots ∧
      isOutput = isOutput' := by
  rw [toList_line, toList_line] at h
  obtain ⟨hop, h⟩ :=
    OpId.selfDelimiting_text (List.append_cancel_left (List.append_cancel_left h))
  have hslots := (List.cons.inj h).2
  -- the first bracket is that of the inputs, so the names, padded, are the same
  have hname := (append_cons_inj (bracket_not_mem_padRight htable i)
    (bracket_not_mem_padRight htable' i') (by simpa [toList_listSlots] using hslots)).1
  rw [hname] at hslots
  obtain ⟨hinputs, h⟩ := selfDelimiting_listSlots (List.append_cancel_left hslots)
  obtain ⟨houtputs, h⟩ := selfDelimiting_listSlots (List.append_cancel_left h)
  refine ⟨hop, hinputs, houtputs, ?_⟩
  cases isOutput <;> cases isOutput' <;> first | rfl | cases h

/-- A place is shown with blanks and digits. -/
theorem isDigit_of_mem_padLeft {index : Nat} {c : Char}
    (h : c ∈ (Text.padLeft 4 ' ' (toString index)).toList) : c = ' ' ∨ c.isDigit = true := by
  refine (Text.mem_padLeft h).imp_right fun hc => ?_
  rw [Nat.toString_eq_repr, Nat.toList_repr] at hc
  exact Nat.isDigit_of_mem_toDigits (by decide) (by decide) hc

/-- The line of an instruction is one line. -/
theorem newline_not_mem_line {table : Table} (h : table.NamesPlain) (i : Instruction)
    (index : Nat) (isOutput : Bool) : '\n' ∉ (i.line table index isOutput).toList := by
  have hplace : '\n' ∉ (Text.padLeft 4 ' ' (toString index)).toList :=
    fun hmem => absurd (isDigit_of_mem_padLeft hmem) (by decide)
  have hname : '\n' ∉ (Text.padRight 14 ' ' (i.shownName table)).toList :=
    fun hmem => (Text.mem_padRight hmem).elim (by decide) (shownName_plain h i).1
  have hop := i.op.newline_not_mem_text
  have hinputs := newline_not_mem_listSlots i.inputSlots
  have houtputs := newline_not_mem_listSlots i.outputSlots
  have hmark : '\n' ∉ (if isOutput then "  ; output" else "").toList := by
    cases isOutput <;> decide
  rw [toList_line]
  simpa [hname, hop, hinputs, houtputs, hmark] using hplace

end Instruction

/-! ## Kinds of lines -/

/-- What a line of a listing tells of: the number of slots (`header`), a parameter, or an
instruction. -/
inductive LineKind where
  | header
  | parameter
  | instruction
deriving DecidableEq

/-- The kind of a line, by the character that it begins with. -/
def LineKind.of? (line : List Char) : Option LineKind :=
  match line.head? with
  | some ';' => some .header
  | some 'p' => some .parameter
  | some c => if c = ' ' ∨ c.isDigit then some .instruction else none
  | none => none

/-- A line that begins with a blank or a digit tells of an instruction. -/
theorem LineKind.of?_instruction {c : Char} {line : List Char} (hhead : line.head? = some c)
    (h : c = ' ' ∨ c.isDigit = true) : of? line = some .instruction := by
  unfold of?
  rw [hhead]
  split
  · rename_i heq
    cases heq
    exact absurd h (by decide)
  · rename_i heq
    cases heq
    exact absurd h (by decide)
  · rename_i heq
    cases heq
    exact if_pos h
  · rename_i heq
    cases heq

/-- The line of a parameter begins as one. -/
theorem Parameter.kind_line (q : Parameter) :
    LineKind.of? q.line.toList = some .parameter := by
  rw [toList_line]
  rfl

/-- The line of an instruction begins as one. -/
theorem Instruction.kind_line (i : Instruction) (table : Table) (index : Nat) (isOutput : Bool) :
    LineKind.of? (i.line table index isOutput).toList = some .instruction := by
  have hne : (Text.padLeft 4 ' ' (toString index)).toList ≠ [] := by
    simp [Text.padLeft, List.leftpad]
  obtain ⟨c, rest, hplace⟩ := List.exists_cons_of_ne_nil hne
  refine LineKind.of?_instruction (c := c) ?_
    (isDigit_of_mem_padLeft (hplace ▸ List.mem_cons_self))
  rw [toList_line, hplace]
  rfl

/-! ## Listings -/

namespace Program

/-- What a listing shows of a program: how many slots there are, the names of the parameters with
their slots, the operations of the instructions with the slots that they read and write, and the
place of the output. -/
structure Outline where
  slotCount : Nat
  parameters : List (String × Slot)
  instructions : List (OpId × List (Option Slot) × List (Option Slot))
  output : Option Nat

/-- The outline of a program. -/
def outline (p : Program) : Outline where
  slotCount := p.slotCount
  parameters := p.parameters.map fun q => (q.name, q.slot)
  instructions := p.instructions.map fun i => (i.op, i.inputSlots, i.outputSlots)
  output := p.output

/-- The lines of the instructions. -/
def instructionLines (p : Program) : List String :=
  p.instructions.zipIdx.map fun (i, index) => i.line p.table index (p.output == some index)

/-- The line of the slots. -/
def header (p : Program) : String := s!"; {p.slotCount} slots"

/-- There is a line for the slots, then one for each parameter and one for each instruction. -/
theorem lines_eq (p : Program) :
    p.lines = p.header :: (p.parameters.map Parameter.line ++ p.instructionLines) := rfl

/-- The characters of the line of the slots. -/
theorem toList_header (p : Program) :
    p.header.toList = ';' :: ' ' :: (Nat.toDigits 10 p.slotCount ++ " slots".toList) := by
  show ("; " ++ p.slotCount.repr ++ " slots").toList = _
  simp

/-- The line in the place of an instruction is that of the instruction. -/
theorem getElem?_instructionLines (p : Program) (index : Nat) : p.instructionLines[index]? =
    p.instructions[index]?.map fun i => i.line p.table index (p.output == some index) := by
  simp [instructionLines, List.getElem?_zipIdx, Function.comp_def]

variable {p p' : Program}

/-- No line has a line feed in it. -/
theorem newline_not_mem_line (h : p.table.NamesPlain) {line : String} (hline : line ∈ p.lines) :
    '\n' ∉ line.toList := by
  rw [lines_eq, List.mem_cons, List.mem_append] at hline
  rcases hline with rfl | hparameter | hinstruction
  · have hdigits : '\n' ∉ Nat.toDigits 10 p.slotCount :=
      not_mem_toDigits (by decide) (by decide)
    simp [toList_header, hdigits]
  · obtain ⟨q, -, rfl⟩ := List.mem_map.1 hparameter
    exact q.newline_not_mem_line
  · obtain ⟨⟨i, index⟩, -, rfl⟩ := List.mem_map.1 hinstruction
    exact i.newline_not_mem_line h index _

/-- A listing falls into its lines at its line feeds, and nothing is left after the last of
them. -/
theorem splitOn_listing (h : p.table.NamesPlain) :
    p.listing.toList.splitOn '\n' = p.lines.map String.toList ++ [[]] := by
  have hlisting : p.listing.toList = (p.lines.map String.toList).flatMap (· ++ ['\n']) := by
    simp [listing, List.flatMap_map]
  rw [hlisting]
  refine Text.splitOn_flatMap_append_singleton fun line hline => ?_
  obtain ⟨line, hmem, rfl⟩ := List.mem_map.1 hline
  exact newline_not_mem_line h hmem

/-- The kinds of the lines are those of the line of the slots, of the parameters and of the
instructions. -/
theorem map_kind_lines (p : Program) : p.lines.map (fun line => LineKind.of? line.toList) =
    some .header :: (List.replicate p.parameters.length (some .parameter) ++
      List.replicate p.instructions.length (some .instruction)) := by
  have hheader : LineKind.of? p.header.toList = some .header := by
    rw [toList_header]
    rfl
  rw [lines_eq, List.map_cons, List.map_append, hheader]
  refine congrArg₂ (fun parameters instructions => _ :: (parameters ++ instructions)) ?_ ?_
  · refine List.eq_replicate_iff.2 ⟨by simp, fun kind hkind => ?_⟩
    obtain ⟨line, hline, rfl⟩ := List.mem_map.1 hkind
    obtain ⟨q, -, rfl⟩ := List.mem_map.1 hline
    exact q.kind_line
  · refine List.eq_replicate_iff.2 ⟨by simp [instructionLines], fun kind hkind => ?_⟩
    obtain ⟨line, hline, rfl⟩ := List.mem_map.1 hkind
    obtain ⟨⟨i, index⟩, -, rfl⟩ := List.mem_map.1 hline
    exact i.kind_line _ _ _

/-- As many lines tell of parameters as there are parameters. -/
theorem count_parameter_lines (p : Program) :
    (p.lines.map fun line => LineKind.of? line.toList).count (some .parameter) =
      p.parameters.length := by
  rw [map_kind_lines]
  simp [List.count_replicate]

/-- Programs with the same listing have the same lines. -/
theorem lines_eq_of_listing_eq (hp : p.table.NamesPlain) (hp' : p'.table.NamesPlain)
    (h : p.listing = p'.listing) : p.lines = p'.lines := by
  have hpieces := splitOn_listing hp
  rw [h, splitOn_listing hp'] at hpieces
  exact (List.map_injective_iff.2 (fun _ _ => String.toList_injective)
    (List.append_cancel_right hpieces)).symm

/-- Programs with the same lines have the same lines of each kind. -/
theorem parts_eq_of_lines_eq (h : p.lines = p'.lines) : p.header = p'.header ∧
    p.parameters.map Parameter.line = p'.parameters.map Parameter.line ∧
    p.instructionLines = p'.instructionLines := by
  have hlength : p.parameters.length = p'.parameters.length := by
    rw [← count_parameter_lines, ← count_parameter_lines, h]
  rw [lines_eq, lines_eq, List.cons.injEq] at h
  exact ⟨h.1, List.append_inj h.2 (by simpa using hlength)⟩

/-- The line of the slots shows how many there are. -/
theorem slotCount_eq_of_header_eq (h : p.header = p'.header) : p.slotCount = p'.slotCount := by
  have hchars := congrArg String.toList h
  rw [toList_header, toList_header, List.cons.injEq, List.cons.injEq] at hchars
  exact Text.toDigits_injective (by decide) (by decide) (List.append_cancel_right hchars.2.2)

/-- The lines of the parameters show their names and slots. -/
theorem parameters_eq_of_map_line_eq {parameters parameters' : List Parameter}
    (h : parameters.map Parameter.line = parameters'.map Parameter.line) :
    parameters.map (fun q => (q.name, q.slot)) = parameters'.map fun q => (q.name, q.slot) := by
  induction parameters generalizing parameters' with
  | nil => rw [List.map_eq_nil_iff.1 h.symm]
  | cons q rest ih =>
      obtain ⟨q', rest', rfl, hline, hrest⟩ := List.map_eq_cons_iff.1 h.symm
      obtain ⟨hname, hslot⟩ := Parameter.line_inj (congrArg String.toList hline)
      rw [List.map_cons, List.map_cons, hname, hslot, ih hrest.symm]

section Instructions

variable (hp : p.table.NamesPlain) (hp' : p'.table.NamesPlain)
  (h : p.instructionLines = p'.instructionLines)
include hp hp' h

/-- The line in a place shows what the instruction there reads and writes, and whether it is the
output. -/
theorem instruction_eq_of_lines_eq (index : Nat) :
    (p.instructions[index]?.map fun i =>
        ((i.op, i.inputSlots, i.outputSlots), p.output == some index)) =
      p'.instructions[index]?.map fun i =>
        ((i.op, i.inputSlots, i.outputSlots), p'.output == some index) := by
  have hline := congrArg (·[index]?) h
  simp only [getElem?_instructionLines] at hline
  cases hi : p.instructions[index]? with
  | none =>
      rw [hi] at hline
      rw [Option.map_eq_none_iff.1 hline.symm]
      rfl
  | some i =>
      rw [hi, Option.map_some] at hline
      obtain ⟨i', hi', hline⟩ := Option.map_eq_some_iff.1 hline.symm
      obtain ⟨hop, hinputs, houtputs, houtput⟩ :=
        Instruction.line_inj hp' hp (congrArg String.toList hline)
      rw [hi', Option.map_some, Option.map_some, hop, hinputs, houtputs, houtput]

/-- The lines of the instructions show what these read and write. -/
theorem instructions_eq_of_lines_eq :
    p.instructions.map (fun i => (i.op, i.inputSlots, i.outputSlots)) =
      p'.instructions.map fun i => (i.op, i.inputSlots, i.outputSlots) := by
  refine List.ext_getElem? fun index => ?_
  have hfirst := congrArg (Option.map Prod.fst) (instruction_eq_of_lines_eq hp hp' h index)
  simpa [Function.comp_def] using hfirst

/-- The lines of the instructions show which of them is the output, if one is. -/
theorem output_eq_of_lines_eq
    (hout : ∀ index, p.output = some index → index < p.instructions.length)
    (hout' : ∀ index, p'.output = some index → index < p'.instructions.length) :
    p.output = p'.output := by
  have hlength : p.instructions.length = p'.instructions.length := by
    simpa using congrArg List.length (instructions_eq_of_lines_eq hp hp' h)
  have hmark (index : Nat) (hindex : index < p.instructions.length) :
      p.output = some index ↔ p'.output = some index := by
    have hline := instruction_eq_of_lines_eq hp hp' h index
    rw [List.getElem?_eq_getElem hindex, List.getElem?_eq_getElem (hlength ▸ hindex)] at hline
    have hmark := congrArg Prod.snd (Option.some.inj hline)
    rw [Bool.eq_iff_iff] at hmark
    simpa using hmark
  refine Option.ext fun index => ⟨fun heq => ?_, fun heq => ?_⟩
  · exact (hmark index (hout index heq)).1 heq
  · exact (hmark index (hlength ▸ hout' index heq)).2 heq

end Instructions

/-- Programs with the same listing have the same outline, if the output of each is one of its
instructions. -/
theorem outline_eq_of_listing_eq (hp : p.table.NamesPlain) (hp' : p'.table.NamesPlain)
    (hout : ∀ index, p.output = some index → index < p.instructions.length)
    (hout' : ∀ index, p'.output = some index → index < p'.instructions.length)
    (h : p.listing = p'.listing) : p.outline = p'.outline := by
  obtain ⟨hheader, hparameters, hinstructions⟩ :=
    parts_eq_of_lines_eq (lines_eq_of_listing_eq hp hp' h)
  rw [outline, outline, slotCount_eq_of_header_eq hheader,
    parameters_eq_of_map_line_eq hparameters, instructions_eq_of_lines_eq hp hp' hinstructions,
    output_eq_of_lines_eq hp hp' hinstructions hout hout']

end Program

namespace Graph

variable {g g' : Graph} {table table' : Table} {p p' : Program}

/-- The listing of a program determines its outline, whatever the names of the parameters, if no
name of an operation has a line feed or an opening bracket in it. It is made of lines that are each
ended by a line feed: one for the slots, then one for each parameter and one for each
instruction. -/
theorem compile_listing_shows_outline (htable : table.NamesPlain) (htable' : table'.NamesPlain)
    (hp : g.compile table = .ok p) (hp' : g'.compile table' = .ok p') :
    (p.listing = p'.listing → p.outline = p'.outline) ∧
    ∃ lines, p.listing.toList.splitOn '\n' = lines ++ [[]] ∧
      lines.map LineKind.of? =
        some .header :: (List.replicate p.parameters.length (some .parameter) ++
          List.replicate p.instructions.length (some .instruction)) := by
  obtain ⟨feeds, root, order, last, h⟩ := compilation_of_ok hp
  obtain ⟨feeds', root', order', last', h'⟩ := compilation_of_ok hp'
  have hplain : p.table.NamesPlain := h.table_eq ▸ htable
  have hplain' : p'.table.NamesPlain := h'.table_eq ▸ htable'
  refine ⟨Program.outline_eq_of_listing_eq hplain hplain' h.output_lt h'.output_lt,
    p.lines.map String.toList, p.splitOn_listing hplain, ?_⟩
  rw [List.map_map]
  exact p.map_kind_lines

/-- A graph that gives out a parameter whose name looks like the lines of two parameters. -/
def disguised (value : Bool) : Graph where
  arena := ⟨#[none, some (1, .parameterRead ⟨7⟩), some (1, .output)], []⟩
  wires := #[⟨⟨⟨1, 1⟩, 0⟩, ⟨⟨2, 1⟩, 0⟩⟩]
  parameters := [(⟨7⟩, ⟨"gain\" -> $1\nparam \"bias", .bool value⟩)]

/-- Its program. -/
def disguisedProgram (value : Bool) : Program where
  instructions := [
    ⟨.parameterRead, 17, .parameterRead ⟨7⟩, ⟨1, 1⟩, [], [some ⟨0⟩], [some ⟨1⟩], [.empty]⟩,
    ⟨.output, 0, .output, ⟨2, 1⟩, [], [some ⟨1⟩], [], [.empty]⟩]
  parameters := [⟨⟨7⟩, "gain\" -> $1\nparam \"bias", .bool value, ⟨0⟩⟩]
  output := some 1
  slotCount := 2
  table := Catalog.table
  stats := ⟨2, 0, 2, 2⟩

set_option maxRecDepth 10000 in
/-- The program of the graph with the misleading name. -/
theorem compile_disguised (value : Bool) :
    (disguised value).compile Catalog.table = .ok (disguisedProgram value) := by
  refine compile_eq_ok ⟨2, 1⟩ [⟨1, 1⟩, ⟨2, 1⟩] 10 _ ⟨[], [1], 2, 1, 2⟩ (by decide +revert)
    (by decide +revert) (by decide +revert) rfl rfl ?_
  refine Layout.mapM_cons (show _ = Except.ok (_, (⟨[(⟨⟨1, 1⟩, 0⟩, ⟨⟨1⟩, 1⟩)], [], 2, 2, 2⟩ :
    Allocator OutputSocket)) from rfl) ?_
  exact Layout.mapM_cons (show _ = Except.ok (_, (⟨[], [1], 2, 1, 2⟩ :
    Allocator OutputSocket)) from rfl) rfl

/-- A name with a quote, an arrow and a line feed in it takes one line, and a listing says nothing
of the value. -/
theorem disguised_shows_outline : Catalog.table.NamesPlain ∧
    (disguised false).compile Catalog.table = .ok (disguisedProgram false) ∧
    (disguised true).compile Catalog.table = .ok (disguisedProgram true) ∧
    (disguisedProgram false).listing = (disguisedProgram true).listing ∧
    (disguisedProgram false).outline = (disguisedProgram true).outline ∧
    ((disguisedProgram false).listing.toList.splitOn '\n').length = 5 := by
  obtain ⟨houtline, lines, hpieces, hkinds⟩ := compile_listing_shows_outline Catalog.namesPlain
    Catalog.namesPlain (compile_disguised false) (compile_disguised true)
  have hlength : lines.length = 4 := by
    simpa [disguisedProgram] using congrArg List.length hkinds
  refine ⟨Catalog.namesPlain, compile_disguised false, compile_disguised true, rfl,
    houtline rfl, ?_⟩
  rw [hpieces, List.length_append, hlength]
  rfl

end Graph

end Dataflow
