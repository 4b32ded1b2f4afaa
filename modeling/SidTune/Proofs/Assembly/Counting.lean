import Mathlib.Algebra.Ring.Nat
import SidTune.Proofs.Assembly.Text

/-!
# What the size of a program counts

The size of a program is the sum of the sizes of its items, and each of them is a 16-bit count. An
instruction never takes more than three bytes, but a block of data can be of any length, and its
count starts again from zero at 0x10000. So the size of a program is short by 0x10000 for each time
that the count of one of its blocks starts again. It is right exactly if all blocks are shorter; it
also depends on how data is cut into blocks, although the bytes that are written out do not.

## Main definitions

* `SidTune.Assembly.Program.codeWidth`, `SidTune.Assembly.Program.dataLength`: how many bytes the
  instructions and the data of a program take.
* `SidTune.Assembly.Program.restarts`: how often a count starts again from zero.
* `SidTune.Assembly.entryCount`: how many bytes are listed on a line of text.
* `SidTune.Assembly.Program.Counted`: what the size of a program tells.

## Main results

* `SidTune.Assembly.Program.totalSize_add_restarts`: by how much a size is short.
* `SidTune.Assembly.Program.size_counted`: what the size of a program tells.
* `SidTune.Assembly.Program.totalSize_bank`: 64 KiB of data count for nothing.
-/

namespace SidTune.Assembly

/-! ### Items -/

namespace Item

/-- How many bytes an item of data holds. -/
def dataLength : Item → Nat
  | data bytes => bytes.length
  | origin _ | label _ | code .. | comment _ | blank => 0

/-- Whether an item is data. -/
def isData : Item → Bool
  | data _ => true
  | origin _ | label _ | code .. | comment _ | blank => false

/-- How many bytes an instruction takes. -/
def codeWidth : Item → Nat
  | code m operand => m.width operand
  | origin _ | label _ | data _ | comment _ | blank => 0

/-- How often the count of an item starts again from zero. -/
def restarts (item : Item) : Nat :=
  item.dataLength / 0x10000

/-- The size of an item is short by 0x10000 for each time that its count starts again. -/
theorem size_add_restarts (item : Item) :
    item.size + 0x10000 * item.restarts = item.codeWidth + item.dataLength := by
  cases item with
  | data bytes => simpa [size, restarts, codeWidth, dataLength] using Nat.mod_add_div ..
  | _ => simp [size, restarts, codeWidth, dataLength]

end Item

/-! ### Entries on lines -/

/-- How many bytes are listed on a line of text. -/
def entryCount (line : List Char) : Nat :=
  ((Item.ofLine? line).map Item.dataLength).getD 0

theorem Item.sum_entryCount {item : Item} (hlegible : item.isLegible) :
    (item.lines.map entryCount).sum = item.dataLength := by
  have hread : item.lines.map entryCount = item.linewise.map dataLength := by
    have hsplit : entryCount = (fun part? => (part?.map dataLength).getD 0) ∘ ofLine? := rfl
    rw [hsplit, ← List.map_map, map_ofLine?_lines hlegible, List.map_map]
    rfl
  rw [hread]
  cases item with
  | data bytes =>
    have hjoined := congrArg List.length (Program.flatten_rows bytes)
    simpa [linewise, dataLength, Function.comp_def, List.length_flatten] using hjoined
  | _ => simp [linewise, dataLength]

namespace Program

variable {p q : Program}

/-! ### Programs -/

/-- How many bytes the instructions of a program take. -/
def codeWidth (p : Program) : Nat :=
  (p.map Item.codeWidth).sum

/-- How many bytes of data a program holds. -/
def dataLength (p : Program) : Nat :=
  (p.map Item.dataLength).sum

/-- How often the count of an item of a program starts again from zero. -/
def restarts (p : Program) : Nat :=
  (p.map Item.restarts).sum

/-- The data of a program, without its other items. -/
def onlyData (p : Program) : Program :=
  p.filter Item.isData

/-- All blocks of data are shorter than 64 KiB. -/
def HasShortData (p : Program) : Prop :=
  ∀ item ∈ p, item.dataLength < 0x10000

instance (p : Program) : Decidable p.HasShortData :=
  inferInstanceAs (Decidable (∀ item ∈ p, item.dataLength < 0x10000))

/-- The size of a program is short by 0x10000 for each time that a count starts again. -/
theorem totalSize_add_restarts (p : Program) :
    p.totalSize + 0x10000 * p.restarts = p.codeWidth + p.dataLength := by
  induction p with
  | nil => rfl
  | cons item rest ih =>
    have hhere := item.size_add_restarts
    simp only [totalSize, restarts, codeWidth, dataLength, List.map_cons, List.sum_cons] at ih ⊢
    omega

private theorem restarts_eq_zero_iff : p.restarts = 0 ↔ p.HasShortData := by
  induction p with
  | nil => simp [restarts, HasShortData]
  | cons item rest ih =>
    simp only [restarts, HasShortData, List.map_cons, List.sum_cons, Nat.add_eq_zero_iff,
      List.forall_mem_cons] at ih ⊢
    rw [ih, Item.restarts, Nat.div_eq_zero_iff]
    simp

/-- The lines of a program that can be read back list all of its data, and nothing else. -/
theorem sum_entryCount_lines (hlegible : p.isLegible) :
    (p.lines.map entryCount).sum = p.dataLength := by
  induction p with
  | nil => rfl
  | cons item rest ih =>
    rw [isLegible, List.all_cons, Bool.and_eq_true] at hlegible
    simp only [lines, dataLength, List.flatMap_cons, List.map_append, List.sum_append,
      List.map_cons, List.sum_cons] at ih ⊢
    rw [Item.sum_entryCount hlegible.1, ih hlegible.2]

private theorem isLegible_onlyData (p : Program) : p.onlyData.isLegible := by
  refine List.all_eq_true.2 fun item hmem => ?_
  have hdata := (List.mem_filter.1 hmem).2
  cases item with
  | data bytes => rfl
  | _ => cases hdata

private theorem dataLength_onlyData (p : Program) : p.onlyData.dataLength = p.dataLength := by
  induction p with
  | nil => rfl
  | cons item rest ih =>
    simp only [onlyData, dataLength, List.filter_cons] at ih ⊢
    cases item <;> simp [Item.isData, Item.dataLength] <;> exact ih

/-! ### How data is cut -/

private theorem dataLength_map_data (parts : List Bytes) :
    dataLength (parts.map .data) = parts.flatten.length := by
  simp [dataLength, Function.comp_def, Item.dataLength, List.length_flatten]

private theorem codeWidth_map_data (parts : List Bytes) : codeWidth (parts.map .data) = 0 := by
  simp [codeWidth, Function.comp_def, Item.codeWidth]

private theorem hasShortData_map_data {parts : List Bytes}
    (hshort : parts.flatten.length < 0x10000) :
    HasShortData (parts.map .data) := by
  intro item hmem
  obtain ⟨part, hhere, rfl⟩ := List.mem_map.1 hmem
  exact (List.sublist_flatten_of_mem hhere).length_le.trans_lt hshort

/-- Cutting a block changes a size by 0x10000 for each time that one of the counts starts again. -/
theorem totalSize_cut (before after : Program) (parts : List Bytes) :
    (before ++ parts.map .data ++ after : Program).totalSize +
        0x10000 * restarts (parts.map .data) =
      (before ++ .data parts.flatten :: after : Program).totalSize +
        0x10000 * (parts.flatten.length / 0x10000) := by
  have hpieces := totalSize_add_restarts (parts.map .data)
  have hwhole := (Item.data parts.flatten).size_add_restarts
  rw [codeWidth_map_data, dataLength_map_data] at hpieces
  simp only [Item.restarts, Item.codeWidth, Item.dataLength] at hwhole
  simp only [totalSize_append, totalSize]
  omega

/-! ### What a size tells -/

/-- What the size of a program tells of the bytes that it holds. -/
structure Counted (p : Program) : Prop where
  /-- The size is short by 0x10000 for each time that the count of a block starts again. -/
  size : p.totalSize + 0x10000 * p.restarts = p.codeWidth + p.dataLength
  /-- The size is that of all instructions and data exactly if all blocks are short. -/
  complete_iff : p.totalSize = p.codeWidth + p.dataLength ↔ p.HasShortData
  /-- The lines that are written for the data list all of it. -/
  listed : (p.onlyData.lines.map entryCount).sum = p.dataLength
  /-- So does the text, where other lines cannot be taken for data. -/
  told (legible : p.isLegible) : ((textLines p.render).map entryCount).sum = p.dataLength
  /-- Cutting a block changes the size if a count starts again more or less often. -/
  cut {before after : Program} {parts : List Bytes}
    (here : p = before ++ .data parts.flatten :: after) :
    (before ++ parts.map .data ++ after : Program).totalSize +
        0x10000 * restarts (parts.map .data) =
      p.totalSize + 0x10000 * (parts.flatten.length / 0x10000)
  /-- Cutting a short block does not change the size. -/
  cut_short {before after : Program} {parts : List Bytes}
    (here : p = before ++ .data parts.flatten :: after) (short : parts.flatten.length < 0x10000) :
    (before ++ parts.map .data ++ after : Program).totalSize = p.totalSize
  /-- A program that is appended adds what its own size counts. -/
  append (q : Program) : (p ++ q : Program).totalSize + 0x10000 * q.restarts =
    p.totalSize + (q.codeWidth + q.dataLength)
  /-- A program of short blocks adds all of its instructions and data. -/
  append_short {q : Program} (short : q.HasShortData) :
    (p ++ q : Program).totalSize = p.totalSize + (q.codeWidth + q.dataLength)

/-- The size of a program counts all of its bytes as long as no count starts again. -/
theorem size_counted (p : Program) : p.Counted where
  size := p.totalSize_add_restarts
  complete_iff := by
    have hlaw := p.totalSize_add_restarts
    rw [← restarts_eq_zero_iff]
    omega
  listed := by
    rw [sum_entryCount_lines p.isLegible_onlyData, dataLength_onlyData]
  told hlegible := by
    rw [textLines_render hlegible, sum_entryCount_lines hlegible]
  cut hhere := hhere ▸ totalSize_cut ..
  cut_short {before after parts} hhere hshort := by
    have hlaw := totalSize_cut before after parts
    have hzero := restarts_eq_zero_iff.2 (hasShortData_map_data hshort)
    rw [hzero, Nat.div_eq_of_lt hshort, ← hhere] at hlaw
    exact hlaw
  append q := by
    rw [totalSize_append, Nat.add_assoc, totalSize_add_restarts]
  append_short {q} hshort := by
    have hlaw := q.totalSize_add_restarts
    rw [restarts_eq_zero_iff.2 hshort] at hlaw
    rw [totalSize_append, ← hlaw, Nat.mul_zero, Nat.add_zero]

/-- A table of five bytes after two instructions, cut in two, with a program after it. -/
theorem size_counted_table :
    let before : Program := [.label "start", .code .lda (.labelX "table"), .code .rts .implied,
      .label "table"]
    let parts : List Bytes := [[1, 2], [3, 4, 5]]
    let p : Program := before ++ [.data parts.flatten]
    p.totalSize = 9 ∧ p.codeWidth = 4 ∧ p.dataLength = 5 ∧
      ((textLines p.render).map entryCount).sum = 5 ∧
      (before ++ parts.map .data : Program).totalSize = 9 ∧
      (p ++ table "more" [6, 7] : Program).totalSize = 11 := by
  intro before parts p
  have hlaw := p.size_counted
  refine ⟨?_, by decide, by decide, hlaw.told (by decide), ?_, ?_⟩
  · exact hlaw.complete_iff.2 (by decide)
  · rw [← List.append_nil (before ++ _), hlaw.cut_short rfl (by decide)]
    rfl
  · exact hlaw.append_short (by decide)

/-- Two halves of 64 KiB count for nothing together, and in full apart. -/
theorem totalSize_halves {half : Bytes} (hlength : half.length = 0x8000) :
    let bank : Program := [.data (half ++ half)]
    bank.totalSize = 0 ∧ bank.codeWidth + bank.dataLength = 0x10000 ∧
      ((textLines bank.render).map entryCount).sum = 0x10000 ∧
      totalSize [.data half, .data half] = 0x10000 := by
  intro bank
  have huncoded : bank.codeWidth = 0 := rfl
  have hheld : bank.dataLength = 0x10000 := by
    simp [bank, dataLength, Item.dataLength, hlength]
  refine ⟨?_, ?_, ?_, ?_⟩
  · simp [bank, totalSize, Item.size, hlength]
  · rw [huncoded, hheld]
  · rw [textLines_render rfl, sum_entryCount_lines rfl, hheld]
  · simp [totalSize, Item.size, hlength]

/-- A block of 64 KiB counts for nothing, although its text lists all of it and its halves count in
full. -/
theorem totalSize_bank :
    let half : Bytes := List.replicate 0x8000 0
    let bank : Program := [.data (half ++ half)]
    bank.totalSize = 0 ∧ bank.codeWidth + bank.dataLength = 0x10000 ∧
      ((textLines bank.render).map entryCount).sum = 0x10000 ∧
      totalSize [.data half, .data half] = 0x10000 :=
  totalSize_halves List.length_replicate

end Program

end SidTune.Assembly
