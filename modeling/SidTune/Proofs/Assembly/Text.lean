import SidTune.Proofs.Assembly.Reading

/-!
# What the text of a program tells

The text of a program is cut into its lines at the line ends, and every line is read back. What a
text does not tell is how data is cut into items, but that makes no difference to the labels.

## Main definitions

* `SidTune.Assembly.Program.isLegible`: programs that can be read back.
* `SidTune.Assembly.textLines`, `SidTune.Assembly.listed`: the lines of a text, and the bytes that
  are listed at the start of lines.
* `SidTune.Assembly.Program.joined`: a program with one item for data that follows data.
* `SidTune.Assembly.Program.ToldBy`: a text that tells the sizes and the tables of a program.

## Main results

* `SidTune.Assembly.textLines_render`: the lines of a text are those of the program.
* `SidTune.Assembly.Program.map_ofLine?_lines`: every line is read back.
* `SidTune.Assembly.Program.labels_joined`: joining data moves no label.
* `SidTune.Assembly.Program.joined_eq_of_render_eq`: programs with one text are the same but for how
  their data is cut.
* `SidTune.Assembly.Program.toldBy_render`: a text tells the sizes and the tables.
-/

namespace SidTune.Assembly

variable {p q : Program}

namespace Program

/-- Whether the labels of a program are identifiers, and each of its remarks is a single line. -/
def isLegible (p : Program) : Bool :=
  p.all Item.isLegible

@[simp] theorem isLegible_append (p q : Program) :
    (p ++ q : Program).isLegible = (p.isLegible && q.isLegible) :=
  List.all_append

/-- A program, its data cut where its lines are. -/
def linewise (p : Program) : Program :=
  p.flatMap Item.linewise

/-- Every line of a program is read back. -/
theorem map_ofLine?_lines (hlegible : p.isLegible) :
    p.lines.map Item.ofLine? = p.linewise.map some := by
  rw [lines, linewise, List.map_flatMap, List.map_flatMap]
  refine List.flatMap_congr fun item hmem => ?_
  exact Item.map_ofLine?_lines (List.all_eq_true.1 hlegible item hmem)

end Program

/-! ### Line ends -/

/-- The lines of a text. -/
def textLines (text : String) : List (List Char) :=
  (text.toList.splitOn '\n').dropLast

section LineEnds

private theorem newline_notMem_rowChars (row : Bytes) : '\n' ∉ rowChars row := by
  have hdigit := hexDigit_ne (c := '\n') (by decide)
  match row with
  | [] => simp [rowChars]
  | [b] => simp [rowChars, byteChars, hexByte, hdigit]
  | b :: c :: rest => simp [rowChars_cons, hdigit, newline_notMem_rowChars (c :: rest)]

private theorem Operand.newline_notMem_text {operand : Operand} {text : List Char}
    (hnames : operand.names.all isIdentifier) (h : operand.text? = some text) : '\n' ∉ text := by
  have hbyte (b : UInt8) : '\n' ∉ byteChars b := by
    simp [byteChars, notMem_hexByte (c := '\n') (by decide)]
  have haddress (addr : UInt16) : '\n' ∉ addressChars addr := by
    simp [addressChars_eq, notMem_addressDigits (c := '\n') (by decide)]
  have hname {name : String} (h : isIdentifier name) : '\n' ∉ name.toList :=
    notMem_of_isIdentifier (by decide) (by decide) h
  cases operand <;> simp only [text?, Option.some.injEq, reduceCtorEq] at h <;> subst h <;>
    simp_all [Operand.names]

private theorem Mnemonic.newline_notMem_name (m : Mnemonic) : '\n' ∉ m.name.toList := by
  cases m <;> decide

theorem Item.newline_notMem {item : Item} (hlegible : item.isLegible) {line : List Char}
    (hmem : line ∈ item.lines) : '\n' ∉ line := by
  cases item with
  | origin addr =>
    simp_all [lines, notMem_hexWord (c := '\n') (by decide)]
  | label name =>
    simp_all [lines, notMem_of_isIdentifier (c := '\n') (by decide) (by decide) hlegible]
  | code m operand =>
    simp only [lines] at hmem
    split at hmem
    · simp_all [margin, m.newline_notMem_name]
    · next text h =>
      simp_all [margin, m.newline_notMem_name, Operand.newline_notMem_text hlegible h]
  | data bytes =>
    simp only [lines, List.mem_map] at hmem
    obtain ⟨row, -, rfl⟩ := hmem
    simp [margin, newline_notMem_rowChars row]
  | comment text => simp_all [lines, isLegible, isLine]
  | blank => simp_all [lines]

/-- Lines that are ended are lines with line ends between them and an empty line at the end. -/
theorem flatMap_ended (lines : List (List Char)) :
    (lines.flatMap fun line => line ++ ['\n']) = List.intercalate ['\n'] (lines ++ [[]]) := by
  induction lines with
  | nil => rfl
  | cons line rest ih =>
    have hmore : rest ++ [[]] ≠ [] := by simp
    rw [List.flatMap_cons, ih, List.cons_append, List.intercalate_cons_of_ne_nil hmore,
      List.append_assoc]

/-- The lines of a text are those of the program. -/
theorem textLines_render (hlegible : p.isLegible) : textLines p.render = p.lines := by
  have hplain : ∀ line ∈ p.lines ++ [[]], '\n' ∉ line := by
    intro line hmem
    simp only [Program.lines, List.mem_append, List.mem_flatMap, List.mem_singleton] at hmem
    rcases hmem with ⟨item, hmem, hhere⟩ | rfl
    · exact Item.newline_notMem (List.all_eq_true.1 hlegible item hmem) hhere
    · simp
  rw [textLines, Program.render, String.toList_ofList, Program.chars, flatMap_ended,
    List.splitOn_intercalate '\n' hplain (by simp), List.dropLast_concat]

end LineEnds

/-! ### How data is cut -/

namespace Program

/-- A program after data. The data is joined to data at the start of the program. -/
def afterData : Bytes → Program → Program
  | [], p => p
  | b :: bytes, .data more :: rest => .data (b :: bytes ++ more) :: rest
  | b :: bytes, p => .data (b :: bytes) :: p

/-- A program with one item for data that follows data, and without data that is empty. -/
def joined : Program → Program
  | [] => []
  | .data bytes :: rest => afterData bytes (joined rest)
  | item :: rest => item :: joined rest

private theorem afterData_append (bytes more : Bytes) (p : Program) :
    afterData (bytes ++ more) p = afterData bytes (afterData more p) := by
  match bytes, more, p with
  | [], _, _ => rfl
  | b :: bytes, [], p => simp [afterData]
  | b :: bytes, c :: more, [] => simp [afterData]
  | b :: bytes, c :: more, item :: rest => cases item <;> simp [afterData]

/-- It makes no difference how data is cut. -/
theorem joined_map_data (parts : List Bytes) (p : Program) :
    (parts.map .data ++ p : Program).joined = afterData parts.flatten p.joined := by
  induction parts with
  | nil => rfl
  | cons part rest ih =>
    rw [List.map_cons, List.cons_append, joined, ih, List.flatten_cons, afterData_append]

theorem flatten_rows (bytes : Bytes) : (rows bytes).flatten = bytes := by
  fun_induction rows bytes with
  | case1 => rfl
  | case2 b rest ih => rw [List.flatten_cons, ih, List.cons_append, List.take_append_drop]

/-- Cutting data where the lines are makes no difference. -/
theorem joined_linewise (p : Program) : p.linewise.joined = p.joined := by
  induction p with
  | nil => rfl
  | cons item rest ih =>
    rw [linewise, List.flatMap_cons, ← linewise]
    cases item with
    | data bytes => rw [Item.linewise, joined_map_data, flatten_rows, ih, joined]
    | _ => simp [Item.linewise, joined, ih]

/-- Labels after data are placed after all of it, also where its size is not counted in full. -/
theorem labels_data (pc : UInt16) (bytes : Bytes) (p : Program) :
    labels pc (.data bytes :: p) = p.labels (pc + UInt16.ofNat bytes.length) := by
  have hcounted : UInt16.ofNat (bytes.length % 0x10000) = UInt16.ofNat bytes.length := by
    simp [← UInt16.toNat_inj]
  simp only [labels, Item.size, hcounted]

theorem labels_afterData (pc : UInt16) (bytes : Bytes) (p : Program) :
    (afterData bytes p).labels pc = p.labels (pc + UInt16.ofNat bytes.length) := by
  fun_cases afterData bytes p with
  | case1 => simp
  | case2 b bytes more rest =>
    rw [labels_data, labels_data, List.length_append, UInt16.ofNat_add, UInt16.add_assoc]
  | case3 b bytes p => exact labels_data ..

/-- Joining data moves no label. -/
theorem labels_joined (pc : UInt16) (p : Program) : p.joined.labels pc = p.labels pc := by
  induction p generalizing pc with
  | nil => rfl
  | cons item rest ih =>
    cases item with
    | data bytes => rw [joined, labels_afterData, ih, labels_data]
    | _ => simp [joined, labels, ih]

/-- Programs with one text are the same but for how their data is cut. -/
theorem joined_eq_of_render_eq (hp : p.isLegible) (hq : q.isLegible) (hsame : p.render = q.render) :
    p.joined = q.joined := by
  have hlines_eq : p.lines = q.lines := by
    rw [← textLines_render hp, ← textLines_render hq, hsame]
  have hlinewise_eq : p.linewise = q.linewise := by
    apply List.map_injective_iff.2 fun _ _ => Option.some.inj
    rw [← map_ofLine?_lines hp, ← map_ofLine?_lines hq, hlines_eq]
  rw [← joined_linewise p, ← joined_linewise q, hlinewise_eq]

theorem labels_eq_of_render_eq (hp : p.isLegible) (hq : q.isLegible) (hsame : p.render = q.render)
    (pc : UInt16) : p.labels pc = q.labels pc := by
  rw [← labels_joined pc p, ← labels_joined pc q, joined_eq_of_render_eq hp hq hsame]

end Program

/-! ### Sizes and tables -/

/-- The size of the item that a line is written for. -/
def lineSize? (line : List Char) : Option Nat :=
  (Item.ofLine? line).map Item.size

/-- The bytes that are listed on lines, up to the first line that lists none. -/
def listed : List (List Char) → Bytes
  | [] => []
  | line :: rest =>
    match Item.ofLine? line with
    | some (.data row) => row ++ listed rest
    | _ => []

/-- An instruction is on a line of its own, which tells its size. -/
theorem exists_line {m : Mnemonic} {operand : Operand}
    (hlegible : (Item.code m operand).isLegible) :
    ∃ line, (Item.code m operand).lines = [line] ∧ lineSize? line = some (m.width operand) := by
  have hsingle : ∃ line, (Item.code m operand).lines = [line] := by
    rw [Item.lines]
    split <;> exact ⟨_, rfl⟩
  obtain ⟨line, hhere⟩ := hsingle
  have hread := Item.map_ofLine?_lines hlegible
  have huncut : (Item.code m operand).linewise = [.code m operand] := rfl
  rw [hhere, huncut, List.map_singleton, List.map_singleton, List.singleton_inj] at hread
  exact ⟨line, hhere, by rw [lineSize?, hread, Option.map_some, Item.size]⟩

/-- A numeric address is written with two digits exactly if its instruction takes two bytes. -/
theorem exists_digits (m : Mnemonic) (addr : UInt16) : ∃ digits,
    hexNumber? digits = some addr.toNat ∧
    (Operand.address addr).text? = some ('$' :: digits) ∧
    (Operand.addressX addr).text? = some ('$' :: digits ++ [',', 'x']) ∧
    (digits.length = 2 ↔ m.width (.address addr) = 2) ∧
    (digits.length = 2 ↔ m.width (.addressX addr) = 2) := by
  refine ⟨addressDigits addr, hexNumber?_addressDigits addr, rfl, rfl, ?_⟩
  rw [addressDigits, Mnemonic.width, Mnemonic.width]
  split <;> simp [hexByte, hexWord]

namespace Program

/-- The data at the start of a program. -/
def leading : Program → Bytes
  | .data bytes :: rest => bytes ++ leading rest
  | _ => []

private theorem leading_map_data (parts : List Bytes) (p : Program) :
    (parts.map .data ++ p : Program).leading = parts.flatten ++ p.leading := by
  induction parts with
  | nil => rfl
  | cons part rest ih =>
    rw [List.map_cons, List.cons_append, leading, ih, List.flatten_cons, List.append_assoc]

/-- Cutting data where the lines are keeps the data at the start. -/
theorem leading_linewise (p : Program) : p.linewise.leading = p.leading := by
  induction p with
  | nil => rfl
  | cons item rest ih =>
    rw [linewise, List.flatMap_cons, ← linewise]
    cases item with
    | data bytes => rw [Item.linewise, leading_map_data, flatten_rows, ih, leading]
    | _ => rfl

/-- The bytes that are listed at the start of lines are those of the items that they are read as. -/
theorem listed_of_map_ofLine? {lines : List (List Char)} {p : Program}
    (hread : lines.map Item.ofLine? = p.map some) : listed lines = p.leading := by
  induction lines generalizing p with
  | nil =>
    obtain rfl : p = [] := by simpa using hread.symm
    rfl
  | cons line rest ih =>
    obtain ⟨item, items, rfl, hhere, hmore⟩ := List.map_eq_cons_iff.1 hread.symm
    cases item <;> simp [listed, leading, ← hhere, ih hmore.symm]

private theorem listed_lines (hlegible : p.isLegible) : listed p.lines = p.leading := by
  rw [listed_of_map_ofLine? (map_ofLine?_lines hlegible), leading_linewise]

/-- A text that tells the size of each instruction of a program on its line, and the bytes of each
table after the line of its label. -/
structure ToldBy (p : Program) (text : String) : Prop where
  sizes {m : Mnemonic} {operand : Operand} (mem : .code m operand ∈ p) :
    ∃ line ∈ textLines text, (Item.code m operand).lines = [line] ∧
      lineSize? line = some (m.width operand)
  tables {before after : Program} {name : String} (split : p = before ++ .label name :: after) :
    textLines text = before.lines ++ name.toList :: after.lines ∧
      listed after.lines = after.leading

theorem toldBy_render (hlegible : p.isLegible) : p.ToldBy p.render where
  sizes hmem := by
    obtain ⟨line, hhere, hsize⟩ := exists_line (List.all_eq_true.1 hlegible _ hmem)
    refine ⟨line, ?_, hhere, hsize⟩
    rw [textLines_render hlegible, lines, List.mem_flatMap]
    exact ⟨_, hmem, hhere ▸ List.mem_singleton_self line⟩
  tables hsplit := by
    rw [textLines_render hlegible]
    subst hsplit
    rw [isLegible_append, Bool.and_eq_true] at hlegible
    refine ⟨lines_append .., listed_lines ?_⟩
    exact (Bool.and_eq_true_iff.1 hlegible.2).2

end Program

end SidTune.Assembly
