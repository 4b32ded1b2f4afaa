import SidTune.Assembly.Program
import SidTune.Basic

/-!
# The processor

The 6502 as far as a program of items needs it: three registers, a stack pointer into page one, a
program counter, six flags, and 64 kilobytes of memory. An instruction gives the bytes it writes,
in order, and the registers after it; memory changes by the writes alone. Labels stand for the
addresses that a function `locate` gives them. Sums in decimal mode are not modelled.

## Main definitions

* `SidTune.Processor.Flags`, `SidTune.Processor.Registers`, `SidTune.Processor.Machine`: the state.
* `SidTune.Processor.Memory.after`: memory after a list of writes.
* `SidTune.Processor.execute`: one instruction.
* `SidTune.Processor.Machine.enter`, `SidTune.Processor.Machine.interrupt`: what happens to a
  machine when a routine is called, and when it is interrupted.

## Main results

* `SidTune.Processor.Memory.after_of_unwritten`: a cell that is not written keeps its value.
* `SidTune.Processor.Flags.ofByte_byte`: pulling pushed flags gives them back.
-/

namespace SidTune.Processor

open Assembly

/-! ### Memory -/

/-- The contents of all cells. -/
abbrev Memory := UInt16 → UInt8

/-- One byte written to one cell. -/
structure Write where
  address : UInt16
  value : UInt8
  deriving DecidableEq, Repr

namespace Memory

/-- Memory after one write. -/
def write (memory : Memory) (w : Write) : Memory :=
  fun cell => if cell = w.address then w.value else memory cell

/-- Memory after writes in order. -/
def after (memory : Memory) (writes : List Write) : Memory :=
  writes.foldl write memory

@[simp] theorem after_nil (memory : Memory) : memory.after [] = memory := rfl

@[simp] theorem after_cons (memory : Memory) (w : Write) (writes : List Write) :
    memory.after (w :: writes) = (memory.write w).after writes := rfl

@[simp] theorem after_append (memory : Memory) (first second : List Write) :
    memory.after (first ++ second) = (memory.after first).after second :=
  List.foldl_append

theorem write_same (memory : Memory) (w : Write) : memory.write w w.address = w.value :=
  if_pos rfl

theorem write_of_ne (memory : Memory) {w : Write} {cell : UInt16} (h : cell ≠ w.address) :
    memory.write w cell = memory cell :=
  if_neg h

/-- A cell that is not written keeps its value. -/
theorem after_of_unwritten {writes : List Write} {cell : UInt16} (memory : Memory)
    (h : ∀ w ∈ writes, cell ≠ w.address) : memory.after writes cell = memory cell := by
  induction writes generalizing memory with
  | nil => rfl
  | cons w rest ih =>
    rw [after_cons, ih _ fun w hw => h w (List.mem_cons_of_mem _ hw),
      write_of_ne memory (h w List.mem_cons_self)]

end Memory

/-! ### Flags -/

/-- The status flags; `masked` holds interrupts off. -/
structure Flags where
  negative : Bool
  overflow : Bool
  decimal : Bool
  masked : Bool
  zero : Bool
  carry : Bool
  deriving DecidableEq, Repr

namespace Flags

/-- The flags after a value was moved or computed. -/
def seeing (f : Flags) (v : UInt8) : Flags :=
  { f with negative := 0x80 ≤ v, zero := v = 0 }

/-- The flags after a register was compared with a value. -/
def comparing (f : Flags) (register v : UInt8) : Flags :=
  { f.seeing (register - v) with carry := v ≤ register }

/-- The byte in which an interrupt pushes the flags. -/
def byte (f : Flags) : UInt8 :=
  (if f.negative then 0x80 else 0) ||| (if f.overflow then 0x40 else 0) ||| 0x20
    ||| (if f.decimal then 0x08 else 0) ||| (if f.masked then 0x04 else 0)
    ||| (if f.zero then 0x02 else 0) ||| (if f.carry then 0x01 else 0)

/-- The flags that are pulled from a byte. -/
def ofByte (b : UInt8) : Flags where
  negative := b &&& 0x80 ≠ 0
  overflow := b &&& 0x40 ≠ 0
  decimal := b &&& 0x08 ≠ 0
  masked := b &&& 0x04 ≠ 0
  zero := b &&& 0x02 ≠ 0
  carry := b &&& 0x01 ≠ 0

/-- Pulling pushed flags gives them back. -/
@[simp] theorem ofByte_byte (f : Flags) : ofByte f.byte = f := by
  obtain ⟨negative, overflow, decimal, masked, zero, carry⟩ := f
  revert negative overflow decimal masked zero carry
  decide

end Flags

/-! ### Registers -/

/-- The registers of the processor. -/
structure Registers where
  a : UInt8
  x : UInt8
  y : UInt8
  /-- The stack pointer, which tells the free cell next to be used. -/
  stack : UInt8
  pc : UInt16
  flags : Flags

/-- A processor with its memory. -/
structure Machine extends Registers where
  memory : Memory

namespace Registers

/-- Moves a value to the accumulator. -/
def setA (r : Registers) (v : UInt8) : Registers :=
  { r with a := v, flags := r.flags.seeing v }

/-- Moves a value to the first index register. -/
def setX (r : Registers) (v : UInt8) : Registers :=
  { r with x := v, flags := r.flags.seeing v }

/-- Moves a value to the second index register. -/
def setY (r : Registers) (v : UInt8) : Registers :=
  { r with y := v, flags := r.flags.seeing v }

/-- The sum of the accumulator, a value and the carry, not held to a byte. -/
def total (r : Registers) (v : UInt8) : Nat :=
  r.a.toNat + v.toNat + r.flags.carry.toNat

/-- Adds a value and the carry to the accumulator. -/
def add (r : Registers) (v : UInt8) : Registers :=
  let sum := UInt8.ofNat (r.total v)
  { r with
    a := sum
    flags := { r.flags.seeing sum with
      carry := 0x100 ≤ r.total v
      overflow := (r.a ^^^ sum) &&& (v ^^^ sum) &&& 0x80 ≠ 0 } }

/-- Goes to a target if a condition holds. -/
def branch (r : Registers) (condition : Bool) (target : UInt16) : Registers :=
  { r with pc := if condition then target else r.pc }

end Registers

/-! ### The stack -/

/-- The cell of a value of the stack pointer. -/
def stackCell (top : UInt8) : UInt16 :=
  0x0100 + top.toUInt16

/-- The writes that push bytes, the first one first. -/
def pushes (top : UInt8) : List UInt8 → List Write
  | [] => []
  | b :: rest => ⟨stackCell top, b⟩ :: pushes (top - 1) rest

/-- The byte that was pushed last but `depth`. -/
def Machine.pulled (m : Machine) (depth : UInt8) : UInt8 :=
  m.memory (stackCell (m.stack + 1 + depth))

/-- The address at which a machine goes on when it returns from a call. -/
def Machine.returnAddress (m : Machine) : UInt16 :=
  wordOf (m.pulled 1) (m.pulled 0) + 1

theorem toNat_stackCell (top : UInt8) : (stackCell top).toNat = 0x0100 + top.toNat := by
  have := top.toNat_lt
  rw [stackCell, UInt16.toNat_add]
  simp only [UInt16.reduceToNat, UInt8.toNat_toUInt16]
  omega

@[simp] theorem stackCell_inj {s t : UInt8} : stackCell s = stackCell t ↔ s = t := by
  refine ⟨fun h => ?_, congrArg stackCell⟩
  have := congrArg UInt16.toNat h
  rw [toNat_stackCell, toNat_stackCell] at this
  exact UInt8.toNat_inj.1 (by omega)

/-! ### Instructions -/

/-- How an operand is addressed. -/
inductive Form where
  | implied | immediate | plain | plusX | plusY
  deriving DecidableEq, Repr

/-- The form of an operand. -/
def formOf : Operand → Form
  | .implied => .implied
  | .immediate _ | .lowOf _ | .highOf _ => .immediate
  | .address _ | .label _ => .plain
  | .addressX _ | .labelX _ => .plusX
  | .labelY _ => .plusY

/-- The forms in which an instruction exists. -/
def formsOf : Mnemonic → List Form
  | .adc | .cmp | .lda | .ora => [.immediate, .plain, .plusX, .plusY]
  | .ldx => [.immediate, .plain, .plusY]
  | .ldy => [.immediate, .plain, .plusX]
  | .cpx => [.immediate, .plain]
  | .sta => [.plain, .plusX, .plusY]
  | .stx | .jmp | .jsr | .beq | .bne | .bpl => [.plain]
  | .dec | .inc => [.plain, .plusX]
  | .clc | .cli | .dex | .inx | .pha | .pla | .rti | .rts | .sei | .tax | .tay | .txa | .tya =>
    [.implied]

section Execute

variable (locate : String → UInt16)

/-- The cell that an operand names. -/
def cellOf (r : Registers) : Operand → UInt16
  | .address addr => addr
  | .addressX addr =>
    if inZeroPage addr then (addr.toUInt8 + r.x).toUInt16 else addr + r.x.toUInt16
  | .label name => locate name
  | .labelX name => locate name + r.x.toUInt16
  | .labelY name => locate name + r.y.toUInt16
  | _ => 0

/-- The byte that an operand gives. -/
def byteOf (m : Machine) : Operand → UInt8
  | .immediate value => value
  | .lowOf name => (locate name).toUInt8
  | .highOf name => (locate name >>> 8).toUInt8
  | operand => m.memory (cellOf locate m.toRegisters operand)

/-- What an instruction writes, and the registers after it, where `r` are those of the machine with
the program counter moved on. -/
def effect (m : Machine) (r : Registers) (operand : Operand) :
    Mnemonic → Option (List Write × Registers)
  | .lda => some ([], r.setA (byteOf locate m operand))
  | .ldx => some ([], r.setX (byteOf locate m operand))
  | .ldy => some ([], r.setY (byteOf locate m operand))
  | .sta => some ([⟨cellOf locate r operand, r.a⟩], r)
  | .stx => some ([⟨cellOf locate r operand, r.x⟩], r)
  | .tax => some ([], r.setX r.a)
  | .tay => some ([], r.setY r.a)
  | .txa => some ([], r.setA r.x)
  | .tya => some ([], r.setA r.y)
  | .inx => some ([], r.setX (r.x + 1))
  | .dex => some ([], r.setX (r.x - 1))
  | .inc =>
    let v := byteOf locate m operand + 1
    some ([⟨cellOf locate r operand, v⟩], { r with flags := r.flags.seeing v })
  | .dec =>
    let v := byteOf locate m operand - 1
    some ([⟨cellOf locate r operand, v⟩], { r with flags := r.flags.seeing v })
  | .adc => if r.flags.decimal then none else some ([], r.add (byteOf locate m operand))
  | .ora => some ([], r.setA (r.a ||| byteOf locate m operand))
  | .cmp => some ([], { r with flags := r.flags.comparing r.a (byteOf locate m operand) })
  | .cpx => some ([], { r with flags := r.flags.comparing r.x (byteOf locate m operand) })
  | .beq => some ([], r.branch r.flags.zero (cellOf locate r operand))
  | .bne => some ([], r.branch (!r.flags.zero) (cellOf locate r operand))
  | .bpl => some ([], r.branch (!r.flags.negative) (cellOf locate r operand))
  | .clc => some ([], { r with flags := { r.flags with carry := false } })
  | .cli => some ([], { r with flags := { r.flags with masked := false } })
  | .sei => some ([], { r with flags := { r.flags with masked := true } })
  | .jmp => some ([], { r with pc := cellOf locate r operand })
  | .jsr => some (pushes r.stack (Bytes.word (r.pc - 1)),
      { r with stack := r.stack - 2, pc := cellOf locate r operand })
  | .rts => some ([],
      { r with stack := r.stack + 2, pc := wordOf (m.pulled 1) (m.pulled 0) + 1 })
  | .pha => some (pushes r.stack [r.a], { r with stack := r.stack - 1 })
  | .pla => some ([], { r.setA (m.pulled 0) with stack := r.stack + 1 })
  | .rti => some ([],
      { r with
        stack := r.stack + 3
        pc := wordOf (m.pulled 2) (m.pulled 1)
        flags := .ofByte (m.pulled 0) })

/-- One instruction: what it writes, and the machine after it. There is none if the instruction does
not exist with the form of its operand. -/
def execute (op : Mnemonic) (operand : Operand) (m : Machine) : Option (List Write × Machine) :=
  if formOf operand ∈ formsOf op then
    let r := { m.toRegisters with pc := m.pc + UInt16.ofNat (op.width operand) }
    (effect locate m r operand op).map fun done =>
      (done.1, { toRegisters := done.2, memory := m.memory.after done.1 })
  else none

section

variable {op : Mnemonic} {operand : Operand} {m n : Machine} {writes : List Write}

theorem effect_adc {r r' : Registers} (h : effect locate m r operand .adc = some (writes, r')) :
    writes = [] ∧ r' = r.add (byteOf locate m operand) := by
  simp only [effect] at h
  split at h
  · cases h
  · cases h
    exact ⟨rfl, rfl⟩

/-- An instruction has its effect behind itself, and its writes change memory. -/
theorem effect_of_execute (h : execute locate op operand m = some (writes, n)) :
    ∃ r, effect locate m { m.toRegisters with pc := m.pc + UInt16.ofNat (op.width operand) }
        operand op = some (writes, r) ∧
      n = { toRegisters := r, memory := m.memory.after writes } := by
  unfold execute at h
  split at h
  · obtain ⟨⟨writes', r⟩, hr, hn⟩ := Option.map_eq_some_iff.1 h
    cases hn
    exact ⟨r, hr, rfl⟩
  · cases h

theorem memory_of_execute (h : execute locate op operand m = some (writes, n)) :
    n.memory = m.memory.after writes := by
  obtain ⟨r, -, rfl⟩ := effect_of_execute locate h
  rfl

end

end Execute

/-! ### Entering a routine -/

/-- The machine that has been sent to a routine at `entry` by a call after which it would go on
where it is. -/
def Machine.enter (m : Machine) (entry : UInt16) : Machine where
  toRegisters := { m.toRegisters with stack := m.stack - 2, pc := entry }
  memory := m.memory.after (pushes m.stack (Bytes.word (m.pc - 1)))

/-- A routine that was called returns to where the call was made. -/
theorem returnAddress_enter (m : Machine) (entry : UInt16) :
    (m.enter entry).returnAddress = m.pc := by
  have hlow : m.stack - 2 + 1 + 0 = m.stack - 1 := by grind
  have hhigh : m.stack - 2 + 1 + 1 = m.stack := by grind
  have hne : m.stack - 1 ≠ m.stack := by grind
  simp only [Machine.returnAddress, Machine.pulled, Machine.enter, hlow, hhigh, Bytes.word, pushes,
    Memory.after_cons, Memory.after_nil, Memory.write, stackCell_inj, if_neg hne, if_neg hne.symm,
    if_true, wordOf_bytes]
  grind

/-- What was pushed last is pulled first. -/
theorem pulled_pushes {m n : Machine} {first second third : UInt8}
    (hmemory : n.memory = m.memory.after (pushes m.stack [first, second, third]))
    (hstack : n.stack = m.stack - UInt8.ofNat 3) :
    n.pulled 0 = third ∧ n.pulled 1 = second ∧ n.pulled 2 = first := by
  have hlowest : n.stack + 1 + 0 = m.stack - 1 - 1 := by grind
  have hmiddle : n.stack + 1 + 1 = m.stack - 1 := by grind
  have highest : n.stack + 1 + 2 = m.stack := by grind
  have hne : m.stack - 1 ≠ m.stack := by grind
  have hne' : m.stack - 1 - 1 ≠ m.stack := by grind
  have hne'' : m.stack - 1 - 1 ≠ m.stack - 1 := by grind
  simp only [Machine.pulled, hmemory, hlowest, hmiddle, highest, pushes, Memory.after_cons,
    Memory.after_nil, Memory.write, stackCell_inj, if_true, if_neg hne.symm, if_neg hne'.symm,
    if_neg hne''.symm, and_self]

/-- The word that is stored in a cell and the next, low byte first. -/
def Machine.vector (m : Machine) (cell : UInt16) : UInt16 :=
  wordOf (m.memory (cell + 1)) (m.memory cell)

/-- The machine that has been interrupted and sent to the handler whose address is stored at
`cell`. -/
def Machine.interrupt (m : Machine) (cell : UInt16) : Machine where
  toRegisters := { m.toRegisters with
    stack := m.stack - 3
    pc := m.vector cell
    flags := { m.flags with masked := true } }
  memory := m.memory.after (pushes m.stack (Bytes.word m.pc ++ [m.flags.byte]))

end SidTune.Processor
