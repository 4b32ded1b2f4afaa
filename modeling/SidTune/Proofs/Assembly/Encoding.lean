import SidTune.Proofs.Processor.Linking

/-!
# Machine code

What an assembler makes of a program, given the addresses of its labels: each instruction becomes
its operation code and its argument, in the short form if the address is in the zero page and there
is one, and each label has to be where it is said to be. An instruction that does not exist with its
operand and a branch to a label out of reach make nothing.

## Main definitions

* `SidTune.Assembly.Mode`, `SidTune.Assembly.opcode?`: the instructions that there are.
* `SidTune.Assembly.instruction?`: the bytes of an instruction.
* `SidTune.Assembly.Program.assemble?`: the load address and the image of a program.

## Main results

* `SidTune.Assembly.Mnemonic.width_eq`: the width of an instruction is that of its mode.
* `SidTune.Assembly.length_instruction`: an instruction is as long as its width says.
* `SidTune.Assembly.exists_instruction`: what makes sure that there is an instruction.
* `SidTune.Assembly.Program.machineCode?_unique`: a program has bytes with one choice of addresses
  for its labels at most.
-/

namespace SidTune.Assembly

/-! ### Addressing modes -/

/-- The addressing modes. -/
inductive Mode where
  | implied | immediate | relative | zeroPage | zeroPageX | zeroPageY | absolute | absoluteX
  | absoluteY
  deriving DecidableEq, Repr

/-- How many bytes follow the operation code. -/
def Mode.argumentSize : Mode → Nat
  | implied => 0
  | immediate | relative | zeroPage | zeroPageX | zeroPageY => 1
  | absolute | absoluteX | absoluteY => 2

/-- The operation code of an instruction in a mode, if there is one. -/
def opcode? : Mnemonic → Mode → Option UInt8
  | .adc, .immediate => some 0x69
  | .adc, .zeroPage => some 0x65
  | .adc, .zeroPageX => some 0x75
  | .adc, .absolute => some 0x6D
  | .adc, .absoluteX => some 0x7D
  | .adc, .absoluteY => some 0x79
  | .beq, .relative => some 0xF0
  | .bne, .relative => some 0xD0
  | .bpl, .relative => some 0x10
  | .clc, .implied => some 0x18
  | .cli, .implied => some 0x58
  | .cmp, .immediate => some 0xC9
  | .cmp, .zeroPage => some 0xC5
  | .cmp, .zeroPageX => some 0xD5
  | .cmp, .absolute => some 0xCD
  | .cmp, .absoluteX => some 0xDD
  | .cmp, .absoluteY => some 0xD9
  | .cpx, .immediate => some 0xE0
  | .cpx, .zeroPage => some 0xE4
  | .cpx, .absolute => some 0xEC
  | .dec, .zeroPage => some 0xC6
  | .dec, .zeroPageX => some 0xD6
  | .dec, .absolute => some 0xCE
  | .dec, .absoluteX => some 0xDE
  | .dex, .implied => some 0xCA
  | .inc, .zeroPage => some 0xE6
  | .inc, .zeroPageX => some 0xF6
  | .inc, .absolute => some 0xEE
  | .inc, .absoluteX => some 0xFE
  | .inx, .implied => some 0xE8
  | .jmp, .absolute => some 0x4C
  | .jsr, .absolute => some 0x20
  | .lda, .immediate => some 0xA9
  | .lda, .zeroPage => some 0xA5
  | .lda, .zeroPageX => some 0xB5
  | .lda, .absolute => some 0xAD
  | .lda, .absoluteX => some 0xBD
  | .lda, .absoluteY => some 0xB9
  | .ldx, .immediate => some 0xA2
  | .ldx, .zeroPage => some 0xA6
  | .ldx, .zeroPageY => some 0xB6
  | .ldx, .absolute => some 0xAE
  | .ldx, .absoluteY => some 0xBE
  | .ldy, .immediate => some 0xA0
  | .ldy, .zeroPage => some 0xA4
  | .ldy, .zeroPageX => some 0xB4
  | .ldy, .absolute => some 0xAC
  | .ldy, .absoluteX => some 0xBC
  | .ora, .immediate => some 0x09
  | .ora, .zeroPage => some 0x05
  | .ora, .zeroPageX => some 0x15
  | .ora, .absolute => some 0x0D
  | .ora, .absoluteX => some 0x1D
  | .ora, .absoluteY => some 0x19
  | .pha, .implied => some 0x48
  | .pla, .implied => some 0x68
  | .rti, .implied => some 0x40
  | .rts, .implied => some 0x60
  | .sei, .implied => some 0x78
  | .sta, .zeroPage => some 0x85
  | .sta, .zeroPageX => some 0x95
  | .sta, .absolute => some 0x8D
  | .sta, .absoluteX => some 0x9D
  | .sta, .absoluteY => some 0x99
  | .stx, .zeroPage => some 0x86
  | .stx, .zeroPageY => some 0x96
  | .stx, .absolute => some 0x8E
  | .tax, .implied => some 0xAA
  | .tay, .implied => some 0xA8
  | .txa, .implied => some 0x8A
  | .tya, .implied => some 0x98
  | _, _ => none

/-- The mode of an operand, where labels are above the zero page. -/
def Mnemonic.mode (op : Mnemonic) : Operand → Mode
  | .implied => .implied
  | .immediate _ | .lowOf _ | .highOf _ => .immediate
  | .address addr => if inZeroPage addr then .zeroPage else .absolute
  | .addressX addr => if inZeroPage addr then .zeroPageX else .absoluteX
  | .label _ => if op.isRelative then .relative else .absolute
  | .labelX _ => .absoluteX
  | .labelY _ => .absoluteY

/-- The width of an instruction is that of its mode. -/
theorem Mnemonic.width_eq (op : Mnemonic) (operand : Operand) :
    op.width operand = 1 + (op.mode operand).argumentSize := by
  cases operand <;> simp only [Mnemonic.width, Mnemonic.mode] <;> (try split) <;> rfl

/-- Whether an instruction exists with its operand. -/
def Mnemonic.takes (op : Mnemonic) (operand : Operand) : Bool :=
  (opcode? op (op.mode operand)).isSome

private theorem mode_of_isRelative {op : Mnemonic} {mode : Mode} (hrelative : op.isRelative)
    (hexist : (opcode? op mode).isSome) : mode = .relative := by
  cases op with
  | beq | bne | bpl => cases mode <;> first | rfl | cases hexist
  | _ => cases hrelative

theorem not_inZeroPage {addr : UInt16} (habove : 0x00FF < addr.toNat) : ¬ inZeroPage addr := by
  simp only [inZeroPage, decide_eq_true_eq, UInt16.lt_iff_toNat_lt, UInt16.reduceToNat]
  omega

/-! ### Instructions -/

/-- How an address is indexed. -/
inductive Index where
  | none | x | y
  deriving DecidableEq, Repr

/-- The mode of an address in the zero page. -/
def Index.short : Index → Mode
  | none => .zeroPage
  | x => .zeroPageX
  | y => .zeroPageY

/-- The mode of any address. -/
def Index.long : Index → Mode
  | none => .absolute
  | x => .absoluteX
  | y => .absoluteY

/-- An operand with the addresses of its labels. -/
inductive Argument where
  | nothing
  | value (byte : UInt8)
  | place (index : Index) (addr : UInt16)
  deriving DecidableEq, Repr

/-- How far a target is from the instruction that follows a branch at `pc`. -/
def displacement (pc : Nat) (target : UInt16) : Int :=
  target.toNat - (pc + 2)

/-- A branch at `pc` reaches its target. -/
def Reaches (pc : Nat) (target : UInt16) : Prop :=
  -128 ≤ displacement pc target ∧ displacement pc target ≤ 127

instance (pc : Nat) (target : UInt16) : Decidable (Reaches pc target) :=
  inferInstanceAs (Decidable (_ ∧ _))

/-- The bytes of a branch at `pc`. -/
def branch? (op : Mnemonic) (pc : Nat) (target : UInt16) : Option Bytes :=
  if Reaches pc target then
    (opcode? op .relative).map fun code => [code, .ofInt (displacement pc target)]
  else none

/-- The bytes of an instruction that names a cell. -/
def access? (op : Mnemonic) (index : Index) (addr : UInt16) : Option Bytes :=
  match if inZeroPage addr then opcode? op index.short else none with
  | some code => some [code, addr.toUInt8]
  | none => (opcode? op index.long).map fun code => code :: (Bytes.word addr).reverse

/-- The bytes of an instruction at `pc`. -/
def encode? (op : Mnemonic) (pc : Nat) : Argument → Option Bytes
  | .nothing => (opcode? op .implied).map fun code => [code]
  | .value byte => (opcode? op .immediate).map fun code => [code, byte]
  | .place index addr =>
    if op.isRelative && index = .none then branch? op pc addr else access? op index addr

/-- The labels that an operand names. -/
def Operand.names : Operand → List String
  | lowOf name | highOf name | label name | labelX name | labelY name => [name]
  | implied | immediate _ | address _ | addressX _ => []

section Symbols

variable (symbols : String → Option UInt16)

/-- An operand with the addresses of its labels, if they have any. -/
def Operand.argument? : Operand → Option Argument
  | implied => some .nothing
  | immediate value => some (.value value)
  | lowOf name => (symbols name).map fun addr : UInt16 => .value addr.toUInt8
  | highOf name => (symbols name).map fun addr : UInt16 => .value (addr >>> 8).toUInt8
  | address addr => some (.place .none addr)
  | addressX addr => some (.place .x addr)
  | label name => (symbols name).map (.place .none)
  | labelX name => (symbols name).map (.place .x)
  | labelY name => (symbols name).map (.place .y)

/-- The bytes of an instruction at `pc` with the addresses of its labels. -/
def instruction? (pc : Nat) (op : Mnemonic) (operand : Operand) : Option Bytes :=
  (operand.argument? symbols).bind (encode? op pc)

/-- The bytes of an item at `pc`. A label has to be where it is, and there is no second origin. -/
def Item.bytes? (pc : Nat) : Item → Option Bytes
  | code op operand => instruction? symbols pc op operand
  | data bytes => some bytes
  | label name => if (symbols name).map UInt16.toNat = some pc then some [] else none
  | comment _ | blank => some []
  | origin _ => none

namespace Program

/-- The bytes of a program that is placed from `pc` on. -/
def machineCode? (pc : Nat) : Program → Option Bytes
  | [] => some []
  | item :: rest => do
    let first ← item.bytes? symbols pc
    let later ← machineCode? (pc + first.length) rest
    return first ++ later

/-- The load address and the image of a program that starts with an origin. -/
def assemble? : Program → Option (UInt16 × Bytes)
  | .comment _ :: rest | .blank :: rest => assemble? rest
  | .origin start :: rest => do
    let image ← machineCode? symbols start.toNat rest
    if start.toNat + image.length ≤ 0x10000 then return (start, image) else none
  | _ => none

end Program

end Symbols

section Lengths

variable {symbols : String → Option UInt16} {pc : Nat} {op : Mnemonic} {operand : Operand}

theorem length_branch {target : UInt16} {bytes : Bytes} (h : branch? op pc target = some bytes) :
    bytes.length = 2 := by
  unfold branch? at h
  split at h
  · obtain ⟨code, -, rfl⟩ := Option.map_eq_some_iff.1 h
    rfl
  · cases h

private theorem access?_of_not_inZeroPage {index : Index} {addr : UInt16}
    (habove : ¬ inZeroPage addr) :
    access? op index addr =
      (opcode? op index.long).map fun code => code :: (Bytes.word addr).reverse := by
  simp [access?, habove]

private theorem access?_of_inZeroPage {index : Index} {addr : UInt16} {code : UInt8}
    (hzero : inZeroPage addr) (hexist : opcode? op index.short = some code) :
    access? op index addr = some [code, addr.toUInt8] := by
  simp [access?, hzero, hexist]

private theorem encode?_place {index : Index} {addr : UInt16} {mode : Mode}
    (hmode_eq : mode = if inZeroPage addr then index.short else index.long)
    (hexist : (opcode? op mode).isSome) :
    ∃ bytes, encode? op pc (.place index addr) = some bytes ∧
      bytes.length = 1 + mode.argumentSize := by
  have hwide : ¬ op.isRelative := by
    intro hrelative
    have := mode_of_isRelative hrelative hexist
    subst hmode_eq
    split at this <;> cases index <;> cases this
  obtain ⟨code, hexist⟩ := Option.isSome_iff_exists.1 hexist
  simp only [encode?, hwide, Bool.false_and, Bool.false_eq_true, if_false]
  split at hmode_eq
  · next hzero =>
    subst hmode_eq
    exact ⟨_, access?_of_inZeroPage hzero hexist, by cases index <;> rfl⟩
  · next habove =>
    subst hmode_eq
    refine ⟨_, (access?_of_not_inZeroPage habove).trans (congrArg _ hexist), ?_⟩
    cases index <;> rfl

/-- What becomes of an instruction that exists and whose labels are above the zero page: a branch to
a label, or bytes of the given width. -/
theorem instruction?_spec (pc : Nat) (htakes : op.takes operand)
    (hdefined : ∀ name ∈ operand.names, ∃ addr, symbols name = some addr ∧ ¬ inZeroPage addr) :
    (∃ name addr, operand = .label name ∧ op.isRelative ∧ symbols name = some addr ∧
      (opcode? op .relative).isSome ∧ instruction? symbols pc op operand = branch? op pc addr) ∨
    ∃ bytes, instruction? symbols pc op operand = some bytes ∧
      bytes.length = op.width operand := by
  rw [Mnemonic.takes] at htakes
  have hplace {index : Index} {addr : UInt16}
      (hargument : operand.argument? symbols = some (.place index addr))
      (hmode_eq : op.mode operand = if inZeroPage addr then index.short else index.long) :
      ∃ bytes, instruction? symbols pc op operand = some bytes ∧
        bytes.length = op.width operand := by
    rw [instruction?, hargument, Mnemonic.width_eq]
    exact encode?_place hmode_eq htakes
  have hvalue {byte : UInt8} (hargument : operand.argument? symbols = some (.value byte))
      (hmode_eq : op.mode operand = .immediate) : ∃ bytes, instruction? symbols pc op operand =
        some bytes ∧ bytes.length = op.width operand := by
    rw [hmode_eq] at htakes
    obtain ⟨code, hexist⟩ := Option.isSome_iff_exists.1 htakes
    rw [instruction?, hargument, Mnemonic.width_eq, hmode_eq]
    exact ⟨[code, byte], by simp [encode?, hexist], rfl⟩
  cases operand with
  | implied =>
    obtain ⟨code, hexist⟩ : ∃ code, opcode? op .implied = some code :=
      Option.isSome_iff_exists.1 htakes
    exact .inr ⟨[code], by simp [instruction?, Operand.argument?, encode?, hexist], rfl⟩
  | immediate byte => exact .inr (hvalue rfl rfl)
  | lowOf name =>
    obtain ⟨addr, hsymbol, -⟩ := hdefined name (by simp [Operand.names])
    exact .inr (hvalue (by rw [Operand.argument?, hsymbol]; rfl) rfl)
  | highOf name =>
    obtain ⟨addr, hsymbol, -⟩ := hdefined name (by simp [Operand.names])
    exact .inr (hvalue (by rw [Operand.argument?, hsymbol]; rfl) rfl)
  | address addr => exact .inr (hplace rfl rfl)
  | addressX addr => exact .inr (hplace rfl rfl)
  | label name =>
    obtain ⟨addr, hsymbol, habove⟩ := hdefined name (by simp [Operand.names])
    have hargument : (Operand.label name).argument? symbols = some (.place .none addr) := by
      rw [Operand.argument?, hsymbol]
      rfl
    by_cases hrelative : op.isRelative
    · refine .inl ⟨name, addr, rfl, hrelative, hsymbol, ?_, ?_⟩
      · simpa [Mnemonic.mode, hrelative] using htakes
      · simp [instruction?, hargument, encode?, hrelative]
    · exact .inr (hplace hargument (by simp [Mnemonic.mode, hrelative, habove, Index.long]))
  | labelX name =>
    obtain ⟨addr, hsymbol, habove⟩ := hdefined name (by simp [Operand.names])
    exact .inr (hplace (by rw [Operand.argument?, hsymbol]; rfl)
      (by simp [Mnemonic.mode, habove, Index.long]))
  | labelY name =>
    obtain ⟨addr, hsymbol, habove⟩ := hdefined name (by simp [Operand.names])
    exact .inr (hplace (by rw [Operand.argument?, hsymbol]; rfl)
      (by simp [Mnemonic.mode, habove, Index.long]))

/-- There is an instruction if its labels are above the zero page and, if it is a branch, in
reach. -/
theorem exists_instruction (htakes : op.takes operand)
    (hdefined : ∀ name ∈ operand.names, ∃ addr, symbols name = some addr ∧ ¬ inZeroPage addr)
    (hnear : ∀ name addr, operand = .label name → op.isRelative → symbols name = some addr →
      Reaches pc addr) :
    ∃ bytes, instruction? symbols pc op operand = some bytes ∧
      bytes.length = op.width operand := by
  rcases instruction?_spec pc htakes hdefined with
    ⟨name, addr, rfl, hrelative, hsymbol, hexist, heq⟩ | hdone
  · obtain ⟨code, hexist⟩ := Option.isSome_iff_exists.1 hexist
    have hmade : branch? op pc addr = some [code, .ofInt (displacement pc addr)] := by
      rw [branch?, if_pos (hnear name addr rfl hrelative hsymbol), hexist]
      rfl
    exact ⟨_, heq.trans hmade, by simp [Mnemonic.width, hrelative]⟩
  · exact hdone

/-- A branch back over itself and two more instructions of three bytes each. -/
example : instruction? (fun _ => some 0x1000) 0x1006 .bne (.label "loop") = some [0xD0, 0xF8] := by
  decide

theorem exists_symbol {bytes : Bytes} (h : instruction? symbols pc op operand = some bytes) :
    ∀ name ∈ operand.names, ∃ addr, symbols name = some addr := by
  obtain ⟨argument, hresolved, -⟩ := Option.bind_eq_some_iff.1 h
  intro name hmem
  cases operand <;> simp_all [Operand.names, Operand.argument?] <;> grind

/-- An instruction is as long as its width says. -/
theorem length_instruction {bytes : Bytes} (htakes : op.takes operand)
    (habove : ∀ name ∈ operand.names, ∀ addr, symbols name = some addr → ¬ inZeroPage addr)
    (h : instruction? symbols pc op operand = some bytes) : bytes.length = op.width operand := by
  have hdefined (name : String) (hmem : name ∈ operand.names) :
      ∃ addr, symbols name = some addr ∧ ¬ inZeroPage addr := by
    obtain ⟨addr, hsymbol⟩ := exists_symbol h name hmem
    exact ⟨addr, hsymbol, habove name hmem addr hsymbol⟩
  rcases instruction?_spec pc htakes hdefined with
    ⟨name, addr, rfl, hrelative, -, -, heq⟩ | ⟨bytes', heq, hlength⟩
  · rw [length_branch (heq ▸ h)]
    simp [Mnemonic.width, hrelative]
  · obtain rfl := Option.some.inj (h.symm.trans heq)
    exact hlength

private theorem instruction?_congr {symbols' : String → Option UInt16}
    (hsame : ∀ name ∈ operand.names, symbols name = symbols' name) :
    instruction? symbols pc op operand = instruction? symbols' pc op operand := by
  have : operand.argument? symbols = operand.argument? symbols' := by
    cases operand <;> simp_all [Operand.names, Operand.argument?]
  rw [instruction?, this, instruction?]

end Lengths

/-! ### Programs -/

/-- The labels that an item names but does not define. -/
def Item.operandNames : Item → List String
  | code _ operand => operand.names
  | _ => []

/-- Whether an item is no instruction that does not exist with its operand. -/
def Item.isPossible : Item → Bool
  | code op operand => op.takes operand
  | _ => true

namespace Program

/-- The labels that the operands of a program name. -/
def operandNames (p : Program) : List String :=
  p.flatMap Item.operandNames

/-- Whether all instructions of a program exist with their operands. -/
def isPossible (p : Program) : Bool :=
  p.all Item.isPossible

@[simp] theorem operandNames_append (p q : Program) :
    (p ++ q : Program).operandNames = p.operandNames ++ q.operandNames :=
  List.flatMap_append

@[simp] theorem isPossible_append (p q : Program) :
    (p ++ q : Program).isPossible = (p.isPossible && q.isPossible) :=
  List.all_append

theorem exists_split_of_mem_labelNames {p : Program} {name : String} (hmem : name ∈ p.labelNames) :
    ∃ pre post, p = pre ++ .label name :: post :=
  List.append_of_mem (mem_labelNames.1 hmem)

variable {symbols symbols' : String → Option UInt16} {pc : Nat} {p q : Program} {bytes : Bytes}

theorem bytes?_label {name : String} : (Item.label name).bytes? symbols pc = some bytes ↔
    (symbols name).map UInt16.toNat = some pc ∧ bytes = [] := by
  rw [Item.bytes?, Option.ite_none_right_eq_some, Option.some.injEq, eq_comm (a := [])]

theorem machineCode?_cons {item : Item} : machineCode? symbols pc (item :: p) = some bytes ↔
    ∃ first later, item.bytes? symbols pc = some first ∧
      machineCode? symbols (pc + first.length) p = some later ∧ bytes = first ++ later := by
  simp only [machineCode?, Option.bind_eq_bind, Option.bind_eq_some_iff, Option.pure_def,
    Option.some.injEq, exists_and_left, eq_comm (b := bytes)]

theorem machineCode?_append : machineCode? symbols pc (p ++ q) = some bytes ↔
    ∃ first later, machineCode? symbols pc p = some first ∧
      machineCode? symbols (pc + first.length) q = some later ∧ bytes = first ++ later := by
  induction p generalizing pc bytes with
  | nil => simp [machineCode?]
  | cons item rest ih =>
    rw [List.cons_append, machineCode?_cons]
    constructor
    · rintro ⟨first, later, hitem_eq, hrest_eq, rfl⟩
      obtain ⟨middle, last, hmiddle_eq, hlast_eq, rfl⟩ := ih.1 hrest_eq
      refine ⟨first ++ middle, last, machineCode?_cons.2 ⟨first, middle, hitem_eq, hmiddle_eq, rfl⟩,
        ?_, by simp⟩
      rwa [List.length_append, ← Nat.add_assoc]
    · rintro ⟨front, last, hfront_eq, hlast_eq, rfl⟩
      obtain ⟨first, middle, hitem_eq, hmiddle_eq, rfl⟩ := machineCode?_cons.1 hfront_eq
      refine ⟨first, middle ++ last, hitem_eq, ih.2 ⟨middle, last, hmiddle_eq, ?_, rfl⟩, by simp⟩
      rwa [List.length_append, ← Nat.add_assoc] at hlast_eq

/-- A program has bytes if its items have, each as many as its size says. -/
theorem exists_machineCode (heach : ∀ pre item post, p = pre ++ item :: post →
      ∃ bytes, item.bytes? symbols (pc + totalSize pre) = some bytes ∧
        bytes.length = item.size) :
    ∃ bytes, machineCode? symbols pc p = some bytes ∧ bytes.length = p.totalSize := by
  induction p generalizing pc with
  | nil => exact ⟨[], rfl, rfl⟩
  | cons item rest ih =>
    obtain ⟨first, hfirst_eq, hfirst_length⟩ := heach [] item rest rfl
    rw [totalSize, Nat.add_zero] at hfirst_eq
    obtain ⟨later, hlater_eq, hlater_length⟩ := @ih (pc + first.length) (by
      intro pre other post hsplit
      have := heach (item :: pre) other post (by rw [hsplit, List.cons_append])
      rwa [totalSize, ← hfirst_length, ← Nat.add_assoc] at this)
    refine ⟨first ++ later, machineCode?_cons.2 ⟨first, later, hfirst_eq, hlater_eq, rfl⟩, ?_⟩
    rw [List.length_append, totalSize, hfirst_length, hlater_length]

theorem length_machineCode (hpossible : p.isPossible) (hplain : p.isPlain)
    (habove : ∀ name ∈ p.operandNames, ∀ addr, symbols name = some addr → ¬ inZeroPage addr)
    (h : machineCode? symbols pc p = some bytes) : bytes.length = p.totalSize := by
  induction p generalizing pc bytes with
  | nil => cases h; rfl
  | cons item rest ih =>
    obtain ⟨first, later, hfirst_eq, hlater_eq, rfl⟩ := machineCode?_cons.1 h
    rw [isPossible, List.all_cons, Bool.and_eq_true] at hpossible
    rw [operandNames, List.flatMap_cons, List.forall_mem_append] at habove
    have hlater_length := ih hpossible.2 (isPlain_tail hplain) habove.2 hlater_eq
    have hfirst_length : first.length = item.size := by
      cases item with
      | code op operand => exact length_instruction hpossible.1 habove.1 hfirst_eq
      | data =>
        obtain rfl := Option.some.inj hfirst_eq
        simp only [isPlain, List.all_cons, itemIsPlain, Bool.and_eq_true, decide_eq_true_eq]
          at hplain
        exact (Nat.mod_eq_of_lt hplain.1).symm
      | label name =>
        obtain ⟨-, rfl⟩ := bytes?_label.1 hfirst_eq
        rfl
      | comment | blank =>
        obtain rfl := Option.some.inj hfirst_eq
        rfl
      | origin => cases hfirst_eq
    rw [List.length_append, totalSize, hfirst_length, hlater_length]

/-- A label of a program that has bytes is after the bytes of what stands before. -/
theorem exists_before {name : String} {post : Program}
    (h : machineCode? symbols pc (p ++ .label name :: post) = some bytes) :
    ∃ before after, machineCode? symbols pc p = some before ∧ bytes = before ++ after ∧
      (symbols name).map UInt16.toNat = some (pc + before.length) := by
  obtain ⟨before, after, hbefore_eq, hafter_eq, rfl⟩ := machineCode?_append.1 h
  obtain ⟨first, later, hfirst_eq, -, -⟩ := machineCode?_cons.1 hafter_eq
  obtain ⟨hsymbol, -⟩ := bytes?_label.1 hfirst_eq
  exact ⟨before, after, hbefore_eq, rfl, hsymbol⟩

/-- A program depends on the addresses of the labels that are in it. -/
theorem machineCode?_congr (hoperands : ∀ name ∈ p.operandNames, symbols name = symbols' name)
    (hlabels : ∀ name ∈ p.labelNames, symbols name = symbols' name) :
    machineCode? symbols pc p = machineCode? symbols' pc p := by
  induction p generalizing pc with
  | nil => rfl
  | cons item rest ih =>
    rw [operandNames, List.flatMap_cons, List.forall_mem_append] at hoperands
    have hlater {pc : Nat} := @ih pc hoperands.2
    cases item with
    | code op operand =>
      simp only [machineCode?, Item.bytes?, instruction?_congr hoperands.1, hlater hlabels]
    | label name =>
      have hlabels := List.forall_mem_cons.1 (hlabels : ∀ other ∈ name :: labelNames rest, _)
      simp only [machineCode?, Item.bytes?, hlabels.1, hlater hlabels.2]
    | _ => simp only [machineCode?, Item.bytes?, hlater hlabels]

/-- The addresses of the labels with which a program above the zero page has bytes are determined,
and so are the bytes. -/
theorem machineCode?_unique {bytes' : Bytes} (hpossible : p.isPossible) (hplain : p.isPlain)
    (hclosed : p.operandNames ⊆ p.labelNames) (habove : 0x0100 ≤ pc)
    (h : machineCode? symbols pc p = some bytes) (h' : machineCode? symbols' pc p = some bytes') :
    bytes = bytes' ∧ ∀ name ∈ p.labelNames, symbols name = symbols' name := by
  -- Every label is at its place, which the sizes of the items before it give.
  have hplaced {symbols : String → Option UInt16} {bytes : Bytes}
      (h : machineCode? symbols pc p = some bytes) {pre post : Program} {name : String}
      (hsplit : p = pre ++ .label name :: post) :
      (symbols name).map UInt16.toNat = some (pc + pre.totalSize) := by
    have hhigh (name : String) (hmem : name ∈ p.labelNames) (addr : UInt16)
        (hsymbol : symbols name = some addr) : ¬ inZeroPage addr := by
      obtain ⟨pre, post, hsplit⟩ := exists_split_of_mem_labelNames hmem
      obtain ⟨before, -, -, -, hplace⟩ := exists_before (hsplit ▸ h)
      rw [hsymbol] at hplace
      have := Option.some.inj hplace
      exact not_inZeroPage (by omega)
    subst hsplit
    rw [isPossible_append, Bool.and_eq_true] at hpossible
    rw [isPlain_append, Bool.and_eq_true] at hplain
    obtain ⟨before, after, hbefore_eq, -, hplace⟩ := exists_before h
    rw [hplace, length_machineCode hpossible.1 hplain.1 (fun name hmem => hhigh name (hclosed (by
      rw [operandNames_append]
      exact List.mem_append_left _ hmem))) hbefore_eq]
  have hsame (name : String) (hmem : name ∈ p.labelNames) : symbols name = symbols' name := by
    obtain ⟨pre, post, hsplit⟩ := exists_split_of_mem_labelNames hmem
    refine Option.map_injective (fun _ _ => UInt16.toNat_inj.1) ?_
    rw [hplaced h hsplit, hplaced h' hsplit]
  refine ⟨?_, hsame⟩
  rw [machineCode?_congr (fun name hmem => hsame name (hclosed hmem)) hsame] at h
  exact Option.some.inj (h.symm.trans h')

end Program

end SidTune.Assembly
