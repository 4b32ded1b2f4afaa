import SidTune.Proofs.Processor.Stretch

/-!
# Interrupts

An interrupt pushes three bytes, and a handler that returns pulls them again, so that the machine
goes on where it was. What is left of it is in cells of the stack that are free. A program that
looks at the stack by pulling only does not see them: two machines that differ in free cells go on
in lockstep.

## Main definitions

* `SidTune.Processor.Machine.resumed`: the machine to which a handler returns.
* `SidTune.Processor.Free`: cells of the stack that are not in use.
* `SidTune.Processor.Alike`: machines that differ in free cells only.
* `SidTune.Processor.looksAway`: instructions that do not look at the stack by an address.

## Main results

* `SidTune.Processor.resumed_registers`: a handler that returns gives the registers back.
* `SidTune.Processor.Linked.serves_return`: a handler that does nothing else.
* `SidTune.Processor.Linked.alike_step`, `SidTune.Processor.Linked.alike_runs`: lockstep.
-/

namespace SidTune.Processor

open Assembly

/-! ### Returning -/

/-- The machine to which a handler returns. -/
def Machine.resumed (m : Machine) : Machine where
  toRegisters := { m.toRegisters with
    stack := m.stack + 3
    pc := wordOf (m.pulled 2) (m.pulled 1)
    flags := .ofByte (m.pulled 0) }
  memory := m.memory

theorem execute_rti (locate : String → UInt16) (m : Machine) :
    execute locate .rti .implied m = some ([], m.resumed) := rfl

/-- A handler that leaves the pushed bytes alone and gives the other registers back returns to the
machine that was interrupted. -/
theorem resumed_registers {m n : Machine} {cell : UInt16} (hstack : n.stack = m.stack - 3)
    (hpulled : ∀ j < 3, n.pulled (UInt8.ofNat j) = (m.interrupt cell).pulled (UInt8.ofNat j))
    (ha : n.a = m.a) (hx : n.x = m.x) (hy : n.y = m.y) :
    n.resumed.toRegisters = m.toRegisters := by
  obtain ⟨hflags, hlow, hhigh⟩ := pulled_pushes (m := m) (n := m.interrupt cell) rfl rfl
  have hback : m.stack - 3 + 3 = m.stack := by grind
  have hp₀ := (hpulled 0 (by decide)).trans hflags
  have hp₁ := (hpulled 1 (by decide)).trans hlow
  have hp₂ := (hpulled 2 (by decide)).trans hhigh
  simp only [UInt8.reduceOfNat] at hp₀ hp₁ hp₂
  simp only [Machine.resumed, ha, hx, hy, hstack, hback, hp₀, hp₁, hp₂, wordOf_bytes,
    Flags.ofByte_byte]

/-- An interrupt leaves memory outside the stack alone. -/
theorem memory_interrupt (m : Machine) (vector : UInt16) {cell : UInt16}
    (h : inStack cell = false) : (m.interrupt vector).memory cell = m.memory cell := by
  change m.memory.after (pushes m.stack _) cell = m.memory cell
  rw [← Memory.after_outside _ _ h, outside_pushes, Memory.after_nil]

/-! ### Free cells -/

/-- A cell of the stack that is not in use when the stack pointer is at `s`; what is deeper than
`depth` under `top` does not count. -/
def Free (top : UInt8) (depth : Nat) (s : UInt8) (cell : UInt16) : Prop :=
  ∃ d e, s = top - UInt8.ofNat d ∧ d ≤ e ∧ e ≤ depth ∧ cell = stackCell (top - UInt8.ofNat e)

theorem eq_of_ofNat_eq {i j : Nat} (hi : i < 256) (hj : j < 256)
    (h : UInt8.ofNat i = UInt8.ofNat j) : i = j := by
  rw [UInt8.ofNat_eq_iff_mod_eq_toNat, UInt8.toNat_ofNat'] at h
  omega

namespace Free

variable {top s : UInt8} {depth : Nat} {cell : UInt16}

theorem inStack (h : Free top depth s cell) : inStack cell = true := by
  obtain ⟨d, e, -, -, -, rfl⟩ := h
  simp

private theorem not_above {j : Nat} (hfits : depth + j + 1 < 256) :
    ¬ Free top depth s (stackCell (s + 1 + UInt8.ofNat j)) := by
  rintro ⟨d, e, rfl, hle, hbound, heq⟩
  have hsame : UInt8.ofNat (e + j + 1) = UInt8.ofNat d := by
    have := stackCell_inj.1 heq
    rw [UInt8.ofNat_add, UInt8.ofNat_add]
    grind
  have := eq_of_ofNat_eq (by omega) (by omega) hsame
  omega

/-- What is free stays free when something is pulled. -/
theorem raise {c : Nat} (h : Free top depth s cell) (hunder : Under top depth (s + UInt8.ofNat c))
    (hfits : depth + c < 256) : Free top depth (s + UInt8.ofNat c) cell := by
  obtain ⟨d, e, rfl, hle, hbound, rfl⟩ := h
  obtain ⟨d', hd', hs⟩ := hunder
  have hsame : UInt8.ofNat (d' + c) = UInt8.ofNat d := by
    rw [UInt8.ofNat_add]
    grind
  have := eq_of_ofNat_eq (by omega) (by omega) hsame
  exact ⟨d', e, hs, by omega, hbound, rfl⟩

/-- What is free is overwritten when something is pushed, or stays free. -/
theorem lower (h : Free top depth s cell) (c : Nat) :
    (∃ j < c, cell = stackCell (s - UInt8.ofNat j)) ∨ Free top depth (s - UInt8.ofNat c) cell := by
  obtain ⟨d, e, rfl, hle, hbound, rfl⟩ := h
  by_cases hnear : e < d + c
  · refine .inl ⟨e - d, by omega, ?_⟩
    rw [stackCell_inj, ← Nat.add_sub_cancel' hle, UInt8.ofNat_add, Nat.add_sub_cancel_left]
    grind
  · refine .inr ⟨d + c, e, ?_, by omega, hbound, rfl⟩
    rw [UInt8.ofNat_add]
    grind

end Free

private theorem mem_pushes {s : UInt8} {bytes : List UInt8} {j : Nat} (hj : j < bytes.length) :
    ∃ w ∈ pushes s bytes, w.address = stackCell (s - UInt8.ofNat j) := by
  induction bytes generalizing s j with
  | nil => cases hj
  | cons b rest ih =>
    cases j with
    | zero => exact ⟨_, List.mem_cons_self, by simp⟩
    | succ j =>
      obtain ⟨w, hw, heq⟩ := ih (s := s - 1) (Nat.lt_of_succ_lt_succ hj)
      refine ⟨w, List.mem_cons_of_mem _ hw, heq.trans ?_⟩
      rw [stackCell_inj, UInt8.ofNat_add]
      grind

/-- Memories that agree on a cell or overwrite it agree on it afterwards. -/
theorem Memory.after_congr {memory memory' : Memory} {cell : UInt16} {writes : List Write}
    (h : memory' cell = memory cell ∨ ∃ w ∈ writes, w.address = cell) :
    memory'.after writes cell = memory.after writes cell := by
  induction writes generalizing memory memory' with
  | nil => exact h.resolve_right (by simp)
  | cons w rest ih =>
    refine ih ?_
    by_cases hw : cell = w.address
    · exact .inl (by simp [write, hw])
    · rcases h with hsame | ⟨u, hu, heq⟩
      · exact .inl (by rw [write_of_ne _ hw, write_of_ne _ hw, hsame])
      · rcases List.mem_cons.1 hu with rfl | hu
        · exact absurd heq.symm hw
        · exact .inr ⟨u, hu, heq⟩

/-! ### Machines that differ in free cells -/

/-- Machines with the same registers whose memories differ in free cells only. -/
structure Alike (top : UInt8) (depth : Nat) (m n : Machine) : Prop where
  registers : n.toRegisters = m.toRegisters
  memory : ∀ cell, ¬ Free top depth m.stack cell → n.memory cell = m.memory cell

namespace Alike

variable {top : UInt8} {depth : Nat} {m n : Machine}

theorem refl (top : UInt8) (depth : Nat) (m : Machine) : Alike top depth m m :=
  ⟨rfl, fun _ _ => rfl⟩

theorem outside (h : Alike top depth m n) {cell : UInt16} (hcell : inStack cell = false) :
    n.memory cell = m.memory cell :=
  h.memory cell fun hfree => by simp [hfree.inStack] at hcell

theorem pulled (h : Alike top depth m n) {j : Nat} (hfits : depth + j + 1 < 256) :
    n.pulled (UInt8.ofNat j) = m.pulled (UInt8.ofNat j) := by
  rw [Machine.pulled, Machine.pulled, congrArg Registers.stack h.registers]
  exact h.memory _ (Free.not_above hfits)

theorem push (h : Alike top (depth + 2) m n) (hunder : Under top depth m.stack)
    (bytes : List UInt8) (hthree : bytes.length = 3) :
    Alike top (depth + 2) m { n with memory := n.memory.after (pushes n.stack bytes) } where
  registers := h.registers
  memory cell hcell := by
    rw [← h.memory cell hcell]
    refine Memory.after_of_unwritten _ fun w hw heq => hcell ?_
    obtain ⟨d, hd, hs⟩ := hunder
    obtain ⟨u, ⟨j, hj, rfl⟩, hu⟩ := under_of_mem_pushes hw
    rw [congrArg Registers.stack h.registers, hs] at hu
    refine ⟨d, d + j, hs, by omega, by omega, (heq.trans hu).trans ?_⟩
    rw [stackCell_inj, UInt8.ofNat_add]
    grind

end Alike

/-! ### Lockstep -/

/-- Whether an instruction takes a byte from memory by its operand. -/
def loads : Mnemonic → Bool
  | .lda | .ldx | .ldy | .inc | .dec | .adc | .ora | .cmp | .cpx => true
  | _ => false

/-- Whether an instruction takes no byte of the stack by a fixed address; labels are elsewhere. -/
def looksAway (op : Mnemonic) (operand : Operand) : Bool :=
  !loads op || match operand with
    | .address cell => !inStack cell
    | .addressX _ => false
    | _ => true

section Effect

variable {locate : String → UInt16} {op : Mnemonic} {operand : Operand} {m m' n : Machine}
  {writes : List Write}

/-- Of memory, an instruction sees the byte of its operand and the bytes that can be pulled. -/
theorem effect_congr {r : Registers}
    (hbytes : loads op → byteOf locate m' operand = byteOf locate m operand)
    (hpulled : ∀ j < 3, m'.pulled (UInt8.ofNat j) = m.pulled (UInt8.ofNat j)) :
    effect locate m' r operand op = effect locate m r operand op := by
  have hp₀ := hpulled 0 (by decide)
  have hp₁ := hpulled 1 (by decide)
  have hp₂ := hpulled 2 (by decide)
  simp only [UInt8.reduceOfNat] at hp₀ hp₁ hp₂
  cases op
  case pla | rts | rti => simp only [effect, hp₀, hp₁, hp₂]
  case lda | ldx | ldy | inc | dec | adc | ora | cmp | cpx => simp only [effect, hbytes rfl]
  all_goals rfl

/-- An instruction moves the stack pointer up, or it pushes. -/
theorem stack_of_execute (h : execute locate op operand m = some (writes, n)) :
    (∃ c ≤ 3, n.stack = m.stack + UInt8.ofNat c) ∨
      ∃ bytes, writes = pushes m.stack bytes ∧ n.stack = m.stack - UInt8.ofNat bytes.length := by
  obtain ⟨r, hr, rfl⟩ := effect_of_execute locate h
  cases op
  case adc =>
    obtain ⟨rfl, rfl⟩ := effect_adc locate hr
    exact .inl ⟨0, by decide, (UInt8.add_zero m.stack).symm⟩
  case pla => cases hr; exact .inl ⟨1, by decide, rfl⟩
  case rts => cases hr; exact .inl ⟨2, by decide, rfl⟩
  case rti => cases hr; exact .inl ⟨3, by decide, rfl⟩
  case pha => cases hr; exact .inr ⟨[m.a], rfl, rfl⟩
  case jsr => cases hr; exact .inr ⟨_, rfl, rfl⟩
  all_goals
    cases hr
    exact .inl ⟨0, by decide, (UInt8.add_zero m.stack).symm⟩

end Effect

namespace Linked

variable {p body rest : Program} {start : UInt16} {top : UInt8} {depth : Nat} {m m' n n' : Machine}
  {op : Mnemonic} {operand : Operand} {writes : List Write}

/-- A label is above the stack, or there is no such label. -/
theorem locate_bounds (hl : Linked p start body) (name : String) :
    p.locate name = 0 ∨
      0x0200 ≤ (p.locate name).toNat ∧ (p.locate name).toNat ≤ 0xD000 := by
  unfold Program.locate Program.resolve?
  cases hfound : (p.labels 0).reverse.lookup name with
  | none => exact .inl rfl
  | some place =>
    obtain ⟨before, after, hlist, -⟩ := List.lookup_eq_some_iff.1 hfound
    have hmem : (name, place) ∈ p.labels 0 := by
      rw [← List.mem_reverse, hlist]
      simp
    rw [Program.labels_eq_filterMap_placed, List.mem_filterMap] at hmem
    obtain ⟨⟨place', item⟩, hplaced, hitem⟩ := hmem
    have hbounds := hl.placed_bounds hplaced
    cases item <;> cases hitem
    exact .inr ⟨hbounds.1, (Nat.le_add_right ..).trans hbounds.2⟩

private theorem inStack_label (hl : Linked p start body) (name : String) (x : UInt8) :
    inStack (p.locate name + x.toUInt16) = false := by
  have := x.toNat_lt
  rw [inStack, Bool.and_eq_false_iff, decide_eq_false_iff_not, decide_eq_false_iff_not,
    UInt16.le_iff_toNat_le, UInt16.lt_iff_toNat_lt, UInt16.toNat_add, UInt8.toNat_toUInt16]
  simp only [UInt16.reduceToNat]
  rcases hl.locate_bounds name with hzero | hbounds
  · rw [hzero]
    simp only [UInt16.reduceToNat]
    omega
  · omega

private theorem mem_of_code? (hl : Linked p start body) {pc : UInt16}
    (h : p.code? pc = some (op, operand)) : .code op operand ∈ body := by
  obtain ⟨⟨place, item⟩, hmem, hitem⟩ := List.exists_of_findSome?_eq_some h
  rw [hl.placed_eq] at hmem
  have hinside := Program.mem_of_mem_placed hmem
  cases item with
  | code op' operand' =>
    simp only [Program.codeAt?] at hitem
    split at hitem <;> cases hitem
    exact hinside
  | _ => cases hitem

/-- Code that looks away sees the same byte where memory is the same outside the stack. -/
theorem byteOf_congr (hl : Linked p start body) (haway : looksAway op operand) (hop : loads op)
    (hregisters : m'.toRegisters = m.toRegisters)
    (hsame : ∀ cell, inStack cell = false → m'.memory cell = m.memory cell) :
    byteOf p.locate m' operand = byteOf p.locate m operand := by
  have hx := congrArg Registers.x hregisters
  have hy := congrArg Registers.y hregisters
  simp only [looksAway, hop, Bool.not_true, Bool.false_or] at haway
  cases operand with
  | immediate | lowOf | highOf => rfl
  | implied => exact hsame 0 rfl
  | address cell => exact hsame cell (by simpa using haway)
  | addressX cell => cases haway
  | label name => exact hsame _ (by simpa [cellOf] using hl.inStack_label name 0)
  | labelX name => simpa only [byteOf, cellOf, hx] using hsame _ (hl.inStack_label name m.x)
  | labelY name => simpa only [byteOf, cellOf, hy] using hsame _ (hl.inStack_label name m.y)

/-- Machines that differ in free cells only do the same and go on to such machines. -/
theorem alike_step (hl : Linked p start body)
    (haway : ∀ op operand, .code op operand ∈ body → looksAway op operand) (hfits : depth + 3 < 256)
    (h : Alike top depth m m') (hcode' : p.code? m.pc = some (op, operand))
    (hexecution : execute p.locate op operand m = some (writes, n))
    (hunder : Under top depth n.stack) :
    ∃ n', p.code? m'.pc = some (op, operand) ∧
      execute p.locate op operand m' = some (writes, n') ∧ Alike top depth n n' := by
  have hcode : p.code? m'.pc = some (op, operand) := by
    rwa [congrArg Registers.pc h.registers]
  have hsame : execute p.locate op operand m' =
      (execute p.locate op operand m).map fun done =>
        (done.1, { toRegisters := done.2.toRegisters, memory := m'.memory.after done.1 }) := by
    have heffects (r : Registers) :
        effect p.locate m' r operand op = effect p.locate m r operand op :=
      effect_congr (fun hop => hl.byteOf_congr (haway _ _ (hl.mem_of_code? hcode')) hop h.registers
        fun _ => h.outside) fun j hj => h.pulled (by omega)
    unfold execute
    simp only [h.registers, heffects]
    split
    · rw [Option.map_map]
      rfl
    · rfl
  refine ⟨{ toRegisters := n.toRegisters, memory := m'.memory.after writes }, hcode, ?_, rfl,
    fun cell hcell => ?_⟩
  · rw [hsame, hexecution]
    rfl
  · rw [memory_of_execute _ hexecution]
    refine Memory.after_congr ?_
    by_cases hfree : Free top depth m.stack cell
    · -- A free cell that is not free any more has been pushed over; pulling frees more of them.
      right
      rcases stack_of_execute hexecution with ⟨c, hc, hup⟩ | ⟨bytes, rfl, hdown⟩
      · rw [hup] at hunder hcell
        exact absurd (hfree.raise hunder (by omega)) hcell
      · rw [hdown] at hcell
        obtain ⟨j, hj, rfl⟩ := (hfree.lower bytes.length).resolve_right hcell
        exact mem_pushes hj
    · exact .inl (h.memory cell hfree)

/-- Machines that differ in free cells only run in lockstep. -/
theorem alike_runs (hl : Linked p start body)
    (haway : ∀ op operand, .code op operand ∈ body → looksAway op operand) (hfits : depth + 3 < 256)
    {record : List Moment} (h : Alike top depth m m') (hruns : Runs p m record n)
    (hdeep : ∀ k ∈ record, Under top depth k.before.stack) (hunder : Under top depth n.stack) :
    ∃ record' n', Runs p m' record' n' ∧ writesOf record' = writesOf record ∧
      Alike top depth n n' := by
  induction hruns generalizing m' with
  | done => exact ⟨[], m', .done m', rfl, h⟩
  | @step m k n op operand writes record hcode hexecution hrest ih =>
    have hdeep' : ∀ j ∈ record, Under top depth j.before.stack :=
      fun j hj => hdeep j (List.mem_cons_of_mem _ hj)
    have hnext : Under top depth k.stack := by
      cases hrest with
      | done => exact hunder
      | step => exact hdeep' _ List.mem_cons_self
    obtain ⟨k', hcode', hexecution', halike⟩ := hl.alike_step haway hfits h hcode hexecution hnext
    obtain ⟨record', n', hruns', hwrites', halike'⟩ := ih halike hdeep' hunder
    exact ⟨_, n', .step hcode' hexecution' hruns', by rw [writesOf_cons, writesOf_cons, hwrites'],
      halike'⟩

/-- A handler that does nothing but return leaves three bytes in free cells, and nothing else. -/
theorem serves_return (hl : Linked p start body) {name : String} {cell : UInt16}
    (h : .label name :: .code .rti .implied :: rest <:+ body)
    (hcell : m.vector cell = p.locate name) :
    ∃ record n, Serves p cell m record n ∧ writesOf record = [] ∧ n.toRegisters = m.toRegisters ∧
      n.memory = m.memory.after (pushes m.stack (Bytes.word m.pc ++ [m.flags.byte])) := by
  have hsuffix := (List.suffix_cons _ _).trans h
  have hplace : (m.interrupt cell).pc = spot start body (.code .rti .implied :: rest) :=
    hcell.trans (hl.locate_eq_spot h)
  have hrun := hl.runs_code hsuffix hplace (execute_rti p.locate (m.interrupt cell))
  have hregisters : (m.interrupt cell).resumed.toRegisters = m.toRegisters :=
    resumed_registers (m := m) (n := m.interrupt cell) rfl (fun _ _ => rfl) rfl rfl rfl
  refine ⟨_, _, ⟨hrun, congrArg Registers.stack hregisters, ?_⟩, rfl, hregisters, rfl⟩
  simp only [List.mem_singleton, forall_eq]
  change m.stack - 3 ≠ m.stack
  grind

end Linked

end SidTune.Processor
