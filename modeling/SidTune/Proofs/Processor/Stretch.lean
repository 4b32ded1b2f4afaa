import SidTune.Proofs.Processor.Block

/-!
# What a stretch of a run does

A routine is described by what it does outside the stack: the bytes it writes, in order, and the
places of tables it reads. Of the stack it is told how far below a given value of the stack pointer
it is used. Such descriptions are put together piece by piece, and a call takes over that of the
routine called.

## Main definitions

* `SidTune.Processor.outside`: the writes outside the stack.
* `SidTune.Processor.readsOf`: the places of tables that a record reads.
* `SidTune.Processor.Under`: values of the stack pointer at most so far below another.
* `SidTune.Processor.Stretch`: a run with what it writes and reads and how deep it gets.
* `SidTune.Processor.Stands`: where a machine is, and what it has kept.
* `SidTune.Processor.Passes`, `SidTune.Processor.Returns`: stretches inside a routine and to its
  end.
* `SidTune.Processor.Leads`: straight code with what it writes and reads.

## Main results

* `SidTune.Processor.Stretch.memory_outside`, `SidTune.Processor.Stretch.memory_stack`: memory after
  a stretch.
* `SidTune.Processor.Linked.passes_straight`, `SidTune.Processor.Linked.passes_branch`,
  `SidTune.Processor.Linked.returns_straight`: straight code that leaves the stack alone.
* `SidTune.Processor.Linked.passes_call`: a call does what the routine does.
-/

namespace SidTune.Processor

open Assembly

/-! ### The stack and the rest of memory -/

/-- Whether a cell is in the stack. -/
def inStack (cell : UInt16) : Bool :=
  0x0100 ≤ cell && cell < 0x0200

theorem inStack_eq_false {cell : UInt16} (h : 0x0200 ≤ cell.toNat) : inStack cell = false := by
  simp only [inStack, Bool.and_eq_false_iff, decide_eq_false_iff_not, UInt16.lt_iff_toNat_lt,
    UInt16.reduceToNat]
  omega

@[simp] theorem inStack_stackCell (s : UInt8) : inStack (stackCell s) = true := by
  have := s.toNat_lt
  simp only [inStack, Bool.and_eq_true, decide_eq_true_eq, UInt16.le_iff_toNat_le,
    UInt16.lt_iff_toNat_lt, toNat_stackCell, UInt16.reduceToNat]
  omega

/-- The writes outside the stack. -/
def outside (writes : List Write) : List Write :=
  writes.filter fun w => !inStack w.address

@[simp] theorem outside_nil : outside [] = [] := rfl

@[simp] theorem outside_append (first second : List Write) :
    outside (first ++ second) = outside first ++ outside second :=
  List.filter_append ..

private theorem outside_eq_self {writes : List Write}
    (h : ∀ w ∈ writes, inStack w.address = false) :
    outside writes = writes :=
  List.filter_eq_self.2 fun w hw => by simp [h w hw]

theorem filter_outside {keep : Write → Bool} {writes : List Write}
    (h : ∀ w ∈ writes, keep w → inStack w.address = false) :
    (outside writes).filter keep = writes.filter keep := by
  rw [outside, List.filter_filter]
  refine List.filter_congr fun w hw => ?_
  cases hkept : keep w with
  | false => rfl
  | true => simp [h w hw hkept]

@[simp] theorem outside_pushes (s : UInt8) (bytes : List UInt8) :
    outside (pushes s bytes) = [] := by
  induction bytes generalizing s with
  | nil => rfl
  | cons b rest ih => simpa [pushes, outside] using ih (s - 1)

/-- Writes to other cells may be left out. -/
theorem Memory.after_filter {keep : Write → Bool} {cell : UInt16} {writes : List Write}
    (hkeep : ∀ w ∈ writes, w.address = cell → keep w) (memory : Memory) :
    memory.after (writes.filter keep) cell = memory.after writes cell := by
  suffices ∀ memory memory' : Memory, memory cell = memory' cell →
      memory.after (writes.filter keep) cell = memory'.after writes cell from this _ _ rfl
  induction writes with
  | nil => exact fun memory memory' h => h
  | cons w rest ih =>
    have ih := ih fun w hw => hkeep w (List.mem_cons_of_mem _ hw)
    intro memory memory' h
    by_cases hw : keep w
    · rw [List.filter_cons_of_pos hw]
      refine ih _ _ ?_
      simp only [write, h]
    · rw [List.filter_cons_of_neg hw]
      refine ih _ _ ?_
      rw [write_of_ne _ fun heq => hw (hkeep w List.mem_cons_self heq.symm), h]

theorem Memory.after_outside (memory : Memory) (writes : List Write) {cell : UInt16}
    (h : inStack cell = false) : memory.after (outside writes) cell = memory.after writes cell :=
  after_filter (fun w _ heq => by simp [heq, h]) memory

theorem memory_enter (m : Machine) (entry : UInt16) {cell : UInt16} (h : inStack cell = false) :
    (m.enter entry).memory cell = m.memory cell := by
  change m.memory.after (pushes m.stack _) cell = m.memory cell
  rw [← Memory.after_outside _ _ h, outside_pushes, Memory.after_nil]

/-! ### How deep the stack gets -/

/-- A value of the stack pointer is at most so far below another. -/
def Under (top : UInt8) (depth : Nat) (s : UInt8) : Prop :=
  ∃ d ≤ depth, s = top - UInt8.ofNat d

namespace Under

variable {top s : UInt8} {depth depth' : Nat}

@[simp] theorem self (top : UInt8) (depth : Nat) : Under top depth top :=
  ⟨0, Nat.zero_le _, by simp⟩

theorem mono (h : Under top depth s) (hle : depth ≤ depth') : Under top depth' s := by
  obtain ⟨d, hd, rfl⟩ := h
  exact ⟨d, hd.trans hle, rfl⟩

theorem lower {c : Nat} (h : Under (top - UInt8.ofNat c) depth s) : Under top (depth + c) s := by
  obtain ⟨d, hd, rfl⟩ := h
  refine ⟨d + c, by omega, ?_⟩
  rw [UInt8.ofNat_add]
  grind

/-- What is not too far under a value is not above it. -/
theorem ne_above (h : Under top depth s) {j : Nat} (hpos : 0 < j) (hfits : depth + j < 256) :
    s ≠ top + UInt8.ofNat j := by
  obtain ⟨d, hd, rfl⟩ := h
  intro heq
  have hzero : UInt8.ofNat (d + j) = 0 := by
    rw [UInt8.ofNat_add]
    grind
  have := congrArg UInt8.toNat hzero
  rw [UInt8.toNat_ofNat', Nat.mod_eq_of_lt (by omega)] at this
  simp at this
  omega

end Under

theorem under_of_mem_pushes {w : Write} {s : UInt8} {bytes : List UInt8} (h : w ∈ pushes s bytes) :
    ∃ u, Under s (bytes.length - 1) u ∧ w.address = stackCell u := by
  induction bytes generalizing s with
  | nil => cases h
  | cons b rest ih =>
    rcases List.mem_cons.1 h with rfl | h
    · exact ⟨s, .self .., rfl⟩
    · obtain ⟨u, hu, hw⟩ := ih h
      have hsome_left : rest ≠ [] := by
        rintro rfl
        cases h
      have := List.length_pos_of_ne_nil hsome_left
      exact ⟨u, (Under.lower (c := 1) hu).mono (by simp; omega), hw⟩

/-! ### Stretches -/

/-- The place of a table that an instruction reads, or jumps to the entry of: the name and the
index. -/
def Moment.read? (k : Moment) : Option (String × Nat) :=
  match k.operand with
  | .labelX name => some (name, k.before.x.toNat)
  | .labelY name => some (name, k.before.y.toNat)
  | _ => none

/-- The places of tables that a record reads. -/
def readsOf (record : List Moment) : List (String × Nat) :=
  record.filterMap Moment.read?

@[simp] theorem readsOf_nil : readsOf [] = [] := rfl

@[simp] theorem readsOf_cons (k : Moment) (record : List Moment) :
    readsOf (k :: record) = k.read?.toList ++ readsOf record := by
  simp only [readsOf, List.filterMap_cons]
  cases k.read? <;> rfl

@[simp] theorem readsOf_append (first second : List Moment) :
    readsOf (first ++ second) = readsOf first ++ readsOf second :=
  List.filterMap_append

/-- An addition, if it is one, gives a byte. -/
def Moment.NoCarry (locate : String → UInt16) (k : Moment) : Prop :=
  k.op = .adc → k.before.total (byteOf locate k.before k.operand) ≤ 255

/-- Whether an instruction leaves the flag alone that holds interrupts off. -/
def keepsMask : Mnemonic → Bool
  | .cli | .sei | .rti => false
  | _ => true

private theorem masked_of_execute {locate : String → UInt16} {op : Mnemonic} {operand : Operand}
    {m n : Machine} {writes : List Write} (hop : keepsMask op)
    (h : execute locate op operand m = some (writes, n)) :
    n.flags.masked = m.flags.masked := by
  obtain ⟨r, hr, rfl⟩ := effect_of_execute locate h
  cases op
  case adc =>
    obtain ⟨rfl, rfl⟩ := effect_adc locate hr
    rfl
  all_goals first
    | (cases hr; rfl)
    | (cases hop)

/-- A run with what it writes outside the stack and the places of tables it reads, in order; the
stack pointer stays at most `depth` under `top`, and so do the pushes. -/
structure Stretch (p : Program) (top : UInt8) (depth : Nat) (m : Machine) (record : List Moment)
    (n : Machine) (writes : List Write) (reads : List (String × Nat)) : Prop where
  runs : Runs p m record n
  deep : ∀ k ∈ record, Under top depth k.before.stack
  pushed : ∀ w ∈ writesOf record, inStack w.address →
    ∃ s, Under top depth s ∧ w.address = stackCell s
  writes_eq : outside (writesOf record) = writes
  reads_eq : readsOf record = reads
  sums : ∀ k ∈ record, k.NoCarry p.locate
  steady : ∀ k ∈ record, keepsMask k.op

namespace Stretch

variable {p : Program} {top : UInt8} {depth depth' : Nat} {m n n' : Machine}
  {record record' : List Moment} {writes writes' : List Write} {reads reads' : List (String × Nat)}

/-- One stretch after another. -/
theorem trans (h : Stretch p top depth m record n writes reads)
    (h' : Stretch p top depth n record' n' writes' reads') :
    Stretch p top depth m (record ++ record') n' (writes ++ writes') (reads ++ reads') where
  runs := h.runs.trans h'.runs
  deep k hk := (List.mem_append.1 hk).elim (h.deep k) (h'.deep k)
  pushed w hw := by
    rw [writesOf_append] at hw
    exact (List.mem_append.1 hw).elim (h.pushed w) (h'.pushed w)
  writes_eq := by rw [writesOf_append, outside_append, h.writes_eq, h'.writes_eq]
  reads_eq := by rw [readsOf_append, h.reads_eq, h'.reads_eq]
  sums k hk := (List.mem_append.1 hk).elim (h.sums k) (h'.sums k)
  steady k hk := (List.mem_append.1 hk).elim (h.steady k) (h'.steady k)

theorem mono (h : Stretch p top depth m record n writes reads) (hle : depth ≤ depth') :
    Stretch p top depth' m record n writes reads :=
  { h with
    deep := fun k hk => (h.deep k hk).mono hle
    pushed := fun w hw hs =>
      let ⟨s, hunder, heq⟩ := h.pushed w hw hs
      ⟨s, hunder.mono hle, heq⟩ }

theorem lower {c : Nat} (h : Stretch p (top - UInt8.ofNat c) depth m record n writes reads) :
    Stretch p top (depth + c) m record n writes reads :=
  { h with
    deep := fun k hk => (h.deep k hk).lower
    pushed := fun w hw hs =>
      let ⟨s, hunder, heq⟩ := h.pushed w hw hs
      ⟨s, hunder.lower, heq⟩ }

/-- Outside the stack, memory after a stretch is memory after its writes. -/
theorem memory_outside (h : Stretch p top depth m record n writes reads) {cell : UInt16}
    (hcell : inStack cell = false) : n.memory cell = m.memory.after writes cell := by
  rw [h.runs.memory_eq, ← Memory.after_outside _ _ hcell, h.writes_eq]

/-- The stack is kept where a stretch does not get to. -/
theorem memory_stack (h : Stretch p top depth m record n writes reads) {s : UInt8}
    (hs : ¬ Under top depth s) : n.memory (stackCell s) = m.memory (stackCell s) := by
  rw [h.runs.memory_eq]
  refine Memory.after_of_unwritten _ fun w hw heq => hs ?_
  obtain ⟨u, hunder, hu⟩ := h.pushed w hw (by simp [← heq])
  rwa [stackCell_inj.1 (heq.trans hu)]

private theorem memory_above (h : Stretch p top depth m record n writes reads) {j : Nat}
    (hpos : 0 < j) (hfits : depth + j < 256) :
    n.memory (stackCell (top + UInt8.ofNat j)) = m.memory (stackCell (top + UInt8.ofNat j)) :=
  h.memory_stack fun hunder => hunder.ne_above hpos hfits rfl

/-- All writes of a stretch are below a bound above the stack if those outside the stack are. -/
theorem address_lt (h : Stretch p top depth m record n writes reads) {bound : Nat}
    (habove : 0x0200 ≤ bound) (hbelow : ∀ w ∈ writes, w.address.toNat < bound) :
    ∀ w ∈ writesOf record, w.address.toNat < bound := by
  intro w hw
  cases hs : inStack w.address with
  | true =>
    obtain ⟨u, -, hu⟩ := h.pushed w hw hs
    have := u.toNat_lt
    rw [hu, toNat_stackCell]
    omega
  | false => exact hbelow w (h.writes_eq ▸ List.mem_filter.2 ⟨hw, by simp [hs]⟩)

theorem masked (h : Stretch p top depth m record n writes reads) :
    ∀ k ∈ record, k.before.flags.masked = m.flags.masked := by
  obtain ⟨hruns, -, -, -, -, -, hsteady⟩ := h
  induction hruns with
  | done => simp
  | step hcode hexecution hrest ih =>
    intro k hk
    rcases List.mem_cons.1 hk with rfl | hk
    · rfl
    · rw [ih (fun k hk => hsteady k (List.mem_cons_of_mem _ hk)) k hk]
      exact masked_of_execute (hsteady _ List.mem_cons_self) hexecution

end Stretch

/-! ### Where a machine is -/

/-- The machine `n` is at `pc` with the stack pointer at `stack`, and has the flags for decimal mode
and for holding interrupts off as `m` has them. -/
structure Stands (m n : Machine) (pc : UInt16) (stack : UInt8) : Prop where
  pc_eq : n.pc = pc
  stack_eq : n.stack = stack
  decimal_eq : n.flags.decimal = m.flags.decimal
  masked_eq : n.flags.masked = m.flags.masked

theorem Stands.trans {m n n' : Machine} {pc pc' : UInt16} {stack stack' : UInt8}
    (h : Stands m n pc stack) (h' : Stands n n' pc' stack') : Stands m n' pc' stack' where
  pc_eq := h'.pc_eq
  stack_eq := h'.stack_eq
  decimal_eq := h'.decimal_eq.trans h.decimal_eq
  masked_eq := h'.masked_eq.trans h.masked_eq

/-- A stretch to `pc` that leaves the stack pointer where it was. -/
structure Passes (p : Program) (depth : Nat) (m n : Machine) (pc : UInt16) (writes : List Write)
    (reads : List (String × Nat)) : Prop where
  stretch : ∃ record, Stretch p m.stack depth m record n writes reads
  stands : Stands m n pc m.stack

/-- A stretch to the end of the routine that was called last. -/
structure Returns (p : Program) (depth : Nat) (m n : Machine) (writes : List Write)
    (reads : List (String × Nat)) : Prop where
  stretch : ∃ record, Stretch p m.stack depth m record n writes reads
  stands : Stands m n m.returnAddress (m.stack + 2)

theorem Returns.mono {p : Program} {depth depth' : Nat} {m n : Machine} {writes : List Write}
    {reads : List (String × Nat)} (h : Returns p depth m n writes reads) (hle : depth ≤ depth') :
    Returns p depth' m n writes reads :=
  ⟨h.stretch.imp fun _ hstretch => hstretch.mono hle, h.stands⟩

namespace Passes

variable {p : Program} {depth depth' : Nat} {m n n' : Machine} {pc pc' : UInt16}
  {writes writes' : List Write} {reads reads' : List (String × Nat)}

theorem trans (h : Passes p depth m n pc writes reads)
    (h' : Passes p depth n n' pc' writes' reads') :
    Passes p depth m n' pc' (writes ++ writes') (reads ++ reads') where
  stretch := by
    obtain ⟨record, hfirst⟩ := h.stretch
    obtain ⟨record', hsecond⟩ := h'.stretch
    rw [h.stands.stack_eq] at hsecond
    exact ⟨_, hfirst.trans hsecond⟩
  stands := h.stands.stack_eq ▸ h.stands.trans h'.stands

theorem mono (h : Passes p depth m n pc writes reads) (hle : depth ≤ depth') :
    Passes p depth' m n pc writes reads :=
  ⟨h.stretch.imp fun _ hstretch => hstretch.mono hle, h.stands⟩

/-- Outside the stack, memory after a passage is memory after its writes. -/
theorem memory_outside (h : Passes p depth m n pc writes reads) {cell : UInt16}
    (hcell : inStack cell = false) : n.memory cell = m.memory.after writes cell :=
  let ⟨_, hstretch⟩ := h.stretch
  hstretch.memory_outside hcell

/-- What was pushed before a passage is still there. -/
theorem pulled_eq (h : Passes p depth m n pc writes reads) {j : Nat} (hfits : depth + j + 1 < 256) :
    n.pulled (UInt8.ofNat j) = m.pulled (UInt8.ofNat j) := by
  obtain ⟨record, hstretch⟩ := h.stretch
  have hplace : m.stack + 1 + UInt8.ofNat j = m.stack + UInt8.ofNat (j + 1) := by
    rw [UInt8.ofNat_add]
    grind
  rw [Machine.pulled, Machine.pulled, h.stands.stack_eq, hplace]
  exact hstretch.memory_above (Nat.succ_pos j) (by omega)

/-- A passage in front of what returns. -/
theorem returns (h : Passes p depth m n pc writes reads) (h' : Returns p depth n n' writes' reads')
    (hfits : depth + 2 < 256) : Returns p depth m n' (writes ++ writes') (reads ++ reads') where
  stretch := by
    obtain ⟨record, hfirst⟩ := h.stretch
    obtain ⟨record', hsecond⟩ := h'.stretch
    rw [h.stands.stack_eq] at hsecond
    exact ⟨_, hfirst.trans hsecond⟩
  stands := by
    have haddress : n.returnAddress = m.returnAddress := by
      have hlow := h.pulled_eq (j := 0) (by omega)
      have hhigh := h.pulled_eq (j := 1) (by omega)
      exact congrArg₂ (fun lo hi => wordOf hi lo + 1) hlow hhigh
    have hboth := h.stands.trans h'.stands
    rwa [haddress, h.stands.stack_eq] at hboth

end Passes

/-! ### Straight code -/

/-- Straight code leads from one machine to another, with what it writes and reads. -/
def Leads (locate : String → UInt16) (block : Program) (m n : Machine) (writes : List Write)
    (reads : List (String × Nat)) : Prop :=
  ∃ record, straight locate block m = some (record, n) ∧ writesOf record = writes ∧
    readsOf record = reads ∧ ∀ k ∈ record, k.NoCarry locate

/-- Whether an instruction goes on to the next and leaves the stack and both of the flags alone that
are not about values. -/
def isQuiet : Mnemonic → Bool
  | .pha | .pla | .jsr | .rts | .rti | .sei | .cli => false
  | _ => true

/-- Whether all instructions of a piece of code are quiet. -/
def quiet (block : Program) : Bool :=
  block.all fun
    | .code op _ => isQuiet op
    | _ => true

private theorem keepsMask_of_isQuiet {op : Mnemonic} (h : isQuiet op) : keepsMask op := by
  cases op <;> first | rfl | cases h

private theorem stands_of_execute {locate : String → UInt16} {op : Mnemonic} {operand : Operand}
    {m n : Machine} {writes : List Write} (hop : isQuiet op)
    (h : execute locate op operand m = some (writes, n)) : Stands m n n.pc m.stack := by
  obtain ⟨r, hr, rfl⟩ := effect_of_execute locate h
  cases op
  case adc =>
    obtain ⟨rfl, rfl⟩ := effect_adc locate hr
    exact ⟨rfl, rfl, rfl, rfl⟩
  all_goals first
    | (cases hr; exact ⟨rfl, rfl, rfl, rfl⟩)
    | (cases hop)

/-- Quiet code leaves the stack pointer and both flags alone. -/
theorem stands_of_straight {locate : String → UInt16} {block : Program} {m n : Machine}
    {record : List Moment} (hq : quiet block) (h : straight locate block m = some (record, n)) :
    Stands m n n.pc m.stack ∧ ∀ k ∈ record, k.before.stack = m.stack ∧ keepsMask k.op := by
  induction block generalizing m record with
  | nil =>
    cases h
    exact ⟨⟨rfl, rfl, rfl, rfl⟩, by simp⟩
  | cons item block ih =>
    have hq' : quiet block := by
      simp only [quiet, List.all_cons, Bool.and_eq_true] at hq ⊢
      exact hq.2
    cases item with
    | code op operand =>
      have hop : isQuiet op := by
        simp only [quiet, List.all_cons, Bool.and_eq_true] at hq
        exact hq.1
      simp only [straight] at h
      split at h
      · split at h
        · next writes m' hexecution =>
          obtain ⟨done, hdone, heq⟩ := Option.map_eq_some_iff.1 h
          cases heq
          have hfirst := stands_of_execute hop hexecution
          obtain ⟨hrest, hdeep⟩ := ih hq' hdone
          refine ⟨⟨rfl, hrest.stack_eq.trans hfirst.stack_eq, (hfirst.trans hrest).decimal_eq,
            (hfirst.trans hrest).masked_eq⟩, fun k hk => ?_⟩
          rcases List.mem_cons.1 hk with rfl | hk
          · exact ⟨rfl, keepsMask_of_isQuiet hop⟩
          · exact ⟨(hdeep k hk).1.trans hfirst.stack_eq, (hdeep k hk).2⟩
        · cases h
      · cases h
    | label | comment | blank => exact ih hq' h
    | origin | data => cases h

namespace Linked

variable {p body rest : Program} {start : UInt16} {m n : Machine} {writes : List Write}
  {reads : List (String × Nat)}

/-- Straight code that leaves the stack alone. -/
theorem passes_straight (hl : Linked p start body) (block : Program) (hq : quiet block)
    (h : block ++ rest <:+ body) (hpc : m.pc = spot start body (block ++ rest))
    (hs : Leads p.locate block m n writes reads)
    (hout : ∀ w ∈ writes, inStack w.address = false) :
    Passes p 0 m n (spot start body rest) writes reads := by
  obtain ⟨record, hs, rfl, rfl, hsums⟩ := hs
  obtain ⟨hruns, hplace⟩ := hl.runs_straight h hpc hs
  obtain ⟨hstands, hdeep⟩ := stands_of_straight hq hs
  refine ⟨⟨record, hruns, fun k hk => ?_, fun w hw hw' => ?_, outside_eq_self hout, rfl, hsums,
    fun k hk => (hdeep k hk).2⟩, ⟨hplace, hstands.stack_eq, hstands.decimal_eq, hstands.masked_eq⟩⟩
  · rw [(hdeep k hk).1]
    exact .self ..
  · rw [hout w hw] at hw'
    cases hw'

/-- Straight code and a branch to a label, which goes there or to what follows. -/
theorem passes_branch (hl : Linked p start body) (block : Program) {op : Mnemonic} {name : String}
    (hq : quiet block) (hop : op = .beq ∨ op = .bne ∨ op = .bpl)
    (h : block ++ .code op (.label name) :: rest <:+ body)
    (hpc : m.pc = spot start body (block ++ .code op (.label name) :: rest))
    (hs : Leads p.locate block m n writes reads)
    (hout : ∀ w ∈ writes, inStack w.address = false) :
    ∃ n', Passes p 0 m n'
        (if taken n.flags op then p.locate name else spot start body rest) writes reads ∧
      n'.a = n.a ∧ n'.x = n.x := by
  have hpasses := hl.passes_straight block hq h hpc hs hout
  have hplace := hpasses.stands.pc_eq
  refine ⟨{ n with pc := if taken n.flags op then p.locate name else spot start body rest },
    ?_, rfl, rfl⟩
  have hbranch : Passes p 0 n _ _ [] [] :=
    { stretch := ⟨[⟨op, .label name, n, []⟩],
        { runs := hl.runs_branch hop ((List.suffix_append ..).trans h) hplace
          deep := by simp
          pushed := by simp
          writes_eq := rfl
          reads_eq := rfl
          sums := by rcases hop with rfl | rfl | rfl <;> simp [Moment.NoCarry]
          steady := by rcases hop with rfl | rfl | rfl <;> simp [keepsMask] }⟩
      stands := ⟨rfl, rfl, rfl, rfl⟩ }
  simpa only [List.append_nil] using hpasses.trans hbranch

theorem passes_jump (hl : Linked p start body) {name : String}
    (h : .code .jmp (.label name) :: rest <:+ body)
    (hpc : m.pc = spot start body (.code .jmp (.label name) :: rest)) :
    ∃ n, Passes p 0 m n (p.locate name) [] [] ∧ n = { m with pc := p.locate name } :=
  ⟨_, { stretch := ⟨[⟨.jmp, .label name, m, []⟩],
          { runs := hl.runs_code h hpc rfl
            deep := by simp
            pushed := by simp
            writes_eq := rfl
            reads_eq := rfl
            sums := by simp [Moment.NoCarry]
            steady := by simp [keepsMask] }⟩
        stands := ⟨rfl, rfl, rfl, rfl⟩ }, rfl⟩

/-- Straight code and the return of a routine. -/
theorem returns_straight (hl : Linked p start body) (block : Program) (hq : quiet block)
    (h : block ++ .code .rts .implied :: rest <:+ body)
    (hpc : m.pc = spot start body (block ++ .code .rts .implied :: rest))
    (hs : Leads p.locate block m n writes reads)
    (hout : ∀ w ∈ writes, inStack w.address = false) :
    ∃ n', Returns p 0 m n' writes reads ∧ n'.a = n.a ∧ n'.x = n.x ∧ n'.y = n.y := by
  have hpasses := hl.passes_straight block hq h hpc hs hout
  have hback : Returns p 0 n { n with stack := n.stack + 2, pc := n.returnAddress } [] [] :=
    { stretch := ⟨[⟨.rts, .implied, n, []⟩],
        { runs := hl.runs_code ((List.suffix_append ..).trans h) hpasses.stands.pc_eq rfl
          deep := by simp
          pushed := by simp
          writes_eq := rfl
          reads_eq := rfl
          sums := by simp [Moment.NoCarry]
          steady := by simp [keepsMask] }⟩
      stands := ⟨rfl, rfl, rfl, rfl⟩ }
  have hwhole := hpasses.returns hback (by decide)
  rw [List.append_nil, List.append_nil] at hwhole
  exact ⟨_, hwhole, rfl, rfl, rfl⟩

/-- A call does what the routine does. -/
theorem passes_call (hl : Linked p start body) {name : String} {depth : Nat}
    (h : .code .jsr (.label name) :: rest <:+ body)
    (hpc : m.pc = spot start body (.code .jsr (.label name) :: rest))
    (hroutine : ∀ m' : Machine, m'.pc = p.locate name → m'.flags = m.flags →
      (∀ cell, inStack cell = false → m'.memory cell = m.memory cell) →
      ∃ n, Returns p depth m' n writes reads) :
    ∃ n, Passes p (depth + 2) m n (spot start body rest) writes reads := by
  -- The routine starts with the return address pushed, two bytes further down.
  let called : Machine := ({ m with pc := spot start body rest } : Machine).enter (p.locate name)
  obtain ⟨n, ⟨record, hstretch⟩, hstands⟩ :=
    hroutine called rfl rfl fun cell hcell => memory_enter _ _ hcell
  have hentering : Stretch p m.stack (depth + 2) m _ called [] [] :=
    { runs := hl.runs_jsr h hpc
      deep := by simp
      pushed := by
        simp only [writesOf_cons, writesOf_nil, List.append_nil]
        intro w hw _
        obtain ⟨u, hunder, hu⟩ := under_of_mem_pushes hw
        exact ⟨u, hunder.mono (by simp [Bytes.word]), hu⟩
      writes_eq := by simp
      reads_eq := rfl
      sums := by simp [Moment.NoCarry]
      steady := by simp [keepsMask] }
  refine ⟨n, ⟨_, hentering.trans (Stretch.lower (c := 2) hstretch)⟩, ?_, ?_, hstands.decimal_eq,
    hstands.masked_eq⟩
  · rw [hstands.pc_eq]
    exact returnAddress_enter _ _
  · rw [hstands.stack_eq]
    change m.stack - 2 + 2 = m.stack
    grind

end Linked

/-- A routine that returns to the machine that called it completes the call. -/
theorem Returns.calls {p : Program} {depth : Nat} {entry : UInt16} {m n : Machine}
    {writes : List Write} {reads : List (String × Nat)}
    (h : Returns p depth (m.enter entry) n writes reads) (hfits : depth + 2 < 256) :
    ∃ record, Calls p entry m record n ∧ Stands m n m.pc m.stack ∧
      Stretch p m.stack (depth + 2) (m.enter entry) record n writes reads := by
  obtain ⟨⟨record, hstretch⟩, hstands⟩ := h
  have htop : (m.enter entry).stack + 2 = m.stack := by
    change m.stack - 2 + 2 = m.stack
    grind
  rw [htop, returnAddress_enter] at hstands
  refine ⟨record, ⟨hstretch.runs, hstands.stack_eq, fun k hk => ?_⟩,
    ⟨hstands.pc_eq, hstands.stack_eq, hstands.decimal_eq, hstands.masked_eq⟩, hstretch.lower⟩
  rw [← htop]
  exact (hstretch.deep k hk).ne_above (j := 2) (by decide) (by omega)

end SidTune.Processor
