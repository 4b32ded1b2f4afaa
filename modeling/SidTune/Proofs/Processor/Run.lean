import SidTune.Proofs.Processor.Machine

/-!
# Runs of a program

A program is run where its items are placed: the instruction at an address is the one whose item is
placed there, labels stand for their addresses, and data stands in memory at its address. A run
keeps a record of every instruction with the machine before it and the bytes it writes, so that
what a run does can be read off its record.

## Main definitions

* `SidTune.Assembly.Program.placed`: what a program consists of, with addresses, with
  `Program.code?`, `Program.locate` and `Program.image` read off them.
* `SidTune.Processor.Moment`: the record of one instruction.
* `SidTune.Processor.Runs`: runs with their records.
* `SidTune.Processor.Completes`, with `SidTune.Processor.Calls` and `SidTune.Processor.Serves`:
  calls and interrupts up to the return.

## Main results

* `SidTune.Processor.Runs.memory_eq`: memory after a run is memory after its writes.
* `SidTune.Processor.Completes.unique`: a call or an interrupt has one record and one outcome.
-/

namespace SidTune.Assembly.Program

/-! ### Where items are placed -/

/-- The labels, instructions and data of a program that is placed from `pc` on, with their
addresses. -/
def placed (pc : UInt16) : Program → List (UInt16 × Item)
  | [] => []
  | .origin addr :: rest => placed addr rest
  | .comment _ :: rest | .blank :: rest => placed pc rest
  | .label name :: rest => (pc, .label name) :: placed pc rest
  | .code op operand :: rest =>
    (pc, .code op operand) :: placed (pc + UInt16.ofNat (op.width operand)) rest
  | .data bytes :: rest =>
    (pc, .data bytes) :: placed (pc + UInt16.ofNat (Item.data bytes).size) rest

/-- The instruction of an item if it is at an address. -/
def codeAt? (addr : UInt16) : UInt16 × Item → Option (Mnemonic × Operand)
  | (place, .code op operand) => if place = addr then some (op, operand) else none
  | _ => none

/-- The instruction at an address. -/
def code? (p : Program) (addr : UInt16) : Option (Mnemonic × Operand) :=
  (p.placed 0).findSome? (codeAt? addr)

/-- The address of a label, and zero for a label that there is not. -/
def locate (p : Program) (name : String) : UInt16 :=
  (p.resolve? name).getD 0

/-- The bytes of an item of data, with their addresses. -/
def dataAt : UInt16 × Item → List (UInt16 × UInt8)
  | (place, .data bytes) => bytes.mapIdx fun i b => (place + UInt16.ofNat i, b)
  | _ => []

/-- The data of a program, with the addresses of its bytes. -/
def image (p : Program) : List (UInt16 × UInt8) :=
  (p.placed 0).flatMap dataAt

/-- Memory into which the image of a program was written. -/
def load (p : Program) (memory : Processor.Memory) : Processor.Memory :=
  memory.after (p.image.map fun c => ⟨c.1, c.2⟩)

theorem labels_eq_filterMap_placed (pc : UInt16) (p : Program) :
    p.labels pc = (p.placed pc).filterMap fun
      | (place, .label name) => some (name, place)
      | _ => none := by
  induction p generalizing pc with
  | nil => rfl
  | cons item rest ih => cases item <;> simp [labels, placed, Item.size, ih]

theorem placed_append (pc : UInt16) (p q : Program) :
    (p ++ q : Program).placed pc = p.placed pc ++ q.placed (p.endAddress pc) := by
  induction p generalizing pc with
  | nil => rfl
  | cons item rest ih => cases item <;> simp [placed, endAddress, Item.size, ih]

end SidTune.Assembly.Program

namespace SidTune.Processor

open Assembly

/-! ### Records -/

/-- The record of one instruction: the machine before it and what it writes. -/
structure Moment where
  op : Mnemonic
  operand : Operand
  before : Machine
  writes : List Write

/-- All writes of a record in order. -/
def writesOf (record : List Moment) : List Write :=
  record.flatMap Moment.writes

@[simp] theorem writesOf_nil : writesOf [] = [] := rfl

@[simp] theorem writesOf_cons (k : Moment) (record : List Moment) :
    writesOf (k :: record) = k.writes ++ writesOf record := rfl

@[simp] theorem writesOf_append (first second : List Moment) :
    writesOf (first ++ second) = writesOf first ++ writesOf second :=
  List.flatMap_append

/-! ### Runs -/

/-- A run of a program from one machine to another, with its record. -/
inductive Runs (p : Program) : Machine → List Moment → Machine → Prop
  | done (m : Machine) : Runs p m [] m
  | step {m m' n : Machine} {op : Mnemonic} {operand : Operand} {writes : List Write}
      {record : List Moment} (code : p.code? m.pc = some (op, operand))
      (execution : execute p.locate op operand m = some (writes, m')) (rest : Runs p m' record n) :
      Runs p m (⟨op, operand, m, writes⟩ :: record) n

namespace Runs

variable {p : Program} {m m' n n' : Machine} {record record' : List Moment}

theorem trans (h : Runs p m record m') (h' : Runs p m' record' n) :
    Runs p m (record ++ record') n := by
  induction h with
  | done => exact h'
  | step hcode hexecution _ ih => exact .step hcode hexecution (ih h')

theorem of_append (h : Runs p m (record ++ record') n) :
    ∃ k, Runs p m record k ∧ Runs p k record' n := by
  induction record generalizing m with
  | nil => exact ⟨m, .done m, h⟩
  | cons first record ih =>
    cases h with
    | step hcode hexecution hrest =>
      obtain ⟨k, hbefore, hafter⟩ := ih hrest
      exact ⟨k, .step hcode hexecution hbefore, hafter⟩

/-- Memory after a run is memory after its writes. -/
theorem memory_eq (h : Runs p m record n) : n.memory = m.memory.after (writesOf record) := by
  induction h with
  | done => rfl
  | step _ hexecution _ ih =>
    rw [ih, memory_of_execute _ hexecution, writesOf_cons, Memory.after_append]

/-- Of two runs from one machine, one is the beginning of the other. -/
theorem isPrefix_or (h : Runs p m record n) (h' : Runs p m record' n') :
    (∃ more, record' = record ++ more ∧ Runs p n more n') ∨
      ∃ more, record = record' ++ more ∧ Runs p n' more n := by
  induction h generalizing record' with
  | done => exact .inl ⟨record', rfl, h'⟩
  | step hcode hexecution hrest ih =>
    cases h' with
    | done => exact .inr ⟨_, rfl, .step hcode hexecution hrest⟩
    | step hcode' hexecution' hrest' =>
      obtain ⟨rfl, rfl⟩ : _ = _ ∧ _ = _ := by simpa using hcode.symm.trans hcode'
      obtain ⟨rfl, rfl⟩ : _ = _ ∧ _ = _ := by simpa using hexecution.symm.trans hexecution'
      rcases ih hrest' with ⟨more, rfl, hmore⟩ | ⟨more, rfl, hmore⟩
      · exact .inl ⟨more, rfl, hmore⟩
      · exact .inr ⟨more, rfl, hmore⟩

/-- A run that goes on from where a property holds, but not through such a machine, is over. -/
theorem eq_of_reached {P : Machine → Prop} (h : Runs p m record n) (hreached : P m)
    (hfirst : ∀ k ∈ record, ¬P k.before) : record = [] ∧ m = n := by
  cases h with
  | done => exact ⟨rfl, rfl⟩
  | step => exact absurd hreached (hfirst _ List.mem_cons_self)

/-- A run to where a property holds for the first time has one record and one outcome. -/
theorem unique_of_first {P : Machine → Prop} (h : Runs p m record n) (hreached : P n)
    (hfirst : ∀ k ∈ record, ¬P k.before) (h' : Runs p m record' n') (hreached' : P n')
    (hfirst' : ∀ k ∈ record', ¬P k.before) : record = record' ∧ n = n' := by
  rcases h.isPrefix_or h' with ⟨more, rfl, hrest⟩ | ⟨more, rfl, hrest⟩
  · obtain ⟨rfl, rfl⟩ := hrest.eq_of_reached hreached fun k hk =>
      hfirst' k (List.mem_append_right _ hk)
    exact ⟨(List.append_nil record).symm, rfl⟩
  · obtain ⟨rfl, rfl⟩ := hrest.eq_of_reached hreached' fun k hk =>
      hfirst k (List.mem_append_right _ hk)
    exact ⟨List.append_nil record', rfl⟩

end Runs

/-! ### Complete excursions -/

/-- A run that is over as soon as the stack pointer is back at `top`. -/
structure Completes (p : Program) (top : UInt8) (m : Machine) (record : List Moment) (n : Machine) :
    Prop where
  runs : Runs p m record n
  balanced : n.stack = top
  deeper : ∀ k ∈ record, k.before.stack ≠ top

/-- A complete call of the routine at `entry` from a machine that would go on where it is. -/
abbrev Calls (p : Program) (entry : UInt16) (m : Machine) (record : List Moment) (n : Machine) :
    Prop :=
  Completes p m.stack (m.enter entry) record n

/-- An interrupt of a machine that is served completely; `cell` is where the address of the handler
is stored. -/
abbrev Serves (p : Program) (cell : UInt16) (m : Machine) (record : List Moment) (n : Machine) :
    Prop :=
  Completes p m.stack (m.interrupt cell) record n

namespace Completes

variable {p : Program} {top : UInt8} {m n n' : Machine} {record record' : List Moment}

/-- An excursion has one record and one outcome. -/
theorem unique (h : Completes p top m record n) (h' : Completes p top m record' n') :
    record = record' ∧ n = n' :=
  h.runs.unique_of_first (P := fun k => k.stack = top) h.balanced h.deeper h'.runs h'.balanced
    h'.deeper

end Completes

end SidTune.Processor
