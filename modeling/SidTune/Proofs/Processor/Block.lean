import SidTune.Proofs.Processor.Linking

/-!
# Straight pieces of code

Items without jumps are executed one after the other, so what such a piece does can be computed
from the machine before it. Single instructions and calls are joined to the pieces around them.

## Main definitions

* `SidTune.Processor.straight`: executes a piece of code without jumps.

## Main results

* `SidTune.Processor.Linked.runs_straight`: the program does what the computation says.
* `SidTune.Processor.Linked.runs_code`: one instruction, which may jump, with
  `SidTune.Processor.Linked.runs_branch` and `SidTune.Processor.Linked.runs_jsr` for jumps to
  labels.
-/

namespace SidTune.Processor

open Assembly

/-- Whether the instruction that follows is the next one. -/
def goesOn : Mnemonic → Bool
  | .beq | .bne | .bpl | .jmp | .jsr | .rts | .rti => false
  | _ => true

/-- Whether a branch is taken. -/
def taken (f : Flags) : Mnemonic → Bool
  | .beq => f.zero
  | .bne => !f.zero
  | .bpl => !f.negative
  | _ => false

section Straight

variable (locate : String → UInt16)

/-- Executes a piece of code without jumps. -/
def straight : Program → Machine → Option (List Moment × Machine)
  | [], m => some ([], m)
  | .code op operand :: rest, m =>
    if goesOn op then
      match execute locate op operand m with
      | some (writes, n) =>
        (straight rest n).map fun done => (⟨op, operand, m, writes⟩ :: done.1, done.2)
      | none => none
    else none
  | .label _ :: rest, m | .comment _ :: rest, m | .blank :: rest, m => straight rest m
  | .origin _ :: _, _ | .data _ :: _, _ => none

private theorem pc_of_execute {op : Mnemonic} {operand : Operand} {m n : Machine}
    {writes : List Write} (hop : goesOn op) (h : execute locate op operand m = some (writes, n)) :
    n.pc = m.pc + UInt16.ofNat (op.width operand) := by
  obtain ⟨r, hr, rfl⟩ := effect_of_execute locate h
  cases op
  case adc =>
    obtain ⟨rfl, rfl⟩ := effect_adc locate hr
    rfl
  all_goals first
    | (cases hr; rfl)
    | (cases hop)

end Straight

namespace Linked

variable {p body rest : Program} {start : UInt16} {m n : Machine}

/-- One instruction is executed where it stands. -/
theorem runs_code (hl : Linked p start body) {op : Mnemonic} {operand : Operand}
    {writes : List Write} (h : .code op operand :: rest <:+ body)
    (hpc : m.pc = spot start body (.code op operand :: rest))
    (hexecution : execute p.locate op operand m = some (writes, n)) :
    Runs p m [⟨op, operand, m, writes⟩] n :=
  .step (hpc ▸ hl.code?_spot h) hexecution (.done n)

/-- A branch goes to its label or to what follows it. -/
theorem runs_branch (hl : Linked p start body) {op : Mnemonic} {name : String}
    (hop : op = .beq ∨ op = .bne ∨ op = .bpl) (h : .code op (.label name) :: rest <:+ body)
    (hpc : m.pc = spot start body (.code op (.label name) :: rest)) :
    Runs p m [⟨op, .label name, m, []⟩]
      { m with pc := if taken m.flags op then p.locate name else spot start body rest } := by
  refine hl.runs_code h hpc ?_
  rw [spot_cons h, ← hpc]
  rcases hop with rfl | rfl | rfl <;> rfl

/-- A call enters the routine at its label, from where it returns to what follows the call. -/
theorem runs_jsr (hl : Linked p start body) {name : String}
    (h : .code .jsr (.label name) :: rest <:+ body)
    (hpc : m.pc = spot start body (.code .jsr (.label name) :: rest)) :
    Runs p m [⟨.jsr, .label name, m, pushes m.stack (Bytes.word (spot start body rest - 1))⟩]
      (({ m with pc := spot start body rest } : Machine).enter (p.locate name)) := by
  refine hl.runs_code h hpc ?_
  rw [spot_cons h, ← hpc]
  rfl

/-- A piece of code without jumps does what its computation says. -/
theorem runs_straight (hl : Linked p start body) {block : Program} {record : List Moment}
    (h : block ++ rest <:+ body) (hpc : m.pc = spot start body (block ++ rest))
    (hs : straight p.locate block m = some (record, n)) :
    Runs p m record n ∧ n.pc = spot start body rest := by
  induction block generalizing m record with
  | nil =>
    cases hs
    exact ⟨.done _, hpc⟩
  | cons item block ih =>
    have hsuffix : block ++ rest <:+ body := (List.suffix_cons item _).trans h
    have hnext : spot start body (block ++ rest) = m.pc + UInt16.ofNat item.size := by
      rw [hpc]
      exact spot_cons h
    cases item with
    | code op operand =>
      simp only [straight] at hs
      split at hs
      · next hop =>
        split at hs
        · next writes m' hexecution =>
          obtain ⟨done, hdone, heq⟩ := Option.map_eq_some_iff.1 hs
          cases heq
          have hmoved := pc_of_execute _ hop hexecution
          obtain ⟨hruns, hplace⟩ := ih hsuffix (hmoved.trans hnext.symm) hdone
          exact ⟨(hl.runs_code h hpc hexecution).trans hruns, hplace⟩
        · cases hs
      · cases hs
    | label | comment | blank => exact ih hsuffix (by simpa [Item.size] using hnext.symm) hs
    | origin | data => cases hs

end Linked

end SidTune.Processor
