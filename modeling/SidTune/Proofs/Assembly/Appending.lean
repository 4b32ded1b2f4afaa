import SidTune.Assembly.Program
import SidTune.Proofs.Basic
import SidTune.Proofs.Processor.Linking

/-!
# Programs that are appended

A program that is appended is placed from the address on at which the program before it ends. An
origin in it starts anew, so only labels that no origin comes before are moved. Of labels of one
name the last counts; so a label of the appended program hides one of the program before it.

## Main definitions

* `SidTune.Assembly.Program.hasOrigin`: programs with an origin.
* `SidTune.Assembly.Program.Appends`: what is known of the text and the labels of two programs, one
  after the other.

## Main results

* `SidTune.Assembly.Program.endAddress_eq_ite`: where a program ends follows from where it starts,
  or from its origins.
* `SidTune.Assembly.Program.lookup_symbols`: the address of a label is found by its name.
* `SidTune.Assembly.Program.exists_offset`: a label of a program without an origin is equally far
  from where the program starts, whatever it is appended to.
* `SidTune.Assembly.Program.appends`: the text and the labels of two programs.
-/

namespace SidTune.Assembly.Program

variable {p q before after : Program} {name : String}

/-! ### Where programs end -/

/-- Whether an item is an origin. -/
def isOrigin : Item → Bool
  | .origin _ => true
  | _ => false

/-- Whether there is an origin in a program. -/
def hasOrigin (p : Program) : Bool :=
  p.any isOrigin

/-- A program with an origin ends in the same place wherever it starts, and any other is moved with
its start. -/
theorem endAddress_eq_ite (pc : UInt16) (p : Program) :
    p.endAddress pc = if p.hasOrigin then p.endAddress 0 else pc + p.endAddress 0 := by
  induction p generalizing pc with
  | nil => simp [endAddress, hasOrigin]
  | cons item rest ih =>
    have hnext (size : UInt16) : endAddress (pc + size) rest =
        if hasOrigin rest then endAddress (0 + size) rest else pc + endAddress (0 + size) rest := by
      rw [ih (pc + size), ih (0 + size)]
      split <;> simp [UInt16.add_assoc]
    cases item with
    | origin addr => simp [endAddress, hasOrigin, isOrigin]
    | _ => simpa [endAddress, hasOrigin, isOrigin] using hnext _

/-! ### Labels -/

/-- A program with a label has a last label of that name. -/
theorem exists_last_label (hhere : name ∈ p.labelNames) : ∃ before after : Program,
    p = before ++ .label name :: after ∧ name ∉ after.labelNames := by
  have hmem : .label name ∈ p.reverse := List.mem_reverse.2 (mem_labelNames.1 hhere)
  obtain ⟨after, before, hsplit, hlast⟩ := List.eq_append_cons_of_mem hmem
  refine ⟨before.reverse, after.reverse, ?_, ?_⟩
  · rw [← List.reverse_inj, hsplit]
    simp
  · rwa [mem_labelNames, List.mem_reverse]

/-- The last label of a name stands for the address after what comes before it. -/
theorem lookup_labels_last (hlast : name ∉ after.labelNames) (pc : UInt16) :
    ((before ++ .label name :: after : Program).labels pc).reverse.lookup name =
      some (before.endAddress pc) := by
  rw [labels_append, labels]
  simp [List.lookup_append, lookup_labels_eq_none hlast]

/-- The address of a label is found by its name. -/
theorem lookup_symbols (p : Program) (name : String) :
    p.symbols.lookup name = p.resolve? name :=
  lookup_byName

/-- The labels of the second program are looked up first. -/
theorem resolve?_append (p q : Program) (name : String) :
    (p ++ q : Program).resolve? name =
      ((q.labels (p.endAddress 0)).reverse.lookup name).or (p.resolve? name) := by
  rw [resolve?, labels_append, List.reverse_append, List.lookup_append, resolve?]

/-- A label of a plain program is moved as far as the program is. -/
theorem exists_offset (hplain : q.isPlain) (hhere : name ∈ q.labelNames) : ∃ n ≤ q.totalSize,
    ∀ p : Program, (p ++ q : Program).symbols.lookup name =
      some (p.endAddress 0 + UInt16.ofNat n) := by
  obtain ⟨before, after, rfl, hlast⟩ := exists_last_label hhere
  rw [isPlain_append, Bool.and_eq_true] at hplain
  refine ⟨before.totalSize, ?_, fun p => ?_⟩
  · rw [totalSize_append]
    exact Nat.le_add_right ..
  · rw [lookup_symbols, resolve?_append, lookup_labels_last hlast, Option.some_or,
      endAddress_of_isPlain hplain.1]

/-! ### Appended programs -/

/-- What is known of the text and the labels of two programs, one after the other. -/
structure Appends (p q : Program) : Prop where
  /-- Their texts follow one another. -/
  render : (p ++ q : Program).render = p.render ++ q.render
  /-- The last label of its name in the second program stays where it is if an origin comes before
  it. Otherwise it is moved by the address at which the first program ends. -/
  moved {name : String} (here : name ∈ q.labelNames) :
    ∃ (before after : Program) (addr : UInt16),
      q = before ++ .label name :: after ∧ name ∉ after.labelNames ∧
      q.symbols.lookup name = some addr ∧
      (p ++ q : Program).symbols.lookup name =
        some (if before.hasOrigin then addr else p.endAddress 0 + addr)
  /-- A label of the first program alone stays where it is. -/
  kept {name : String} (absent : name ∉ q.labelNames) :
    (p ++ q : Program).symbols.lookup name = p.symbols.lookup name

/-- Appending a program moves its labels, and nothing else. -/
theorem appends (p q : Program) : p.Appends q where
  render := by
    simp [render]
  moved {name} hhere := by
    obtain ⟨before, after, rfl, hlast⟩ := exists_last_label hhere
    refine ⟨before, after, before.endAddress 0, rfl, hlast, ?_, ?_⟩
    · rw [lookup_symbols, resolve?, lookup_labels_last hlast]
    · rw [lookup_symbols, resolve?_append, lookup_labels_last hlast, Option.some_or,
        endAddress_eq_ite]
  kept habsent := by
    rw [lookup_symbols, lookup_symbols, resolve?_append, lookup_labels_eq_none habsent,
      Option.none_or]

-- A label of the first program, one of both, one past the end of memory and one after an origin.
example :
    let p : Program := [.origin 0xFFFE, .label "a", .label "b", .code .rts .implied]
    let q : Program := [.label "b", .code .rts .implied, .label "c", .origin 0x2000, .label "d"]
    ["a", "b", "c", "d"].map (p ++ q : Program).resolve? =
      [some 0xFFFE, some 0xFFFF, some 0, some 0x2000] := by
  decide

end SidTune.Assembly.Program
