import SidTune.Proofs.Player.Layout
import SidTune.Proofs.Processor.Stretch

/-!
# The memory of the player

The player has twelve tables that it reads and seven bytes of state that it writes. None of them
overlap, so whoever writes only to the state, to the stack or to the chips leaves the tables alone,
and a byte of state is changed by writes to itself only.

## Main definitions

* `SidTune.Player.constants`, `SidTune.Player.stateNames`: the tables, and the names of the state.
* `SidTune.Player.Resident`: memory holds the tables.
* `SidTune.Player.stateOf`: the state of the sequencer that memory tells.
* `SidTune.Player.chipWrites`: the writes to the chip.
* `SidTune.Player.Confined`: writes to the chip and to named state.

## Main results

* `SidTune.Player.Carries.resident`: a program that is loaded has its tables in memory.
* `SidTune.Player.Carries.resident_after`: confined writes keep the tables.
* `SidTune.Player.Carries.state_after`: confined writes keep the state that is not named.
-/

namespace SidTune.Trio

variable {α : Type} {t : Trio α} {voice : Nat} {a : α}

theorem get?_eq_some : t.get? voice = some a ↔
    voice = 0 ∧ a = t.first ∨ voice = 1 ∧ a = t.second ∨ voice = 2 ∧ a = t.third := by
  match voice with
  | 0 => simp [get?, toList, eq_comm]
  | 1 => simp [get?, toList, eq_comm]
  | 2 => simp [get?, toList, eq_comm]
  | n + 3 => simp [get?, toList]

theorem get?_first (t : Trio α) : t.get? 0 = some t.first := rfl

theorem get?_second (t : Trio α) : t.get? 1 = some t.second := rfl

theorem get?_third (t : Trio α) : t.get? 2 = some t.third := rfl

end SidTune.Trio

namespace SidTune.Player

open Assembly Processor

/-! ### Tables and state -/

/-- The tables of a voice. -/
def columns (voice : Nat) (track : Track) : List (String × Bytes) :=
  [(labelOf voice "notes", track.noteColumn), (labelOf voice "octaves", track.octaveColumn),
    (labelOf voice "ticks", track.tickColumn)]

/-- The tables that the player reads. -/
def constants (t : Tune) : List (String × Bytes) :=
  [("octave_offset", octaveStarts), ("freq_lo", wordLowBytes), ("freq_hi", wordHighBytes)]
    ++ (t.tracks.toList.mapIdx columns).flatten

/-- The names of the bytes of state. -/
def stateNames : List String :=
  "volume" :: [0, 1, 2].flatMap fun voice => [labelOf voice "step", labelOf voice "timer"]

theorem tabled_tables (t : Tune) :
    (tables t).tabled = constants t ++ stateNames.map fun name => (name, [0]) := rfl

/-- Memory holds the tables that the player reads. -/
def Resident (p : Program) (t : Tune) (memory : Memory) : Prop :=
  ∀ c ∈ constants t, Holds memory (p.locate c.1) c.2

/-- The head of a voice that memory tells. -/
def headOf (p : Program) (memory : Memory) (voice : Nat) : Head where
  timer := (memory (p.locate (labelOf voice "timer"))).toNat
  step := (memory (p.locate (labelOf voice "step"))).toNat

/-- The state of the sequencer that memory tells. -/
def stateOf (p : Program) (memory : Memory) : Playing where
  volume := (memory (p.locate "volume")).toNat
  heads := ⟨headOf p memory 0, headOf p memory 1, headOf p memory 2⟩

/-- Whether a cell is a register of the chip. -/
def isChip (cell : UInt16) : Bool :=
  0xD400 ≤ cell && cell ≤ 0xD418

/-- The writes to the chip. -/
def chipWrites (writes : List Write) : List Write :=
  writes.filter fun w => isChip w.address

@[simp] theorem chipWrites_append (first second : List Write) :
    chipWrites (first ++ second) = chipWrites first ++ chipWrites second :=
  List.filter_append ..

theorem chipWrites_eq_self {writes : List Write} (h : ∀ w ∈ writes, isChip w.address) :
    chipWrites writes = writes :=
  List.filter_eq_self.2 h

theorem chipWrites_eq_nil {writes : List Write} (h : ∀ w ∈ writes, isChip w.address = false) :
    chipWrites writes = [] :=
  List.filter_eq_nil_iff.2 fun w hw => by simp [h w hw]

theorem isChip_iff {cell : UInt16} :
    isChip cell = true ↔ 0xD400 ≤ cell.toNat ∧ cell.toNat ≤ 0xD418 := by
  simp only [isChip, Bool.and_eq_true, decide_eq_true_eq, UInt16.le_iff_toNat_le]
  exact Iff.rfl

theorem inStack_of_isChip {cell : UInt16} (h : isChip cell) : inStack cell = false :=
  inStack_eq_false (by rw [isChip_iff] at h; omega)

theorem chipWrites_outside (writes : List Write) :
    chipWrites (outside writes) = chipWrites writes :=
  filter_outside fun _ _ => inStack_of_isChip

/-- The names of the state of a voice. -/
def headNames (voice : Nat) : List String :=
  [labelOf voice "timer", labelOf voice "step"]

/-- A write to the chip or to the named state. -/
def Confined (p : Program) (names : List String) (w : Write) : Prop :=
  isChip w.address ∨ ∃ name ∈ names, w.address = p.locate name

theorem Confined.mono {p : Program} {names names' : List String} {w : Write}
    (h : Confined p names w) (hsub : ∀ name ∈ names, name ∈ names') : Confined p names' w :=
  h.imp_right fun ⟨name, hname, heq⟩ => ⟨name, hsub name hname, heq⟩

private theorem constants_ne_state (t : Tune) {c : String × Bytes} (hc : c ∈ constants t)
    {name : String} (hname : name ∈ stateNames) : c.1 ≠ name := by
  have hnames : (constants t).map Prod.fst = ["octave_offset", "freq_lo", "freq_hi"]
      ++ [0, 1, 2].flatMap fun v => ["notes", "octaves", "ticks"].map (labelOf v) := rfl
  have hdifferent : ∀ a ∈ ["octave_offset", "freq_lo", "freq_hi"]
      ++ [0, 1, 2].flatMap (fun v => ["notes", "octaves", "ticks"].map (labelOf v)),
      ∀ b ∈ stateNames, a ≠ b := by decide
  exact hdifferent _ (hnames ▸ List.mem_map_of_mem hc) _ hname

theorem mem_constants {t : Tune} {voice : Nat} {track : Track}
    (ht : t.tracks.get? voice = some track) {c : String × Bytes} (hc : c ∈ columns voice track) :
    c ∈ constants t := by
  refine List.mem_append_right _ (List.mem_flatten.2 ⟨_, ?_, hc⟩)
  rcases Trio.get?_eq_some.1 ht with ⟨rfl, rfl⟩ | ⟨rfl, rfl⟩ | ⟨rfl, rfl⟩ <;>
    simp [Trio.toList, List.mapIdx_cons]

theorem mem_stateNames {t : Tune} {voice : Nat} {track : Track}
    (ht : t.tracks.get? voice = some track) : ∀ name ∈ headNames voice, name ∈ stateNames := by
  rcases Trio.get?_eq_some.1 ht with ⟨rfl, -⟩ | ⟨rfl, -⟩ | ⟨rfl, -⟩ <;> decide

theorem timer_mem_headNames (voice : Nat) : labelOf voice "timer" ∈ headNames voice :=
  List.mem_cons_self

theorem step_mem_headNames (voice : Nat) : labelOf voice "step" ∈ headNames voice :=
  .tail _ List.mem_cons_self

theorem timer_mem_stateNames {t : Tune} {voice : Nat} {track : Track}
    (ht : t.tracks.get? voice = some track) : labelOf voice "timer" ∈ stateNames :=
  mem_stateNames ht _ (timer_mem_headNames voice)

theorem step_mem_stateNames {t : Tune} {voice : Nat} {track : Track}
    (ht : t.tracks.get? voice = some track) : labelOf voice "step" ∈ stateNames :=
  mem_stateNames ht _ (step_mem_headNames voice)

/-- The labels of a voice are told apart by their names. -/
@[simp] theorem labelOf_inj {voice : Nat} {name name' : String} :
    labelOf voice name = labelOf voice name' ↔ name = name' := by
  simp [labelOf]

/-! ### Held bytes -/

theorem holds_get {memory : Memory} {place : UInt16} {bytes : Bytes} (h : Holds memory place bytes)
    {x : UInt8} (hx : x.toNat < bytes.length) : memory (place + x.toUInt16) = bytes[x.toNat] := by
  rw [← h x.toNat hx]
  congr 2
  exact UInt16.toNat_inj.1 (by simp)

theorem holds_after {memory : Memory} {place : UInt16} {bytes : Bytes} {writes : List Write}
    (h : Holds memory place bytes)
    (hw : ∀ w ∈ writes, ∀ i < bytes.length, place + UInt16.ofNat i ≠ w.address) :
    Holds (memory.after writes) place bytes := by
  intro i hi
  rw [Memory.after_of_unwritten _ fun w hmem => hw w hmem i hi]
  exact h i hi

theorem headNames_disjoint {voice other : Nat} (hv : voice < 3) (ho : other < 3)
    (hne : other ≠ voice) :
    ∀ name ∈ headNames voice, name ∈ stateNames ∧ name ∉ headNames other := by
  have hvoices : voice = 0 ∨ voice = 1 ∨ voice = 2 := by omega
  have hothers : other = 0 ∨ other = 1 ∨ other = 2 := by omega
  rcases hvoices with rfl | rfl | rfl <;> rcases hothers with rfl | rfl | rfl <;>
    first
    | exact absurd rfl hne
    | decide

theorem headNames_ne_volume {voice : Nat} (hv : voice < 3) :
    ∀ name ∈ headNames voice, name ∈ stateNames ∧ name ∉ ["volume"] := by
  have hvoices : voice = 0 ∨ voice = 1 ∨ voice = 2 := by omega
  rcases hvoices with rfl | rfl | rfl <;> decide

namespace Carries

variable {p body : Program} {start : UInt16} {t : Tune} {memory : Memory} {name name' : String}

theorem table_isInfix (hc : Carries p start body t) {bytes : Bytes}
    (h : (name, bytes) ∈ (tables t).tabled) : table name bytes <:+: body := by
  have hsuffix : tables t <:+ shared t := shared_eq_append t ▸ List.suffix_append _ _
  exact (Program.isInfix_of_mem_tabled h).trans (hsuffix.trans hc.shared_suffix).isInfix

theorem constant_isInfix (hc : Carries p start body t) {c : String × Bytes}
    (h : c ∈ constants t) : table c.1 c.2 <:+: body :=
  hc.table_isInfix (tabled_tables t ▸ List.mem_append_left _ h)

theorem state_isInfix (hc : Carries p start body t) (h : name ∈ stateNames) :
    table name [0] <:+: body :=
  hc.table_isInfix (tabled_tables t ▸
    List.mem_append_right _ (List.mem_map_of_mem (f := fun name => (name, [0])) h))

/-- A program that is loaded has its tables in memory. -/
theorem resident (hc : Carries p start body t) (hloaded : ∀ c ∈ p.image, memory c.1 = c.2) :
    Resident p t memory :=
  fun _ h => hc.holds (hc.constant_isInfix h) hloaded

/-- The tables are kept where the image is the same. -/
theorem resident_image (hc : Carries p start body t) {memory' : Memory}
    (hsame : ∀ c ∈ p.image, memory' c.1 = memory c.1) (hr : Resident p t memory) :
    Resident p t memory' :=
  fun c hmem i hi => (hsame _ (hc.mem_image (hc.constant_isInfix hmem) hi)).trans (hr c hmem i hi)

theorem state_image (hc : Carries p start body t) {memory' : Memory} (h : name ∈ stateNames)
    (hsame : ∀ c ∈ p.image, memory' c.1 = memory c.1) :
    memory' (p.locate name) = memory (p.locate name) := by
  simpa using hsame _ (hc.mem_image (hc.state_isInfix h) (show 0 < 1 by decide))

theorem headOf_image (hc : Carries p start body t) {memory' : Memory} {voice : Nat}
    (hvoice : ∀ name ∈ headNames voice, name ∈ stateNames)
    (hsame : ∀ c ∈ p.image, memory' c.1 = memory c.1) :
    headOf p memory' voice = headOf p memory voice := by
  simp only [headOf, hc.state_image (hvoice _ (timer_mem_headNames voice)) hsame,
    hc.state_image (hvoice _ (step_mem_headNames voice)) hsame]

theorem stateOf_image (hc : Carries p start body t) {memory' : Memory}
    (hsame : ∀ c ∈ p.image, memory' c.1 = memory c.1) : stateOf p memory' = stateOf p memory := by
  simp only [stateOf, hc.state_image (show "volume" ∈ stateNames by decide) hsame,
    hc.headOf_image (show ∀ name ∈ headNames 0, name ∈ stateNames by decide) hsame,
    hc.headOf_image (show ∀ name ∈ headNames 1, name ∈ stateNames by decide) hsame,
    hc.headOf_image (show ∀ name ∈ headNames 2, name ∈ stateNames by decide) hsame]

theorem resident_congr (hc : Carries p start body t) {memory' : Memory}
    (hsame : ∀ cell, inStack cell = false → memory' cell = memory cell) (hr : Resident p t memory) :
    Resident p t memory' :=
  hc.resident_image (fun _ h => hsame _ (inStack_eq_false (hc.image_bounds h).1)) hr

theorem stateOf_congr (hc : Carries p start body t) {memory' : Memory}
    (hsame : ∀ cell, inStack cell = false → memory' cell = memory cell) :
    stateOf p memory' = stateOf p memory :=
  hc.stateOf_image fun _ h => hsame _ (inStack_eq_false (hc.image_bounds h).1)

/-- Writes beyond the range of the program keep its image. -/
theorem image_far (hc : Carries p start body t) {writes : List Write}
    (hfar : ∀ w ∈ writes, w.address.toNat < 0x0200 ∨ 0xD000 ≤ w.address.toNat) :
    ∀ c ∈ p.image, memory.after writes c.1 = memory c.1 := by
  intro c h
  have hbounds := hc.image_bounds h
  refine Memory.after_of_unwritten _ fun w hw heq => ?_
  have := hfar w hw
  rw [← heq] at this
  omega

/-! ### The state is apart -/

theorem state_bounds (hc : Carries p start body t) (h : name ∈ stateNames) :
    0x0200 ≤ (p.locate name).toNat ∧ (p.locate name).toNat < 0xD000 := by
  have := hc.within (hc.state_isInfix h)
  simp only [List.length_cons, List.length_nil] at this
  omega

theorem state_inStack (hc : Carries p start body t) (h : name ∈ stateNames) :
    inStack (p.locate name) = false :=
  inStack_eq_false (hc.state_bounds h).1

theorem state_isChip (hc : Carries p start body t) (h : name ∈ stateNames) :
    isChip (p.locate name) = false := by
  have := (hc.state_bounds h).2
  rw [Bool.eq_false_iff, Ne, isChip_iff]
  omega

theorem locate_ne (hc : Carries p start body t) (h : name ∈ stateNames) (h' : name' ∈ stateNames)
    (hne : name ≠ name') : p.locate name ≠ p.locate name' := by
  intro heq
  have := hc.apart (hc.state_isInfix h) (hc.state_isInfix h') hne
  rw [heq] at this
  simp only [List.length_cons, List.length_nil] at this
  omega

theorem timer_ne_step (hc : Carries p start body t) {voice : Nat} {track : Track}
    (ht : t.tracks.get? voice = some track) :
    p.locate (labelOf voice "timer") ≠ p.locate (labelOf voice "step") :=
  hc.locate_ne (timer_mem_stateNames ht) (step_mem_stateNames ht) (by simp)

/-- A byte of state is not in a table. -/
theorem constant_ne_state (hc : Carries p start body t) {c : String × Bytes}
    (h : c ∈ constants t) (hname : name ∈ stateNames) {i : Nat} (hi : i < c.2.length) :
    p.locate c.1 + UInt16.ofNat i ≠ p.locate name := by
  intro heq
  have hbounds := hc.within (hc.constant_isInfix h)
  have hapart := hc.apart (hc.constant_isInfix h) (hc.state_isInfix hname)
    (constants_ne_state t h hname)
  have hplace := congrArg UInt16.toNat heq
  rw [UInt16.toNat_add, UInt16.toNat_ofNat', Nat.mod_eq_of_lt (a := i) (by omega),
    Nat.mod_eq_of_lt (by omega)] at hplace
  simp only [List.length_cons, List.length_nil] at hapart
  omega

/-- The routine of each voice is a part of the program. -/
theorem nextStep_suffix (hc : Carries p start body t) {voice : Nat} {track : Track}
    (ht : t.tracks.get? voice = some track) :
    ∃ rest : Program, nextStep voice track ++ rest <:+ body := by
  have hsuffix : ∃ rest : Program, nextStep voice track ++ rest <:+ shared t := by
    rw [shared_eq]
    rcases Trio.get?_eq_some.1 ht with ⟨rfl, rfl⟩ | ⟨rfl, rfl⟩ | ⟨rfl, rfl⟩
    · exact ⟨_, ((List.suffix_append (frame t) _).trans (List.suffix_append (setup t) _))⟩
    · exact ⟨_, (List.suffix_append (nextStep 0 t.tracks.first) _).trans
        ((List.suffix_append (frame t) _).trans (List.suffix_append (setup t) _))⟩
    · exact ⟨_, (List.suffix_append (nextStep 1 t.tracks.second) _).trans
        ((List.suffix_append (nextStep 0 t.tracks.first) _).trans
          ((List.suffix_append (frame t) _).trans (List.suffix_append (setup t) _)))⟩
  obtain ⟨rest, hsuffix⟩ := hsuffix
  exact ⟨rest, hsuffix.trans hc.shared_suffix⟩

theorem frame_suffix (hc : Carries p start body t) : ∃ rest : Program, frame t ++ rest <:+ body :=
  ⟨_, (List.suffix_append (setup t) _).trans (shared_eq t ▸ hc.shared_suffix)⟩

/-- Confined writes keep the tables. -/
theorem resident_after (hc : Carries p start body t) {writes : List Write}
    (h : ∀ w ∈ writes, Confined p stateNames w) (hr : Resident p t memory) :
    Resident p t (memory.after writes) := by
  intro c hmem
  refine holds_after (hr c hmem) fun w hw i hi heq => ?_
  have hbounds := hc.within (hc.constant_isInfix hmem)
  have hplace : (p.locate c.1 + UInt16.ofNat i).toNat = (p.locate c.1).toNat + i := by
    rw [UInt16.toNat_add, UInt16.toNat_ofNat', Nat.mod_eq_of_lt (a := i) (by omega),
      Nat.mod_eq_of_lt (by omega)]
  rcases h w hw with hchip | ⟨name, hname, hstate⟩
  · rw [← heq, isChip_iff, hplace] at hchip
    omega
  · exact hc.constant_ne_state hmem hname hi (heq.trans hstate)

/-- A passage with confined writes keeps the tables. -/
theorem resident_passes (hc : Carries p start body t) {depth : Nat} {m n : Machine} {pc : UInt16}
    {writes : List Write} {reads : List (String × Nat)}
    (h : Passes p depth m n pc writes reads) (hw : ∀ w ∈ writes, Confined p stateNames w)
    (hr : Resident p t m.memory) : Resident p t n.memory :=
  hc.resident_congr (fun _ => h.memory_outside) (hc.resident_after hw hr)

/-- Confined writes keep the state that is not named. -/
theorem state_after (hc : Carries p start body t) {names : List String} {writes : List Write}
    (h : ∀ w ∈ writes, Confined p names w) (hsub : ∀ name ∈ names, name ∈ stateNames)
    (hname : name ∈ stateNames) (hfresh : name ∉ names) :
    memory.after writes (p.locate name) = memory (p.locate name) := by
  refine Memory.after_of_unwritten _ fun w hw heq => ?_
  rcases h w hw with hchip | ⟨other, hother, hstate⟩
  · rw [← heq, hc.state_isChip hname] at hchip
    cases hchip
  · refine hc.locate_ne hname (hsub other hother) ?_ (heq.trans hstate)
    rintro rfl
    exact hfresh hother

/-- Confined writes keep the heads of the voices that are not named. -/
theorem headOf_after (hc : Carries p start body t) {names : List String} {writes : List Write}
    (h : ∀ w ∈ writes, Confined p names w) (hsub : ∀ name ∈ names, name ∈ stateNames) {voice : Nat}
    (hvoice : ∀ name ∈ headNames voice, name ∈ stateNames ∧ name ∉ names) :
    headOf p (memory.after writes) voice = headOf p memory voice := by
  have htimer := hvoice _ (timer_mem_headNames voice)
  have hstep := hvoice _ (step_mem_headNames voice)
  simp only [headOf, hc.state_after h hsub htimer.1 htimer.2, hc.state_after h hsub hstep.1 hstep.2]

theorem headOf_passes (hc : Carries p start body t) {depth : Nat} {m n : Machine} {pc : UInt16}
    {names : List String} {writes : List Write} {reads : List (String × Nat)} {voice : Nat}
    (h : Passes p depth m n pc writes reads) (hw : ∀ w ∈ writes, Confined p names w)
    (hsub : ∀ name ∈ names, name ∈ stateNames)
    (hvoice : ∀ name ∈ headNames voice, name ∈ stateNames ∧ name ∉ names) :
    headOf p n.memory voice = headOf p m.memory voice :=
  (hc.headOf_image (fun name hname => (hvoice name hname).1) fun _ hmem =>
    h.memory_outside (inStack_eq_false (hc.image_bounds hmem).1)).trans
      (hc.headOf_after hw hsub hvoice)

end Carries

end SidTune.Player
