import SidTune.Proofs.Player.Library
import SidTune.Proofs.Processor.Interrupt

/-!
# The code of the standalone program

The standalone program installs its interrupt handlers, sets the player up, lets interrupts in and
idles in a loop of one instruction. A raster interrupt is acknowledged and plays a frame; another
interrupt returns at once.

## Main definitions

* `SidTune.Player.Boots`: a run from the start until the loop is reached.
* `SidTune.Player.Idles`: what is known of a machine that idles.

## Main results

* `SidTune.Player.stays_idle`: nothing happens in the loop.
* `SidTune.Player.exists_boots`: the loop is reached.
* `SidTune.Player.Idles.serves`: a raster interrupt plays a frame and comes back.
* `SidTune.Player.looksAway_standalone`: the program never looks at the stack by an address.
-/

namespace SidTune.Player

open Assembly Assembly.Mnemonic Processor

/-! ### Parts of the program -/

/-- The loop and what follows it. -/
def idleLoop (t : Tune) : Program :=
  .label "idle" :: .code jmp (.label "idle") :: .blank ::
    .comment "raster interrupt, once per frame" :: (handlers ++ shared t)

/-- What follows the frame in the handler of raster interrupts. -/
def returning (t : Tune) : Program :=
  .label "nmi" :: .code rti .implied :: .blank :: shared t

/-- The handler of raster interrupts and what follows it. -/
def rasterHandler (t : Tune) : Program :=
  pushAll ++ (put 0x01 videoStatus ++ .code jsr (.label frameLabel) :: (pullAll ++ returning t))

/-- What follows the start. -/
def startup (t : Tune) : Program :=
  installation ++ .code jsr (.label setupLabel) :: ([.code cli .implied] ++ idleLoop t)

theorem start_suffix (t : Tune) : .label "start" :: startup t <:+ standaloneBody t :=
  (List.suffix_cons _ _).trans (List.suffix_cons _ _)

theorem startup_suffix (t : Tune) : startup t <:+ standaloneBody t :=
  (List.suffix_cons _ _).trans (start_suffix t)

theorem idleLoop_suffix (t : Tune) : idleLoop t <:+ standaloneBody t :=
  (List.suffix_append (installation ++ [.code jsr (.label setupLabel), .code cli .implied])
    (idleLoop t)).trans (startup_suffix t)

theorem rasterHandler_suffix (t : Tune) :
    .label "irq" :: rasterHandler t <:+ standaloneBody t :=
  (show .label "irq" :: rasterHandler t <:+ idleLoop t from
    ⟨[.label "idle", .code jmp (.label "idle"), .blank,
      .comment "raster interrupt, once per frame"], rfl⟩).trans (idleLoop_suffix t)

theorem returning_suffix (t : Tune) : returning t <:+ standaloneBody t :=
  (List.suffix_append pullAll _).trans ((List.suffix_cons _ _).trans
    ((List.suffix_append (put 0x01 videoStatus) _).trans ((List.suffix_append pushAll _).trans
      ((List.suffix_cons _ _).trans (rasterHandler_suffix t)))))

/-! ### Looking away -/

/-- Whether no instruction of a program looks at the stack by an address. -/
def allLookAway (p : Program) : Bool :=
  p.all fun
    | .code op operand => looksAway op operand
    | _ => true

@[simp] theorem allLookAway_append (p q : Program) :
    allLookAway (p ++ q) = (allLookAway p && allLookAway q) :=
  List.all_append

private theorem allLookAway_putPulse (voice : Nat) (pulse : Option Chip.PulseBytes) :
    allLookAway (putPulse voice pulse) := by
  cases pulse <;> rfl

private theorem allLookAway_shared (t : Tune) : allLookAway (shared t) := by
  simp only [shared_eq, setup, setupVoice, allLookAway_append, Trio.toList, List.mapIdx_cons,
    List.mapIdx_nil, List.flatten_cons, List.flatten_nil, allLookAway_putPulse]
  rfl

/-- The standalone program never looks at the stack by an address. -/
theorem looksAway_standalone (t : Tune) {op : Mnemonic} {operand : Operand}
    (h : .code op operand ∈ standaloneBody t) : looksAway op operand := by
  have hall : allLookAway (standaloneBody t) := by
    rw [standaloneBody_eq, allLookAway_append, allLookAway_shared]
    rfl
  exact List.all_eq_true.1 hall _ h

/-! ### The loop -/

section Loop

variable {t : Tune} {m n : Machine} {op : Mnemonic} {operand : Operand} {writes : List Write}
  {record : List Moment}

theorem code?_idle (ht : t.Playable) : (standalone t).code? ((standalone t).locate "idle") =
    some (jmp, .label "idle") := by
  have hc := carries_standalone ht
  rw [hc.locate_eq_spot (idleLoop_suffix t)]
  exact hc.code?_spot ((List.suffix_cons _ _).trans (idleLoop_suffix t))

theorem execute_idle (hpc : m.pc = (standalone t).locate "idle") :
    execute (standalone t).locate jmp (.label "idle") m = some ([], m) := by
  change some ([], { m with pc := (standalone t).locate "idle" }) = _
  rw [← hpc]

/-- In the loop an instruction changes nothing. -/
theorem step_idle (ht : t.Playable) (hpc : m.pc = (standalone t).locate "idle")
    (hcode : (standalone t).code? m.pc = some (op, operand))
    (hexecution : execute (standalone t).locate op operand m = some (writes, n)) :
    (⟨op, operand, m, writes⟩ : Moment) = ⟨jmp, .label "idle", m, []⟩ ∧ n = m := by
  rw [hpc, code?_idle ht] at hcode
  cases hcode
  rw [execute_idle hpc] at hexecution
  cases hexecution
  exact ⟨rfl, rfl⟩

/-- Nothing happens in the loop. -/
theorem stays_idle (ht : t.Playable) (h : Runs (standalone t) m record n)
    (hpc : m.pc = (standalone t).locate "idle") :
    n = m ∧ ∀ k ∈ record, k = ⟨jmp, .label "idle", m, []⟩ := by
  induction h with
  | done => simp
  | step hcode hexecution hrest ih =>
    obtain ⟨hmoment, rfl⟩ := step_idle ht hpc hcode hexecution
    obtain ⟨hstays, hall⟩ := ih hpc
    exact ⟨hstays, List.forall_mem_cons.2 ⟨hmoment, hall⟩⟩

end Loop

/-! ### Starting -/

/-- A run from the start until the loop is reached. -/
structure Boots (p : Program) (m : Machine) (record : List Moment) (n : Machine) : Prop where
  runs : Runs p m record n
  reached : n.pc = p.locate "idle"
  first : ∀ k ∈ record, k.before.pc ≠ p.locate "idle"

/-- What is known of a machine that idles: it plays, lets interrupts in, and knows the handlers. -/
structure Idles (p : Program) (t : Tune) (q : Playing) (n : Machine) : Prop
    extends Plays p t q n where
  pc_eq : n.pc = p.locate "idle"
  unmasked : n.flags.masked = false
  irq_eq : n.vector 0xFFFE = p.locate "irq"
  nmi_eq : n.vector 0xFFFA = p.locate "nmi"

/-- What the installation of the handlers writes. -/
def installWrites (p : Program) : List Write :=
  [⟨processorPort, memoryAndChips⟩, ⟨firstInterface, 0x7f⟩, ⟨secondInterface, 0x7f⟩,
    ⟨irqVector, (p.locate "irq").toUInt8⟩, ⟨irqVector + 1, (p.locate "irq" >>> 8).toUInt8⟩,
    ⟨nmiVector, (p.locate "nmi").toUInt8⟩, ⟨nmiVector + 1, (p.locate "nmi" >>> 8).toUInt8⟩,
    ⟨screenControl, 0x1b⟩, ⟨rasterLine, 0x00⟩, ⟨videoEnable, 0x01⟩, ⟨videoStatus, 0x01⟩]

/-- The installation writes to no memory of the program and to no register of the chip. -/
theorem installWrites_far (p : Program) : ∀ w ∈ installWrites p,
    (w.address.toNat < 0x0200 ∨ 0xD000 ≤ w.address.toNat) ∧ isChip w.address = false := by
  simp only [installWrites, List.forall_mem_cons, List.not_mem_nil, false_implies, implies_true,
    and_true]
  decide

section Install

attribute [local simp] straight goesOn execute formOf formsOf effect cellOf byteOf Registers.setA
  Flags.seeing

private theorem straight_installation (p : Program) (m : Machine) :
    ∃ record n, straight p.locate installation m = some (record, n) ∧
      writesOf record = installWrites p ∧ n.flags.decimal = m.flags.decimal := by
  simp [installation, installWrites, put, putVector]

end Install

/-- The state is below the chips, and the chip is above the others that the program writes to. -/
theorem Carries.confined_bounds {p body : Program} {start : UInt16} {t : Tune}
    (hc : Carries p start body t) {w : Write} (h : Confined p stateNames w) :
    w.address.toNat < 0xD000 ∨ 0xD400 ≤ w.address.toNat ∧ w.address.toNat ≤ 0xD418 :=
  h.symm.imp (fun ⟨_, hname, hstate⟩ => hstate ▸ (hc.state_bounds hname).2) isChip_iff.1

theorem Carries.vector_after {p body : Program} {start : UInt16} {t : Tune}
    (hc : Carries p start body t) {writes : List Write}
    (h : ∀ w ∈ writes, Confined p stateNames w) {cell : UInt16} (hhigh : 0xD419 ≤ cell.toNat)
    (memory : Memory) : memory.after writes cell = memory cell := by
  refine Memory.after_of_unwritten _ fun w hw heq => ?_
  have := hc.confined_bounds (h w hw)
  rw [heq] at hhigh
  omega

section Boot

variable {t : Tune} {m n n' : Machine} {record record' : List Moment}

/-- The loop is reached in one way only. -/
theorem Boots.unique {p : Program} (h : Boots p m record n) (h' : Boots p m record' n') :
    record = record' ∧ n = n' :=
  h.runs.unique_of_first (P := fun k => k.pc = p.locate "idle") h.reached h.first h'.runs
    h'.reached h'.first

/-- A run whose last instruction is not a jump was not in the loop before. -/
theorem boots_of_runs (ht : t.Playable) {last : Moment}
    (h : Runs (standalone t) m (record ++ [last]) n)
    (hreached : n.pc = (standalone t).locate "idle") (hlast : last.op ≠ jmp) :
    Boots (standalone t) m (record ++ [last]) n where
  runs := h
  reached := hreached
  first := by
    intro k hk hpc
    obtain ⟨before, after, hsplit⟩ := List.append_of_mem hk
    rw [hsplit] at h
    obtain ⟨k', -, hrest⟩ := h.of_append
    have hstart : k' = k.before := by cases hrest; rfl
    have hends := congrArg List.getLast? hsplit
    rw [List.getLast?_concat, List.getLast?_append_of_ne_nil _ (List.cons_ne_nil _ _)] at hends
    have hjump := (stays_idle ht hrest (hstart ▸ hpc)).2 last (List.mem_of_getLast? hends.symm)
    exact hlast (congrArg Moment.op hjump)

/-- The start installs the handlers, which leaves the program in place, and goes on to the call that
sets up. -/
theorem runs_installation (ht : t.Playable) (hr : Resident (standalone t) t m.memory)
    (hpc : m.pc = (standalone t).locate "start") :
    ∃ record n, Runs (standalone t) m record n ∧
      n.pc = spot 0x0801 (standaloneBody t)
        (.code jsr (.label setupLabel) :: ([.code cli .implied] ++ idleLoop t)) ∧
      writesOf record = installWrites (standalone t) ∧
      n.memory = m.memory.after (installWrites (standalone t)) ∧
      n.flags.decimal = m.flags.decimal ∧ Resident (standalone t) t n.memory := by
  have hc := carries_standalone ht
  obtain ⟨record, n, hcomputed, hwrites, hdecimal⟩ := straight_installation (standalone t) m
  obtain ⟨hruns, hplace⟩ := hc.runs_straight (startup_suffix t)
    (hpc.trans (hc.locate_eq_spot (start_suffix t))) hcomputed
  have hmemory : n.memory = m.memory.after (installWrites (standalone t)) :=
    hwrites ▸ hruns.memory_eq
  refine ⟨record, n, hruns, hplace, hwrites, hmemory, hdecimal, ?_⟩
  rw [hmemory]
  exact hc.resident_image (hc.image_far fun w hw => (installWrites_far _ w hw).1) hr

/-- The loop is reached, and what was written to the chip on the way is what sets up. -/
theorem exists_boots (ht : t.Playable) (hr : Resident (standalone t) t m.memory)
    (hdecimal : m.flags.decimal = false) (hpc : m.pc = (standalone t).locate "start") :
    ∃ record n, Boots (standalone t) m record n ∧ Idles (standalone t) t (begin t).2 n ∧
      chipWrites (writesOf record) = (begin t).1 := by
  have hc := carries_standalone ht
  have hsuffix₁ : .code jsr (.label setupLabel) :: ([.code cli .implied] ++ idleLoop t) <:+
      standaloneBody t := (List.suffix_append installation _).trans (startup_suffix t)
  have hsuffix₂ : [.code cli .implied] ++ idleLoop t <:+ standaloneBody t :=
    (List.suffix_cons _ _).trans hsuffix₁
  -- The handlers are installed, with interrupts held off.
  obtain ⟨record₁, n₁, hinstalled, hplace₁, hwrites₁, hmemory₁, hdecimal₁, hr₁⟩ :=
    runs_installation ht hr hpc
  -- The player is set up.
  obtain ⟨n₂, ⟨⟨record₂, hsetUp⟩, hstands₂⟩⟩ := hc.passes_call hsuffix₁ hplace₁
    fun m' hpc' hflags hsame => hc.setup ht (hc.resident_congr hsame hr₁)
      ((congrArg Flags.decimal hflags).trans (hdecimal₁.trans hdecimal)) hpc'
  have hmemory₂ (cell : UInt16) (h : inStack cell = false) :
      n₂.memory cell = n₁.memory.after (setupWrites (standalone t) t) cell :=
    hsetUp.memory_outside h
  have hr₂ := hc.resident_congr hmemory₂ (hc.resident_after (confined_setupWrites _ t) hr₁)
  have hstate₂ := (hc.stateOf_congr hmemory₂).trans (hc.stateOf_setupWrites ht n₁.memory)
  have hvector (cell : UInt16) (hhigh : 0xD419 ≤ cell.toNat) :
      n₂.memory cell = m.memory.after (installWrites (standalone t)) cell := by
    rw [hmemory₂ cell (inStack_eq_false (by omega)),
      hc.vector_after (confined_setupWrites _ t) hhigh, hmemory₁]
  -- Interrupts are let in.
  let n : Machine := { n₂ with
    pc := n₂.pc + 1
    flags := { n₂.flags with masked := false } }
  have hopening : straight (standalone t).locate [.code cli .implied] n₂ =
      some ([⟨cli, .implied, n₂, []⟩], n) := rfl
  obtain ⟨hopened, hplace₃⟩ := hc.runs_straight hsuffix₂ hstands₂.pc_eq hopening
  have hreached : n.pc = (standalone t).locate "idle" :=
    hplace₃.trans (hc.spot_label (idleLoop_suffix t))
  refine ⟨_, n, boots_of_runs ht ((hinstalled.trans hsetUp.runs).trans hopened) hreached
      (show cli ≠ jmp by decide),
    { resident := hr₂
      state := hstate₂
      decimal := (hstands₂.decimal_eq.trans hdecimal₁).trans hdecimal
      pc_eq := hreached
      unmasked := rfl
      irq_eq := ?_
      nmi_eq := ?_ }, ?_⟩
  · change wordOf (n₂.memory (0xFFFF)) (n₂.memory 0xFFFE) = _
    rw [hvector _ (by decide), hvector _ (by decide)]
    exact wordOf_bytes _
  · change wordOf (n₂.memory (0xFFFB)) (n₂.memory 0xFFFA) = _
    rw [hvector _ (by decide), hvector _ (by decide)]
    exact wordOf_bytes _
  · have hsilent : chipWrites (installWrites (standalone t)) = [] :=
      chipWrites_eq_nil fun w hw => (installWrites_far _ w hw).2
    rw [writesOf_append, writesOf_append, chipWrites_append, chipWrites_append, hwrites₁, hsilent,
      ← chipWrites_outside (writesOf record₂), hsetUp.writes_eq, hc.chipWrites_setupWrites]
    exact List.append_nil _

end Boot

/-! ### Raster interrupts -/

/-- The writes that acknowledge a raster interrupt. -/
def acknowledgements (writes : List Write) : List Write :=
  writes.filter fun w => w.address = 0xD019

/-- The acknowledgement of a raster interrupt. -/
def acknowledge : Write :=
  ⟨0xD019, 0x01⟩

private theorem acknowledgements_outside (writes : List Write) :
    acknowledgements (outside writes) = acknowledgements writes :=
  filter_outside fun _ _ hw => of_decide_eq_true hw ▸ rfl

/-- What is known of a raster interrupt that is served: it comes back to where it was with all
registers, plays a frame, and is acknowledged once; all the while it is held off and the stack does
not get too deep. -/
structure PlaysFrame (p : Program) (t : Tune) (q : Playing) (m : Machine) (record : List Moment)
    (n : Machine) : Prop where
  serves : Serves p 0xFFFE m record n
  registers : n.toRegisters = m.toRegisters
  idles : Idles p t (q.frame t).2 n
  score : chipWrites (writesOf record) = (q.frame t).1
  acknowledged : acknowledgements (writesOf record) = [acknowledge]
  deep : ∀ k ∈ record, Under m.stack 10 k.before.stack
  masked : ∀ k ∈ record, k.before.flags.masked = true
  low : ∀ w ∈ writesOf record, w.address.toNat < 0xFFFA

section Raster

variable {t : Tune} {m : Machine} {q : Playing}

/-- The handler of raster interrupts from its entry to its return. -/
theorem runs_handler (ht : t.Playable) (h : Idles (standalone t) t q m) (hvalid : q.Valid t) :
    ∃ record n,
      Stretch (standalone t) (m.stack - 3) 7 (m.interrupt 0xFFFE) record n
        (acknowledge :: frameWrites (standalone t) t q) (frameReads t q) ∧
      Runs (standalone t) n [⟨rti, .implied, n, []⟩] n.resumed ∧
      n.stack = m.stack - 3 ∧ n.flags.masked = true ∧
      n.resumed.toRegisters = m.toRegisters := by
  have hc := carries_standalone ht
  have hsame (cell : UInt16) (hcell : inStack cell = false) := memory_interrupt m 0xFFFE hcell
  have hleads (k : Machine) :
      ∃ n, Leads (standalone t).locate (put 0x01 videoStatus) k n [acknowledge] [] :=
    ⟨_, _, rfl, rfl, rfl, by simp [Moment.NoCarry]⟩
  obtain ⟨n, hplayed, ha, hx, hy⟩ := hc.guarded_frame (m := m.interrupt 0xFFFE) ht
    ((List.suffix_cons _ _).trans (rasterHandler_suffix t))
    (h.irq_eq.trans (hc.locate_eq_spot (rasterHandler_suffix t))) rfl hleads
    (by simp [acknowledge])
    (hc.resident_congr hsame h.resident) h.decimal ((hc.stateOf_congr hsame).trans h.state) hvalid
  obtain ⟨record, hstretch⟩ := hplayed.stretch
  have hback := (List.suffix_cons _ _).trans (returning_suffix t)
  have hplace : n.pc = spot 0x0801 (standaloneBody t) (returning t).tail := by
    rw [hplayed.stands.pc_eq]
    exact (hc.spot_label (returning_suffix t)).trans (hc.locate_eq_spot (returning_suffix t))
  exact ⟨record, n, hstretch, hc.runs_code hback hplace (execute_rti _ n), hplayed.stands.stack_eq,
    hplayed.stands.masked_eq, resumed_registers hplayed.stands.stack_eq
      (fun j hj => hplayed.pulled_eq (by omega)) ha hx hy⟩

private theorem Carries.acknowledgements_frameWrites {p body : Program} {start : UInt16}
    (hc : Carries p start body t) (q : Playing) :
    acknowledgements (acknowledge :: frameWrites p t q) = [acknowledge] := by
  have hsilent : acknowledgements (frameWrites p t q) = [] := by
    refine List.filter_eq_nil_iff.2 fun w hw heq => ?_
    have := hc.confined_bounds (confined_frameWrites p t q w hw)
    rw [of_decide_eq_true heq] at this
    exact absurd this (by decide)
  rw [acknowledgements, List.filter_cons_of_pos (by decide)]
  exact congrArg (acknowledge :: ·) hsilent

/-- A machine that idles does so again, with the next state, when a raster interrupt has come back
to where it was. -/
theorem Idles.comes_back (ht : t.Playable) (h : Idles (standalone t) t q m) (hvalid : q.Valid t)
    {n : Machine} (hregisters : n.toRegisters = m.toRegisters)
    (hmemory : ∀ cell, inStack cell = false → n.memory cell =
      (m.memory.write acknowledge).after (frameWrites (standalone t) t q) cell) :
    Idles (standalone t) t (q.frame t).2 n := by
  have hc := carries_standalone ht
  have hconfined := confined_frameWrites (standalone t) t q
  have hfar : ∀ w ∈ [acknowledge], w.address.toNat < 0x0200 ∨ 0xD000 ≤ w.address.toNat := by
    simp [acknowledge]
  have himage : ∀ c ∈ (standalone t).image, m.memory.write acknowledge c.1 = m.memory c.1 :=
    hc.image_far hfar
  have habove (cell : UInt16) (hhigh : 0xFFFA ≤ cell.toNat) : n.memory cell = m.memory cell := by
    rw [hmemory cell (inStack_eq_false (by omega)), hc.vector_after hconfined (by omega)]
    refine Memory.write_of_ne _ fun heq => ?_
    rw [heq] at hhigh
    exact absurd hhigh (by decide)
  have hvector (cell : UInt16) (hlow : 0xFFFA ≤ cell.toNat) (hhigh : 0xFFFA ≤ (cell + 1).toNat) :
      n.vector cell = m.vector cell :=
    congrArg₂ wordOf (habove _ hhigh) (habove _ hlow)
  have hstate := hc.stateOf_frameWrites ht ((hc.stateOf_image himage).trans h.state) hvalid
  exact
    { resident := hc.resident_congr hmemory
        (hc.resident_after hconfined (hc.resident_image himage h.resident))
      state := (hc.stateOf_congr hmemory).trans hstate
      decimal := (congrArg (·.flags.decimal) hregisters).trans h.decimal
      pc_eq := (congrArg Registers.pc hregisters).trans h.pc_eq
      unmasked := (congrArg (·.flags.masked) hregisters).trans h.unmasked
      irq_eq := (hvector _ (by decide) (by decide)).trans h.irq_eq
      nmi_eq := (hvector _ (by decide) (by decide)).trans h.nmi_eq }

/-- A raster interrupt plays a frame and comes back. -/
theorem Idles.serves (ht : t.Playable) (h : Idles (standalone t) t q m) (hvalid : q.Valid t) :
    ∃ record n, PlaysFrame (standalone t) t q m record n := by
  have hc := carries_standalone ht
  obtain ⟨record, k, hstretch, hback, hstack, hmasked, hregisters⟩ := runs_handler ht h hvalid
  have hwrites : writesOf (record ++ [⟨rti, .implied, k, []⟩]) = writesOf record := by simp
  have hunder : ∀ j ∈ record ++ [(⟨rti, .implied, k, []⟩ : Moment)],
      Under (m.stack - 3) 7 j.before.stack := by
    rw [List.forall_mem_append, List.forall_mem_singleton]
    exact ⟨hstretch.deep, hstack ▸ .self ..⟩
  refine ⟨record ++ [⟨rti, .implied, k, []⟩], k.resumed,
    { serves := ⟨hstretch.runs.trans hback, congrArg Registers.stack hregisters, fun j hj => ?_⟩
      registers := hregisters
      idles := h.comes_back ht hvalid hregisters fun cell hcell => ?_
      score := ?_
      acknowledged := ?_
      deep := fun j hj => Under.lower (c := 3) (hunder j hj)
      masked := ?_
      low := ?_ }⟩
  · have habove : m.stack - 3 + UInt8.ofNat 3 = m.stack := by grind
    exact habove ▸ (hunder j hj).ne_above (by decide) (by decide)
  · rw [← Memory.after_cons]
    exact (hstretch.memory_outside hcell).trans
      (Memory.after_congr (.inl (memory_interrupt m 0xFFFE hcell)))
  · rw [hwrites, ← chipWrites_outside, hstretch.writes_eq]
    exact hc.chipWrites_frameWrites q
  · rw [hwrites, ← acknowledgements_outside, hstretch.writes_eq]
    exact hc.acknowledgements_frameWrites q
  · rw [List.forall_mem_append, List.forall_mem_singleton]
    exact ⟨hstretch.masked, hmasked⟩
  · rw [hwrites]
    refine hstretch.address_lt (by decide) (List.forall_mem_cons.2 ⟨by decide, fun w hw => ?_⟩)
    have := hc.confined_bounds (confined_frameWrites (standalone t) t q w hw)
    omega

end Raster

end SidTune.Player
