import SidTune.Proofs.Player.Standalone

/-!
# Performances of the standalone program

Once the standalone program idles, anything can happen between two instructions: a raster interrupt
arrives as soon as interrupts are let in, and others arrive at any time. Still the program plays
what the library plays. While a frame is played, a calm machine goes through the same instructions
without other interrupts, and differs in free cells of the stack only; what this machine has still
to do is the invariant.

## Main definitions

* `SidTune.Player.Performance`: what can happen.
* `SidTune.Player.Pending`: the invariant.
* `SidTune.Player.Undisturbed`: what is true between any two instructions.
* `SidTune.Player.InLoop`: what is true in the loop.

## Main results

* `SidTune.Player.Pending.step`, `SidTune.Player.Pending.raster`, `SidTune.Player.Pending.other`:
  whatever happens keeps the invariant.
* `SidTune.Player.Performance.sound`: the invariant holds in all performances.
* `SidTune.Player.standalone_plays_library`: the standalone program plays what the library plays.
-/

namespace SidTune.Player

open Assembly Assembly.Mnemonic Processor

/-! ### What can happen -/

/-- What can happen to the standalone program once it has reached the loop: an instruction is
executed, a raster interrupt arrives if interrupts are let in, or another one arrives and is served.
`past` holds the records up to each of the raster interrupts, the first from the start on, and `now`
the record since the last. -/
inductive Performance (p : Program) (m : Machine) :
    List (List Moment) → List Moment → Machine → Prop
  | reach {record : List Moment} {n : Machine} (boots : Boots p m record n) :
    Performance p m [] record n
  | step {past : List (List Moment)} {now : List Moment} {k n : Machine} {op : Mnemonic}
    {operand : Operand} {writes : List Write} (before : Performance p m past now k)
    (code : p.code? k.pc = some (op, operand))
    (execution : execute p.locate op operand k = some (writes, n)) :
    Performance p m past (now ++ [⟨op, operand, k, writes⟩]) n
  | raster {past : List (List Moment)} {now : List Moment} {k : Machine}
    (before : Performance p m past now k) (unmasked : k.flags.masked = false) :
    Performance p m (past ++ [now]) [] (k.interrupt 0xFFFE)
  | other {past : List (List Moment)} {now record : List Moment} {k n : Machine}
    (before : Performance p m past now k) (serves : Serves p 0xFFFA k record n) :
    Performance p m past (now ++ record) n

/-! ### The invariant -/

/-- A machine `k` in which a frame is pending: without other interrupts it would be `calm`, from
which the run with the record `more` leads to a machine `n` that idles with the registers of
`first`. -/
structure Pending (t : Tune) (first : Machine) (q : Playing) (k calm : Machine)
    (more : List Moment) (n : Machine) : Prop where
  alike : Alike first.stack 12 calm k
  runs : Runs (standalone t) calm more n
  idles : Idles (standalone t) t q n
  registers : n.toRegisters = first.toRegisters
  deep : ∀ j ∈ more, Under first.stack 10 j.before.stack
  masked : ∀ j ∈ more, j.before.flags.masked = true
  low : ∀ w ∈ writesOf more, w.address.toNat < 0xFFFA

namespace Pending

variable {t : Tune} {first k calm n k' : Machine} {q : Playing} {more record : List Moment}
  {op : Mnemonic} {operand : Operand} {writes : List Write}

/-- In a machine that idles nothing is left to do. -/
theorem of_idles (h : Idles (standalone t) t q n) (hregisters : n.toRegisters = first.toRegisters) :
    Pending t first q n n [] n where
  alike := .refl ..
  runs := .done n
  idles := h
  registers := hregisters
  deep := by simp
  masked := by simp
  low := by simp

/-- A frame is pending where interrupts are held off. -/
theorem unmasked_iff (h : Pending t first q k calm more n) :
    k.flags.masked = false ↔ more = [] := by
  rw [h.alike.registers]
  obtain ⟨-, hruns, hidles, -, -, hmasked, -⟩ := h
  cases hruns with
  | done => simp [hidles.unmasked]
  | step => simpa using hmasked _ List.mem_cons_self

theorem pc_iff (ht : t.Playable) (h : Pending t first q k calm more n) :
    k.pc = (standalone t).locate "idle" ↔ more = [] := by
  rw [h.alike.registers]
  refine ⟨fun hpc => ?_, ?_⟩
  · obtain ⟨hstays, -⟩ := stays_idle ht h.runs hpc
    refine h.unmasked_iff.1 ?_
    rw [h.alike.registers, ← hstays]
    exact h.idles.unmasked
  · rintro rfl
    cases h.runs
    exact h.idles.pc_eq

theorem idles_of_nil (h : Pending t first q k calm [] n) (ht : t.Playable) :
    Idles (standalone t) t q k ∧ k.toRegisters = first.toRegisters := by
  have hc := carries_standalone ht
  cases h.runs
  have hregisters := h.alike.registers
  have hsame (cell : UInt16) (hcell : inStack cell = false) := h.alike.outside hcell
  obtain ⟨⟨hresident, hstate, hdecimal⟩, hpc, hunmasked, hirq, hnmi⟩ := h.idles
  rw [← hregisters] at hdecimal hpc hunmasked
  exact ⟨⟨⟨hc.resident_congr hsame hresident, (hc.stateOf_congr hsame).trans hstate, hdecimal⟩, hpc,
    hunmasked, (congrArg₂ wordOf (hsame _ rfl) (hsame _ rfl)).trans hirq,
    (congrArg₂ wordOf (hsame _ rfl) (hsame _ rfl)).trans hnmi⟩, hregisters.trans h.registers⟩

theorem under (h : Pending t first q k calm more n) : Under first.stack 10 calm.stack := by
  obtain ⟨-, hruns, -, hregisters, hdeep, -, -⟩ := h
  cases hruns with
  | done => exact hregisters ▸ .self ..
  | step => exact hdeep _ List.mem_cons_self

/-- The handler of other interrupts is known. -/
theorem nmi_eq (h : Pending t first q k calm more n) :
    k.vector 0xFFFA = (standalone t).locate "nmi" := by
  have hsame (cell : UInt16) (hhigh : 0xFFFA ≤ cell.toNat) : k.memory cell = n.memory cell := by
    rw [h.alike.outside (inStack_eq_false (by omega)), h.runs.memory_eq,
      Memory.after_of_unwritten _ fun w hw heq => ?_]
    have := h.low w hw
    rw [← heq] at this
    omega
  rw [← h.idles.nmi_eq]
  exact congrArg₂ wordOf (hsame _ (by decide)) (hsame _ (by decide))

/-- An instruction is the next one that was left to do, or one of the loop. -/
theorem step (ht : t.Playable) (h : Pending t first q k calm more n)
    (hcode : (standalone t).code? k.pc = some (op, operand))
    (hexecution : execute (standalone t).locate op operand k = some (writes, k')) :
    ∃ calm' more', Pending t first q k' calm' more' n ∧
      writes ++ writesOf more' = writesOf more := by
  obtain ⟨halike, hruns, hidles, hregisters, hdeep, hmasked, hlow⟩ := h
  cases hruns with
  | done =>
    obtain ⟨hmoment, rfl⟩ :=
      step_idle ht ((congrArg Registers.pc halike.registers).trans hidles.pc_eq) hcode hexecution
    cases hmoment
    exact ⟨calm, [], ⟨halike, .done calm, hidles, hregisters, hdeep, hmasked, hlow⟩, rfl⟩
  | @step _ calm' _ _ _ _ more' hcode₀ hexecution₀ hrest =>
    have hnext : Under first.stack 12 calm'.stack := by
      cases hrest with
      | done => exact hregisters ▸ .self ..
      | step => exact (hdeep _ (.tail _ List.mem_cons_self)).mono (by decide)
    obtain ⟨k'', hcode₁, hexecution₁, halike'⟩ := (carries_standalone ht).alike_step
      (fun _ _ => looksAway_standalone t) (by decide) halike hcode₀ hexecution₀ hnext
    cases hcode.symm.trans hcode₁
    cases hexecution.symm.trans hexecution₁
    exact ⟨calm', more', ⟨halike', hrest, hidles, hregisters,
      fun j hj => hdeep j (List.mem_cons_of_mem _ hj),
      fun j hj => hmasked j (List.mem_cons_of_mem _ hj),
      fun w hw => hlow w (List.mem_append_right _ hw)⟩, rfl⟩

/-- Another interrupt does not change what is left to do. -/
theorem other (ht : t.Playable) (h : Pending t first q k calm more n) :
    ∃ record k', Serves (standalone t) 0xFFFA k record k' ∧ writesOf record = [] ∧
      k'.toRegisters = k.toRegisters ∧
      k'.memory = k.memory.after (pushes k.stack (Bytes.word k.pc ++ [k.flags.byte])) ∧
      Pending t first q k' calm more n := by
  obtain ⟨record, k', hserves, hwrites, hregisters, hmemory⟩ :=
    (carries_standalone ht).serves_return (returning_suffix t) h.nmi_eq
  refine ⟨record, k', hserves, hwrites, hregisters, hmemory, { h with alike := ?_ }⟩
  have hpushed := h.alike.push h.under (Bytes.word k.pc ++ [k.flags.byte]) rfl
  rw [← hmemory, ← hregisters] at hpushed
  exact hpushed

/-- A raster interrupt begins the next frame. -/
theorem raster (ht : t.Playable) (h : Pending t first q k calm [] n) (hvalid : q.Valid t) :
    ∃ more' n', Pending t first (q.frame t).2 (k.interrupt 0xFFFE) (k.interrupt 0xFFFE) more'
        n' ∧ PlaysFrame (standalone t) t q k more' n' := by
  obtain ⟨hidles, hregisters⟩ := h.idles_of_nil ht
  obtain ⟨more', n', hplays⟩ := hidles.serves ht hvalid
  exact ⟨more', n',
    { alike := .refl ..
      runs := hplays.serves.runs
      idles := hplays.idles
      registers := hplays.registers.trans hregisters
      deep := congrArg Registers.stack hregisters ▸ hplays.deep
      masked := hplays.masked
      low := hplays.low }, hplays⟩

/-- What is left to do can be done. -/
theorem finish (ht : t.Playable) (h : Pending t first q k calm more n) :
    ∃ record k', Runs (standalone t) k record k' ∧ k'.pc = (standalone t).locate "idle" := by
  have hunder : Under first.stack 12 n.stack := h.registers ▸ .self ..
  obtain ⟨record, k', hruns, -, halike⟩ := (carries_standalone ht).alike_runs
    (fun _ _ => looksAway_standalone t) (by decide) h.alike h.runs
    (fun j hj => (h.deep j hj).mono (by decide)) hunder
  exact ⟨record, k', hruns, (congrArg Registers.pc halike.registers).trans h.idles.pc_eq⟩

end Pending

/-! ### Performances -/

/-- What has been written and what is left to be written, interrupt by interrupt. -/
def allWrites (past : List (List Moment)) (now more : List Moment) : List (List Write) :=
  past.map writesOf ++ [writesOf now ++ writesOf more]

/-- The invariant of a performance: the frame of the last raster interrupt is pending, at the end of
which the score has been played and all of these interrupts have been acknowledged. -/
def Sound (t : Tune) (first : Machine) (past : List (List Moment)) (now : List Moment)
    (k : Machine) : Prop :=
  ∃ calm more n, Pending t first (playingAfter t past.length) k calm more n ∧
    (allWrites past now more).map chipWrites = scoreWrites t past.length ∧
    ∀ writes ∈ (allWrites past now more).tail, acknowledgements writes = [acknowledge]

section Performances

variable {t : Tune} {m first k : Machine} {past : List (List Moment)} {now record : List Moment}

private theorem allWrites_raster (past : List (List Moment)) (now more : List Moment) :
    allWrites (past ++ [now]) [] more = allWrites past now [] ++ [writesOf more] := by
  simp [allWrites]

private theorem allWrites_nil (past : List (List Moment)) (now : List Moment) :
    allWrites past now [] = (past ++ [now]).map writesOf := by
  simp [allWrites]

/-- The invariant holds in all performances. -/
theorem Performance.sound (ht : t.Playable) (hboots : Boots (standalone t) m record first)
    (hidles : Idles (standalone t) t (begin t).2 first)
    (hscore : chipWrites (writesOf record) = (begin t).1)
    (h : Performance (standalone t) m past now k) : Sound t first past now k := by
  induction h with
  | reach hboots' =>
    obtain ⟨rfl, rfl⟩ := hboots.unique hboots'
    refine ⟨first, [], first, .of_idles hidles rfl, ?_, by simp [allWrites]⟩
    simp [allWrites, scoreWrites, hscore]
  | @step past now k n op operand writes hbefore hcode hexecution ih =>
    obtain ⟨calm, more, end', hpending, hplayed, hacknowledged⟩ := ih
    obtain ⟨calm', more', hpending', hleft⟩ := hpending.step ht hcode hexecution
    have hsame : allWrites past (now ++ [⟨op, operand, k, writes⟩]) more' =
        allWrites past now more := by
      simp [allWrites, ← hleft]
    exact ⟨calm', more', end', hpending', hsame ▸ hplayed, hsame ▸ hacknowledged⟩
  | @raster past now k hbefore hunmasked ih =>
    obtain ⟨calm, more, end', hpending, hplayed, hacknowledged⟩ := ih
    -- Interrupts are let in only in the loop, where the frame before has been played in full.
    obtain rfl := hpending.unmasked_iff.1 hunmasked
    obtain ⟨more', n', hpending', hplays⟩ := hpending.raster ht (valid_playingAfter ht _)
    have hlength : (past ++ [now]).length = past.length + 1 := by simp
    refine ⟨_, more', n', by rw [hlength]; exact hpending', ?_, ?_⟩
    · rw [allWrites_raster, List.map_append, hplayed, hlength, scoreWrites_succ, List.map_singleton,
        hplays.score]
    · have hsome_written : allWrites past now [] ≠ [] := by simp [allWrites]
      rw [allWrites_raster, List.tail_append_of_ne_nil hsome_written, List.forall_mem_append,
        List.forall_mem_singleton]
      exact ⟨hacknowledged, hplays.acknowledged⟩
  | @other past now record k n hbefore hserves ih =>
    obtain ⟨calm, more, end', hpending, hplayed, hacknowledged⟩ := ih
    obtain ⟨record', n', hserves', hsilent, -, -, hpending'⟩ := hpending.other ht
    obtain ⟨rfl, rfl⟩ := hserves.unique hserves'
    have hsame : allWrites past (now ++ record) more = allWrites past now more := by
      simp [allWrites, hsilent]
    exact ⟨calm, more, end', hpending', hsame ▸ hplayed, hsame ▸ hacknowledged⟩

/-- What runs after a performance goes on with it. -/
theorem Performance.runs {n : Machine} {p : Program} (h : Performance p m past now k)
    (hruns : Runs p k record n) : Performance p m past (now ++ record) n := by
  induction hruns generalizing now with
  | done => simpa using h
  | step hcode hexecution hrest ih =>
    have hnext := ih (h.step hcode hexecution)
    rwa [List.append_assoc] at hnext

end Performances

/-! ### The standalone program -/

/-- A machine at the start of the standalone program of an accepted song, which has been loaded,
with decimal mode off. -/
structure Booted (s : Song) (m : Machine) : Prop where
  accepted : ∃ document, Song.ofJson document = .ok s
  loaded : ∀ c ∈ (standalone (Tune.ofSong s)).image, m.memory c.1 = c.2
  decimal : m.flags.decimal = false
  pc_eq : m.pc = (standalone (Tune.ofSong s)).locate "start"

/-- What is true between any two instructions of a performance: interrupts are let in if and only if
the program is in the loop; it comes back there when nothing else happens; and another interrupt
changes at most three free cells of the stack. -/
structure Undisturbed (p : Program) (k : Machine) : Prop where
  lets_in : k.flags.masked = false ↔ k.pc = p.locate "idle"
  comes_back : ∃ record n, Runs p k record n ∧ n.pc = p.locate "idle"
  unheard : ∃ record n, Serves p 0xFFFA k record n ∧ n.toRegisters = k.toRegisters ∧
    ∀ cell, (∀ d < 3, cell ≠ stackCell (k.stack - UInt8.ofNat d)) → n.memory cell = k.memory cell

/-- What is true in the loop, which was reached first by the machine `first`, after any number of
raster interrupts: all registers are as they were; the loop goes on for as long as it likes; the
next raster interrupt comes back and is acknowledged once, and so was each before; and what has been
written to the chip is what the calls of a library write that sets up and plays as many frames. -/
structure InLoop (s : Song) (p : Program) (first : Machine) (past : List (List Moment))
    (now : List Moment) (k : Machine) : Prop where
  registers : k.toRegisters = first.toRegisters
  waits (count : Nat) : ∃ record, record.length = count ∧ Runs p k record k
  serves : ∃ record n, Serves p 0xFFFE k record n ∧ n.toRegisters = k.toRegisters ∧
    acknowledgements (writesOf record) = [acknowledge]
  acknowledged : ∀ record ∈ (past ++ [now]).tail,
    acknowledgements (writesOf record) = [acknowledge]
  plays {host : Nat → Machine → Machine} {m : Machine} (hosted : Hosted s host m) :
    ∃ records n, Session (library (Tune.ofSong s)) host m past.length records n ∧
      (past ++ [now]).map (fun record => chipWrites (writesOf record)) =
        records.map fun record => chipWrites (writesOf record)

section Standalone

variable {t : Tune} {m first k : Machine} {past : List (List Moment)} {now : List Moment}

theorem exists_waits (ht : t.Playable) (hpc : k.pc = (standalone t).locate "idle") (count : Nat) :
    ∃ record, record.length = count ∧ Runs (standalone t) k record k := by
  induction count with
  | zero => exact ⟨[], rfl, .done k⟩
  | succ count ih =>
    obtain ⟨record, hlength, hruns⟩ := ih
    exact ⟨_, congrArg (· + 1) hlength, .step (hpc ▸ code?_idle ht) (execute_idle hpc) hruns⟩

/-- There is a performance with any number of raster interrupts. -/
theorem exists_performance (ht : t.Playable) {record : List Moment}
    (hboots : Boots (standalone t) m record first)
    (hidles : Idles (standalone t) t (begin t).2 first)
    (hscore : chipWrites (writesOf record) = (begin t).1) (i : Nat) :
    ∃ past now k, Performance (standalone t) m past now k ∧ past.length = i ∧
      k.pc = (standalone t).locate "idle" := by
  induction i with
  | zero => exact ⟨[], record, first, .reach hboots, rfl, hidles.pc_eq⟩
  | succ i ih =>
    obtain ⟨past, now, k, hperformance, hlength, hpc⟩ := ih
    obtain ⟨calm, more, n, hpending, -⟩ := hperformance.sound ht hboots hidles hscore
    have hunmasked := hpending.unmasked_iff.2 ((hpending.pc_iff ht).1 hpc)
    have hinterrupted := hperformance.raster hunmasked
    obtain ⟨calm', more', n', hpending', -⟩ := hinterrupted.sound ht hboots hidles hscore
    obtain ⟨record', k', hruns, hpc'⟩ := hpending'.finish ht
    exact ⟨_, _, k', hinterrupted.runs hruns, by simp [hlength], hpc'⟩

theorem Sound.undisturbed (ht : t.Playable) (h : Sound t first past now k) :
    Undisturbed (standalone t) k := by
  obtain ⟨calm, more, n, hpending, -⟩ := h
  refine ⟨hpending.unmasked_iff.trans (hpending.pc_iff ht).symm, hpending.finish ht, ?_⟩
  obtain ⟨record, k', hserves, -, hregisters, hmemory, -⟩ := hpending.other ht
  refine ⟨record, k', hserves, hregisters, fun cell hcell => ?_⟩
  rw [hmemory]
  refine Memory.after_of_unwritten _ fun w hw heq => ?_
  obtain ⟨u, ⟨d, hd, rfl⟩, hu⟩ := under_of_mem_pushes hw
  exact hcell d (Nat.lt_succ_of_le hd) (heq.trans hu)

theorem Sound.inLoop {s : Song} (ht : (Tune.ofSong s).Playable)
    (h : Sound (Tune.ofSong s) first past now k)
    (hpc : k.pc = (standalone (Tune.ofSong s)).locate "idle") :
    InLoop s (standalone (Tune.ofSong s)) first past now k := by
  obtain ⟨calm, more, n, hpending, hplayed, hacknowledged⟩ := h
  obtain rfl := (hpending.pc_iff ht).1 hpc
  obtain ⟨hidles, hregisters⟩ := hpending.idles_of_nil ht
  obtain ⟨record, n', hplays⟩ := hidles.serves ht (valid_playingAfter ht _)
  rw [allWrites_nil] at hplayed hacknowledged
  refine ⟨hregisters, exists_waits ht hpc,
    ⟨record, n', hplays.serves, hplays.registers, hplays.acknowledged⟩, fun record hrecord => ?_,
    fun {host m} hhosted => ?_⟩
  · rw [← List.map_tail] at hacknowledged
    exact hacknowledged _ (List.mem_map_of_mem hrecord)
  · obtain ⟨records, n', hsession⟩ :=
      exists_session ht hhosted.resident hhosted.decimal hhosted.careful past.length
    refine ⟨records, n', hsession, ?_⟩
    rw [(hsession.plays ht hhosted.resident hhosted.decimal hhosted.careful).2.1, ← hplayed,
      List.map_map]
    rfl

end Standalone

namespace Booted

variable {s : Song} {m : Machine}

theorem playable (h : Booted s m) : (Tune.ofSong s).Playable :=
  let ⟨_, haccepted⟩ := h.accepted
  Tune.playable_ofJson haccepted

theorem resident (h : Booted s m) :
    Resident (standalone (Tune.ofSong s)) (Tune.ofSong s) m.memory :=
  (carries_standalone h.playable).resident h.loaded

end Booted

/-- A machine into which the standalone program of a tune was loaded, at its start. -/
def startedMachine (t : Tune) : Machine :=
  { loadedMachine (standalone t) with pc := (standalone t).locate "start" }

private theorem startedMachine_memory {t : Tune} (ht : t.Playable) :
    ∀ c ∈ (standalone t).image, (startedMachine t).memory c.1 = c.2 := by
  simp only [startedMachine]
  exact loadedMachine_memory (carries_standalone ht).toLinked

theorem booted_sampleSong : Booted sampleSong (startedMachine (Tune.ofSong sampleSong)) where
  accepted := ⟨_, ofJson_sampleSong⟩
  loaded := startedMachine_memory (Tune.playable_ofJson ofJson_sampleSong)
  decimal := rfl
  pc_eq := rfl

/-- The standalone program of an accepted song, started at its start, reaches its loop with both
handlers installed. It can be interrupted any number of times, and however it is interrupted,
nothing disturbs it, and in the loop it has played what the library plays. -/
theorem standalone_plays_library {s : Song} {m : Machine} (h : Booted s m) :
    ∃ record first, Boots (standalone (Tune.ofSong s)) m record first ∧
      first.vector 0xFFFE = (standalone (Tune.ofSong s)).locate "irq" ∧
      first.vector 0xFFFA = (standalone (Tune.ofSong s)).locate "nmi" ∧
      (∀ i, ∃ past now k, Performance (standalone (Tune.ofSong s)) m past now k ∧
        past.length = i ∧ k.pc = (standalone (Tune.ofSong s)).locate "idle") ∧
      ∀ past now k, Performance (standalone (Tune.ofSong s)) m past now k →
        Undisturbed (standalone (Tune.ofSong s)) k ∧
          (k.pc = (standalone (Tune.ofSong s)).locate "idle" →
            InLoop s (standalone (Tune.ofSong s)) first past now k) := by
  have ht := h.playable
  obtain ⟨record, first, hboots, hidles, hscore⟩ := exists_boots ht h.resident h.decimal h.pc_eq
  refine ⟨record, first, hboots, hidles.irq_eq, hidles.nmi_eq,
    exists_performance ht hboots hidles hscore, fun past now k hperformance => ?_⟩
  have hsound := hperformance.sound ht hboots hidles hscore
  exact ⟨hsound.undisturbed ht, hsound.inLoop ht⟩

theorem standalone_plays_library_sampleSong :
    Booted sampleSong (startedMachine (Tune.ofSong sampleSong)) ∧
      ∃ record first, Boots (standalone (Tune.ofSong sampleSong))
          (startedMachine (Tune.ofSong sampleSong)) record first ∧
        first.vector 0xFFFE = (standalone (Tune.ofSong sampleSong)).locate "irq" ∧
        first.vector 0xFFFA = (standalone (Tune.ofSong sampleSong)).locate "nmi" ∧
        (∀ i, ∃ past now k, Performance (standalone (Tune.ofSong sampleSong))
            (startedMachine (Tune.ofSong sampleSong)) past now k ∧
          past.length = i ∧ k.pc = (standalone (Tune.ofSong sampleSong)).locate "idle") ∧
        ∀ past now k, Performance (standalone (Tune.ofSong sampleSong))
            (startedMachine (Tune.ofSong sampleSong)) past now k →
          Undisturbed (standalone (Tune.ofSong sampleSong)) k ∧
            (k.pc = (standalone (Tune.ofSong sampleSong)).locate "idle" →
              InLoop sampleSong (standalone (Tune.ofSong sampleSong)) first past now k) :=
  ⟨booted_sampleSong, standalone_plays_library booted_sampleSong⟩

end SidTune.Player
