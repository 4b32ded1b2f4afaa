import SidTune.Proofs.Player.Memory

/-!
# The routine of a voice

The routine that starts the next step of a voice writes to the chip what starting that step means,
then the ticks of the step and the number of the next one. It reads the tables of the voice at the
step, and for a pitch the frequency table at the place of the pitch.

## Main definitions

* `SidTune.Track.pitchAt?`: the pitch of a step.
* `SidTune.Player.headWrites`, `SidTune.Player.advanceWrites`, `SidTune.Player.advanceReads`: what
  the routine writes and reads.

## Main results

* `SidTune.Player.Carries.advance`: the routine does so and returns.
-/

namespace SidTune

/-! ### Pitches of steps -/

/-- The pitch of a step: none for a rest, or where there is no step. -/
def Track.pitchAt? (t : Track) (step : Nat) : Option Pitch := do
  let entry ← t.entries[step]?
  let pitchClass ← entry.note?
  some ⟨pitchClass, entry.octave⟩

theorem Tune.wordAt?_eq {t : Tune} {voice : Nat} {track : Track}
    (ht : t.tracks.get? voice = some track) (step : Nat) :
    t.wordAt? voice step =
      (track.pitchAt? step).map fun pitch => pitchWord pitch.pitchClass pitch.octave.number := by
  cases hentry : track.entries[step]? with
  | none => simp [Tune.wordAt?, Track.pitchAt?, ht, hentry]
  | some entry =>
    cases hnote : entry.note? with
    | none => simp [Tune.wordAt?, Track.pitchAt?, ht, hentry, hnote]
    | some pitchClass =>
      simp [Tune.wordAt?, Track.pitchAt?, ht, hentry, hnote, wordTable_tableIndex]

namespace Player

open Assembly Assembly.Mnemonic Processor

/-! ### What the routine writes and reads -/

/-- The writes that set the state of a voice. -/
def headWrites (p : Program) (voice : Nat) (h : Head) : List Write :=
  [⟨p.locate (labelOf voice "timer"), UInt8.ofNat h.timer⟩,
    ⟨p.locate (labelOf voice "step"), UInt8.ofNat h.step⟩]

/-- What is written to start a step of a voice and to go on to the next. -/
def advanceWrites (p : Program) (t : Tune) (voice : Nat) (track : Track) (step : Nat) :
    List Write :=
  startStep t voice track step ++ headWrites p voice (Head.started track step)

/-- Where a pitch is looked up. -/
def pitchReads (voice step : Nat) : Option Pitch → List (String × Nat)
  | none => []
  | some pitch => [(labelOf voice "octaves", step), ("octave_offset", pitch.octave.number),
      ("freq_lo", pitch.tableIndex), ("freq_hi", pitch.tableIndex)]

/-- Where the tables are read to start a step of a voice. -/
def advanceReads (voice : Nat) (track : Track) (step : Nat) : List (String × Nat) :=
  (labelOf voice "notes", step) :: pitchReads voice step (track.pitchAt? step)
    ++ [(labelOf voice "ticks", step)]

/-! ### Parts of the routine -/

/-- Closes the gate and looks up the note. -/
def lookUp (voice : Nat) (track : Track) : Program :=
  [.label (labelOf voice "advance"),
    .code ldx (.label (labelOf voice "step")),
    .code lda (.immediate track.registers.wave),
    .code sta (.address (Chip.voiceAddress voice Chip.waveControl)),
    .code lda (.labelX (labelOf voice "notes")),
    .code cmp (.immediate Entry.restByte)]

/-- Sets the frequency word and opens the gate. -/
def sound (voice : Nat) (track : Track) : Program :=
  [.code clc .implied,
    .code ldy (.labelX (labelOf voice "octaves")),
    .code adc (.labelY "octave_offset"),
    .code tay .implied,
    .code lda (.labelY "freq_lo"),
    .code sta (.address (Chip.voiceAddress voice Chip.frequencyLow)),
    .code lda (.labelY "freq_hi"),
    .code sta (.address (Chip.voiceAddress voice Chip.frequencyHigh)),
    .code lda (.immediate track.registers.waveOpened),
    .code sta (.address (Chip.voiceAddress voice Chip.waveControl))]

/-- Reloads the countdown, and compares the next step with the number of steps. -/
def reload (voice : Nat) (track : Track) : Program :=
  [.label (labelOf voice "timing"),
    .code lda (.labelX (labelOf voice "ticks")),
    .code sta (.label (labelOf voice "timer")),
    .code inx .implied,
    .code cpx (.immediate (UInt8.ofNat track.length))]

/-- Stores the next step. -/
def store (voice : Nat) : Program :=
  [.label (labelOf voice "store"),
    .code stx (.label (labelOf voice "step"))]

/-- What follows the comparison with the number of steps. -/
def afterReload (voice : Nat) (rest : Program) : Program :=
  .code bne (.label (labelOf voice "store")) :: ([.code ldx (.immediate 0)] ++
    (store voice ++ .code rts .implied :: rest))

/-- What follows the look-up of the note. -/
def afterLookUp (voice : Nat) (track : Track) (rest : Program) : Program :=
  .code beq (.label (labelOf voice "timing")) :: (sound voice track ++
    (reload voice track ++ afterReload voice rest))

theorem Carries.advance_suffix {p body : Program} {start : UInt16} {t : Tune} {voice : Nat}
    {track : Track} (hc : Carries p start body t) (ht : t.tracks.get? voice = some track) :
    ∃ rest, lookUp voice track ++ afterLookUp voice track rest <:+ body := by
  obtain ⟨rest, hsuffix⟩ := hc.nextStep_suffix ht
  exact ⟨.blank :: rest, (List.suffix_cons _ _).trans hsuffix⟩

/-! ### Chip registers -/

theorem lt_three_of_get? {t : Tune} {voice : Nat} {track : Track}
    (ht : t.tracks.get? voice = some track) : voice < 3 := by
  rcases Trio.get?_eq_some.1 ht with ⟨rfl, -⟩ | ⟨rfl, -⟩ | ⟨rfl, -⟩ <;> decide

theorem isChip_voiceAddress {voice : Nat} (hv : voice < 3) {offset : UInt16}
    (hoff : offset.toNat ≤ 6) : isChip (Chip.voiceAddress voice offset) = true := by
  rw [isChip_iff, voiceAddress_eq, toNat_register hv hoff]
  omega

theorem outside_voice {voice : Nat} (hv : voice < 3) {offset : UInt16} (hoff : offset.toNat ≤ 6) :
    inStack (Chip.voiceAddress voice offset) = false :=
  inStack_of_isChip (isChip_voiceAddress hv hoff)

theorem confined_startStep {p : Program} {names : List String} {voice : Nat} (hv : voice < 3)
    (t : Tune) (track : Track) (step : Nat) :
    ∀ w ∈ startStep t voice track step, Confined p names w := by
  rw [startStep_eq]
  split <;>
    simp [Confined, isChip_voiceAddress hv, Chip.waveControl, Chip.frequencyLow,
      Chip.frequencyHigh]

theorem Carries.resident_voice {p body : Program} {start : UInt16} {t : Tune} {memory : Memory}
    {voice : Nat} {track : Track} (hc : Carries p start body t) (hr : Resident p t memory)
    (ht : t.tracks.get? voice = some track) (offset : UInt16) (hoff : offset.toNat ≤ 6)
    (value : UInt8) : Resident p t (memory.write ⟨Chip.voiceAddress voice offset, value⟩) := by
  have hconfined : ∀ w ∈ [(⟨Chip.voiceAddress voice offset, value⟩ : Write)],
      Confined p stateNames w :=
    fun _ hw => List.mem_singleton.1 hw ▸ .inl (isChip_voiceAddress (lt_three_of_get? ht) hoff)
  exact hc.resident_after hconfined hr

theorem chipWrites_startStep {voice : Nat} (hv : voice < 3) (t : Tune) (track : Track)
    (step : Nat) : chipWrites (startStep t voice track step) = startStep t voice track step := by
  refine chipWrites_eq_self ?_
  rw [startStep_eq]
  split <;>
    simp [isChip_voiceAddress hv, Chip.waveControl, Chip.frequencyLow, Chip.frequencyHigh]

/-! ### What the writes do -/

section Writes

variable {p body : Program} {start : UInt16} {t : Tune} {voice : Nat} {track : Track}

theorem confined_headWrites (p : Program) (voice : Nat) (h : Head) :
    ∀ w ∈ headWrites p voice h, Confined p (headNames voice) w := by
  simp [headWrites, Confined, headNames]

theorem confined_advanceWrites (hv : voice < 3) (p : Program) (t : Tune) (track : Track)
    (step : Nat) : ∀ w ∈ advanceWrites p t voice track step, Confined p (headNames voice) w := by
  intro w hw
  rcases List.mem_append.1 hw with hw | hw
  · exact confined_startStep hv t track step w hw
  · exact confined_headWrites p voice _ w hw

/-- Memory tells the head that was set last. -/
theorem Carries.headOf_headWrites (hc : Carries p start body t)
    (ht : t.tracks.get? voice = some track) {h : Head} (hh : h.Valid track)
    (hp : track.Playable) (memory : Memory) :
    headOf p (memory.after (headWrites p voice h)) voice = h := by
  have hne := hc.timer_ne_step ht
  have htimer_le := hh.timer_le
  have hstep_lt := hh.step_lt
  have hlength_le := hp.length_le
  simp only [maxEntries] at hlength_le
  simp only [headOf, headWrites, Memory.after_cons, Memory.after_nil, Memory.write, if_neg hne,
    if_true, UInt8.toNat_ofNat', Nat.reducePow]
  rw [Nat.mod_eq_of_lt (by omega), Nat.mod_eq_of_lt (by omega)]

/-- Of what the routine of a voice writes, the chip sees the start of the step. -/
theorem Carries.chipWrites_advanceWrites (hc : Carries p start body t)
    (ht : t.tracks.get? voice = some track) (step : Nat) :
    chipWrites (advanceWrites p t voice track step) = startStep t voice track step := by
  rw [advanceWrites, chipWrites_append, chipWrites_startStep (lt_three_of_get? ht),
    chipWrites_eq_nil (by
      simp [headWrites, hc.state_isChip (timer_mem_stateNames ht),
        hc.state_isChip (step_mem_stateNames ht)]), List.append_nil]

theorem Carries.headOf_advanceWrites (hc : Carries p start body t)
    (ht : t.tracks.get? voice = some track) (hp : track.Playable) {step : Nat}
    (hinside : step < track.length) (memory : Memory) :
    headOf p (memory.after (advanceWrites p t voice track step)) voice =
      Head.started track step := by
  rw [advanceWrites, Memory.after_append]
  exact hc.headOf_headWrites ht (Head.valid_started hp hinside) hp _

end Writes

/-! ### What the tables tell -/

section Tables

variable {p : Program} {t : Tune} {memory : Memory} {voice : Nat} {track : Track} {x : UInt8}
  {e : Entry}

/-- What a table of a voice tells about a step. -/
theorem Resident.column (hr : Resident p t memory) {name : String} (f : Entry → UInt8)
    (hmem : (name, track.entries.map f) ∈ constants t)
    (he : track.entries[x.toNat]? = some e) :
    memory (p.locate name + x.toUInt16) = f e := by
  obtain ⟨hinside, rfl⟩ := List.getElem?_eq_some_iff.1 he
  rw [holds_get (hr _ hmem) (by simpa using hinside)]
  simp

/-- What the tables of a voice tell about a step. -/
theorem Resident.entry (hr : Resident p t memory) (ht : t.tracks.get? voice = some track)
    (he : track.entries[x.toNat]? = some e) :
    memory (p.locate (labelOf voice "notes") + x.toUInt16) = e.noteByte ∧
      memory (p.locate (labelOf voice "octaves") + x.toUInt16) = e.octaveByte ∧
      memory (p.locate (labelOf voice "ticks") + x.toUInt16) = e.ticks :=
  ⟨hr.column Entry.noteByte (mem_constants ht List.mem_cons_self) he,
    hr.column Entry.octaveByte (mem_constants ht (.tail _ List.mem_cons_self)) he,
    hr.column Entry.ticks (mem_constants ht (.tail _ (.tail _ List.mem_cons_self))) he⟩

theorem getElem?_octaveStarts (o : Octave) : ∃ start, octaveStarts[o.number]? = some start ∧
    start.toNat = (o.number - Octave.lowest.number) * 12 := by
  obtain ⟨number, hlow, hhigh⟩ := o
  have hcases : number = 2 ∨ number = 3 ∨ number = 4 ∨ number = 5 := by omega
  rcases hcases with rfl | rfl | rfl | rfl <;> exact ⟨_, rfl, rfl⟩

theorem Resident.octaveStart (hr : Resident p t memory) (o : Octave) :
    (memory (p.locate "octave_offset" + (UInt8.ofNat o.number).toUInt16)).toNat =
      (o.number - Octave.lowest.number) * 12 := by
  have hheld := hr ("octave_offset", octaveStarts) (by simp [constants])
  obtain ⟨start, hfound, hstart_eq⟩ := getElem?_octaveStarts o
  obtain ⟨hinside, hfound⟩ := List.getElem?_eq_some_iff.1 hfound
  have hnumber : (UInt8.ofNat o.number).toNat = o.number := by
    rw [UInt8.toNat_ofNat', Nat.mod_eq_of_lt (by have := o.le_five; omega)]
  rw [holds_get hheld (by rwa [hnumber]), ← hstart_eq, ← hfound]
  simp only [hnumber]

/-- The bytes of the word of a pitch. -/
theorem Resident.word (hr : Resident p t memory) (pitch : Pitch) :
    memory (p.locate "freq_lo" + (UInt8.ofNat pitch.tableIndex).toUInt16) =
        (pitchWord pitch.pitchClass pitch.octave.number).toUInt8 ∧
      memory (p.locate "freq_hi" + (UInt8.ofNat pitch.tableIndex).toUInt16) =
        (pitchWord pitch.pitchClass pitch.octave.number >>> 8).toUInt8 := by
  have hlow := hr ("freq_lo", wordLowBytes) (by simp [constants])
  have hhigh := hr ("freq_hi", wordHighBytes) (by simp [constants])
  have hlt := pitch.tableIndex_lt
  have hindex : (UInt8.ofNat pitch.tableIndex).toNat = pitch.tableIndex := by
    rw [UInt8.toNat_ofNat']
    omega
  obtain ⟨hinside, hword⟩ := List.getElem?_eq_some_iff.1 (wordTable_tableIndex pitch)
  constructor
  · rw [holds_get hlow (by rw [hindex, wordLowBytes, List.length_map]; exact hinside)]
    simp only [hindex, wordLowBytes, List.getElem_map, hword]
  · rw [holds_get hhigh (by rw [hindex, wordHighBytes, List.length_map]; exact hinside)]
    simp only [hindex, wordHighBytes, List.getElem_map, hword]

end Tables

/-! ### What the parts do -/

section Parts

attribute [local simp] straight goesOn execute formOf formsOf effect cellOf byteOf Registers.setA
  Registers.setX Registers.setY Flags.seeing Flags.comparing Moment.read? Moment.NoCarry

variable {p body : Program} {start : UInt16} {t : Tune} {m : Machine} {voice : Nat} {track : Track}
  {e : Entry}

private theorem leads_lookUp (hc : Carries p start body t) (ht : t.tracks.get? voice = some track)
    (hr : Resident p t m.memory)
    (he : track.entries[(m.memory (p.locate (labelOf voice "step"))).toNat]? = some e) :
    ∃ n, Leads p.locate (lookUp voice track) m n
        [⟨Chip.voiceAddress voice Chip.waveControl, track.registers.wave⟩]
        [(labelOf voice "notes", (m.memory (p.locate (labelOf voice "step"))).toNat)] ∧
      n.x = m.memory (p.locate (labelOf voice "step")) ∧ n.a = e.noteByte ∧
      n.flags.zero = decide (e.note? = none) := by
  have hnote := ((hc.resident_voice hr ht Chip.waveControl (by decide)
    track.registers.wave).entry ht he).1
  have hzero : e.noteByte - Entry.restByte = 0 ↔ e.note? = none := by
    rw [← e.noteByte_eq_restByte]
    grind
  simp [Leads, lookUp, hnote, hzero]

theorem leads_sound (hc : Carries p start body t) (ht : t.tracks.get? voice = some track)
    (hr : Resident p t m.memory) (hdecimal : m.flags.decimal = false)
    (he : track.entries[m.x.toNat]? = some e) (pitch : Pitch)
    (hpitch : e.note? = some pitch.pitchClass) (hoctave : e.octave = pitch.octave)
    (ha : m.a = e.noteByte) :
    ∃ n, Leads p.locate (sound voice track) m n
        [⟨Chip.voiceAddress voice Chip.frequencyLow,
            (pitchWord pitch.pitchClass pitch.octave.number).toUInt8⟩,
          ⟨Chip.voiceAddress voice Chip.frequencyHigh,
            (pitchWord pitch.pitchClass pitch.octave.number >>> 8).toUInt8⟩,
          ⟨Chip.voiceAddress voice Chip.waveControl, track.registers.waveOpened⟩]
        (pitchReads voice m.x.toNat (some pitch)) ∧
      n.x = m.x := by
  have hoctave' := (hr.entry ht he).2.1
  rw [Entry.octaveByte, hoctave] at hoctave'
  have hoffset := hr.octaveStart pitch.octave
  have hlow := (hr.word pitch).1
  have hhigh := ((hc.resident_voice hr ht Chip.frequencyLow (by decide)
    (pitchWord pitch.pitchClass pitch.octave.number).toUInt8).word pitch).2
  have htotal (regs : Registers) (hnote : regs.a = e.noteByte) (hcarry : regs.flags.carry = false) :
      regs.total (m.memory
        (p.locate "octave_offset" + (UInt8.ofNat pitch.octave.number).toUInt16)) =
        pitch.tableIndex := by
    simp only [Registers.total, hnote, hcarry, hoffset, Entry.toNat_noteByte hpitch,
      Pitch.tableIndex, Bool.toNat_false]
    omega
  have hoctave_mod : pitch.octave.number % 256 = pitch.octave.number := by
    have := pitch.octave.le_five
    omega
  -- Octave start and note index add up below 256, so the addition does not carry.
  have hindex_mod : pitch.tableIndex % 256 = pitch.tableIndex := by
    have := pitch.tableIndex_lt
    omega
  have hindex_le : pitch.tableIndex ≤ 255 := by
    have := pitch.tableIndex_lt
    omega
  simp [Leads, sound, pitchReads, hdecimal, hoctave', hlow, hhigh, ha, htotal, hoctave_mod,
    hindex_mod, hindex_le, Registers.add]

theorem leads_reload (ht : t.tracks.get? voice = some track) (hr : Resident p t m.memory)
    (he : track.entries[m.x.toNat]? = some e)
    (hshort : track.length ≤ maxEntries) :
    ∃ n, Leads p.locate (reload voice track) m n
        [⟨p.locate (labelOf voice "timer"), e.ticks⟩] [(labelOf voice "ticks", m.x.toNat)] ∧
      n.x = m.x + 1 ∧ n.flags.zero = decide (m.x.toNat + 1 = track.length) := by
  have hticks := (hr.entry ht he).2.2
  have hinside := (List.getElem?_eq_some_iff.1 he).1
  have hlast : m.x + 1 - UInt8.ofNat track.length = 0 ↔ m.x.toNat + 1 = track.length := by
    rw [← UInt8.toNat_inj, UInt8.toNat_sub, UInt8.toNat_add, UInt8.toNat_ofNat']
    simp only [UInt8.reduceToNat, Track.length, maxEntries] at hshort hinside ⊢
    omega
  simp [Leads, reload, hticks, hlast]

end Parts

/-! ### The whole routine -/

namespace Carries

variable {p body rest : Program} {start : UInt16} {t : Tune} {m : Machine} {voice : Nat}
  {track : Track} {e : Entry}

/-- The first part of the routine starts the step. -/
theorem starting (hc : Carries p start body t) (ht : t.tracks.get? voice = some track)
    (hs : lookUp voice track ++ afterLookUp voice track rest <:+ body) (hr : Resident p t m.memory)
    (hdecimal : m.flags.decimal = false) (hpc : m.pc = p.locate (labelOf voice "advance"))
    {step : Nat} (hstep : (m.memory (p.locate (labelOf voice "step"))).toNat = step)
    (he : track.entries[step]? = some e) :
    ∃ n, Passes p 0 m n (p.locate (labelOf voice "timing")) (startStep t voice track step)
        ((labelOf voice "notes", step) :: pitchReads voice step (track.pitchAt? step)) ∧
      n.x.toNat = step := by
  subst hstep
  have hv := lt_three_of_get? ht
  obtain ⟨n, hleads, hx, ha, hzero⟩ := leads_lookUp hc ht hr he
  obtain ⟨n', hpasses, ha', hx'⟩ := hc.passes_branch _ rfl (.inl rfl) hs
    (hpc.trans (hc.spot_label hs).symm) hleads (by simp [outside_voice hv, Chip.waveControl])
  rw [hx] at hx'
  rw [ha] at ha'
  cases hnote : e.note? with
  | none =>
    have hsilent : track.pitchAt? (m.memory (p.locate (labelOf voice "step"))).toNat = none := by
      simp [Track.pitchAt?, he, hnote]
    have hjumps : taken n.flags .beq = true := by simp [taken, hzero, hnote]
    rw [hjumps, if_pos rfl] at hpasses
    rw [startStep_eq, Tune.wordAt?_eq ht, hsilent]
    exact ⟨n', hpasses, congrArg UInt8.toNat hx'⟩
  | some pitchClass =>
    have hpitch : track.pitchAt? (m.memory (p.locate (labelOf voice "step"))).toNat =
        some ⟨pitchClass, e.octave⟩ := by
      simp [Track.pitchAt?, he, hnote]
    have hgoes : taken n.flags .beq = false := by simp [taken, hzero, hnote]
    rw [hgoes, if_neg (by decide)] at hpasses
    have hkept := hc.resident_passes hpasses
      (by simp [Confined, isChip_voiceAddress hv, Chip.waveControl]) hr
    obtain ⟨n'', hleads', hx''⟩ :=
      leads_sound hc ht hkept (hpasses.stands.decimal_eq.trans hdecimal)
      (hx' ▸ he) ⟨pitchClass, e.octave⟩ hnote rfl ha'
    have hsuffix : sound voice track ++ (reload voice track ++ afterReload voice rest) <:+ body :=
      (List.suffix_cons _ _).trans ((List.suffix_append _ _).trans hs)
    have htiming : spot start body (reload voice track ++ afterReload voice rest) =
        p.locate (labelOf voice "timing") :=
      hc.spot_label ((List.suffix_append _ _).trans hsuffix)
    have hpasses' := hc.passes_straight _ rfl hsuffix hpasses.stands.pc_eq hleads'
      (by simp [outside_voice hv, Chip.waveControl, Chip.frequencyLow, Chip.frequencyHigh])
    rw [htiming, hx'] at hpasses'
    rw [startStep_eq, Tune.wordAt?_eq ht, hpitch]
    exact ⟨n'', hpasses.trans hpasses', by rw [hx'', hx']⟩

/-- The middle part of the routine reloads the countdown and finds the next step. -/
theorem reloading (hc : Carries p start body t) (ht : t.tracks.get? voice = some track)
    (hp : track.Playable) (hs : reload voice track ++ afterReload voice rest <:+ body)
    (hr : Resident p t m.memory) (hpc : m.pc = p.locate (labelOf voice "timing"))
    (he : track.entries[m.x.toNat]? = some e) :
    ∃ n, Passes p 0 m n (p.locate (labelOf voice "store"))
        [⟨p.locate (labelOf voice "timer"), e.ticks⟩] [(labelOf voice "ticks", m.x.toNat)] ∧
      n.x = UInt8.ofNat ((m.x.toNat + 1) % track.length) := by
  have hinside : m.x.toNat < track.length := (List.getElem?_eq_some_iff.1 he).1
  have hlength_le := hp.length_le
  simp only [maxEntries] at hlength_le
  obtain ⟨n, hleads, hx, hzero⟩ := leads_reload ht hr he hp.length_le
  obtain ⟨n', hpasses, -, hx'⟩ := hc.passes_branch _ rfl (.inr (.inl rfl)) hs
    (hpc.trans (hc.spot_label hs).symm) hleads
    (by simp [hc.state_inStack (timer_mem_stateNames ht)])
  have hwrap : [Item.code ldx (.immediate 0)] ++ (store voice ++ .code rts .implied :: rest) <:+
      body := (List.suffix_cons _ _).trans ((List.suffix_append _ _).trans hs)
  have hstored : spot start body (store voice ++ .code rts .implied :: rest) =
      p.locate (labelOf voice "store") :=
    hc.spot_label ((List.suffix_append [Item.code ldx (.immediate 0)] _).trans hwrap)
  -- Past the last entry the index is set back to the first.
  by_cases hlast : m.x.toNat + 1 = track.length
  · have hgoes : taken n.flags .bne = false := by simp [taken, hzero, hlast]
    rw [hgoes, if_neg (by decide)] at hpasses
    have hleads' : Leads p.locate [Item.code ldx (.immediate 0)] n' _ [] [] :=
      ⟨_, rfl, rfl, rfl, by simp [Moment.NoCarry]⟩
    have hpasses' := hc.passes_straight _ rfl hwrap hpasses.stands.pc_eq hleads' (by simp)
    rw [hstored] at hpasses'
    refine ⟨_, hpasses.trans hpasses', ?_⟩
    rw [hlast, Nat.mod_self]
    rfl
  · have hjumps : taken n.flags .bne = true := by simp [taken, hzero, hlast]
    rw [hjumps, if_pos rfl] at hpasses
    refine ⟨n', hpasses, ?_⟩
    rw [hx', hx, Nat.mod_eq_of_lt (by omega), UInt8.ofNat_add, UInt8.ofNat_toNat]
    rfl

/-- The routine of a voice starts its next step, goes on to the one after it, and returns. -/
theorem advance (hc : Carries p start body t) (ht : t.tracks.get? voice = some track)
    (hp : track.Playable) (hr : Resident p t m.memory) (hdecimal : m.flags.decimal = false)
    (hpc : m.pc = p.locate (labelOf voice "advance")) (step : Nat)
    (hstep : (m.memory (p.locate (labelOf voice "step"))).toNat = step)
    (hinside : step < track.length) :
    ∃ n, Returns p 0 m n (advanceWrites p t voice track step) (advanceReads voice track step) := by
  have hv := lt_three_of_get? ht
  obtain ⟨rest, hs⟩ := hc.advance_suffix ht
  have hsuffix : reload voice track ++ afterReload voice rest <:+ body :=
    (List.suffix_append (sound voice track) _).trans
      ((List.suffix_cons _ _).trans ((List.suffix_append _ _).trans hs))
  have he : track.entries[step]? = some track.entries[step] := List.getElem?_eq_getElem hinside
  obtain ⟨n, hpasses, hx⟩ := hc.starting ht hs hr hdecimal hpc hstep he
  have hkept := hc.resident_passes hpasses (confined_startStep hv _ _ _) hr
  obtain ⟨n', hpasses', hx'⟩ := hc.reloading ht hp hsuffix hkept hpasses.stands.pc_eq
    (e := track.entries[step]) (by rw [hx]; exact he)
  have hsuffix' : store voice ++ .code rts .implied :: rest <:+ body :=
    (List.suffix_append [Item.code ldx (.immediate 0)] _).trans
      ((List.suffix_cons _ _).trans ((List.suffix_append _ _).trans hsuffix))
  have hleads : Leads p.locate (store voice) n' _
      [⟨p.locate (labelOf voice "step"), n'.x⟩] [] :=
    ⟨_, rfl, rfl, rfl, by simp [Moment.NoCarry]⟩
  obtain ⟨n'', hreturns, -⟩ := hc.returns_straight _ rfl hsuffix'
    (hpasses'.stands.pc_eq.trans (hc.spot_label hsuffix').symm) hleads
    (by simp [hc.state_inStack (step_mem_stateNames ht)])
  refine ⟨n'', ?_⟩
  have hwhole := (hpasses.trans hpasses').returns hreturns (by decide)
  have hticks : track.entries[step].ticks = UInt8.ofNat (track.ticksAt step) := by
    simp [Track.ticksAt, he]
  rw [hx', hx, hticks] at hwhole
  simpa [advanceWrites, headWrites, Head.started, advanceReads] using hwhole

end Carries

end Player

end SidTune
