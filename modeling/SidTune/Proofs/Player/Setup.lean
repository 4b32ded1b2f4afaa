import SidTune.Proofs.Player.Advance

/-!
# The routine that sets up

The routine clears the chip in a loop, sets the filter, and for every voice sets the envelope and
the pulse width, stores the first step and calls the routine that starts it. What it writes to the
chip is what the sequencer writes when it begins, whatever was in the state before.

## Main definitions

* `SidTune.Player.setupWrites`, `SidTune.Player.setupReads`: what setting up writes and reads.

## Main results

* `SidTune.Player.Carries.setup`: the routine does so and returns.
* `SidTune.Player.Carries.chipWrites_setupWrites`, `SidTune.Player.Carries.stateOf_setupWrites`:
  setting up in memory is beginning in the sequencer.
-/

namespace SidTune.Player

open Assembly Assembly.Mnemonic Processor

/-! ### What setting up writes and reads -/

/-- What is written to the envelope and the pulse width of a voice, and where its first step is
kept. -/
def primeWrites (p : Program) (voice : Nat) (track : Track) : List Write :=
  [⟨Chip.voiceAddress voice Chip.attackDecay, track.registers.attackDecay⟩,
    ⟨Chip.voiceAddress voice Chip.sustainRelease, track.registers.sustainRelease⟩]
    ++ pulseWrites voice track.registers.pulse?
    ++ [⟨p.locate (labelOf voice "step"), UInt8.ofNat track.start⟩]

/-- What is written to set up a voice and to start its first step. -/
def setupVoiceWrites (p : Program) (t : Tune) (voice : Nat) (track : Track) : List Write :=
  primeWrites p voice track ++ advanceWrites p t voice track track.start

/-- What setting up writes. -/
def setupWrites (p : Program) (t : Tune) : List Write :=
  clearing ++ (⟨p.locate "volume", 0⟩ :: filterWrites t.filter)
    ++ setupVoiceWrites p t 0 t.tracks.first ++ setupVoiceWrites p t 1 t.tracks.second
    ++ setupVoiceWrites p t 2 t.tracks.third

/-- Where setting up reads the tables. -/
def setupReads (t : Tune) : List (String × Nat) :=
  advanceReads 0 t.tracks.first t.tracks.first.start
    ++ advanceReads 1 t.tracks.second t.tracks.second.start
    ++ advanceReads 2 t.tracks.third t.tracks.third.start

/-! ### Parts of the routine -/

/-- Prepares the clearing. -/
def beforeClear : Program :=
  [.label setupLabel,
    .code lda (.immediate 0),
    .code ldx (.immediate (Chip.clearedCount - 1))]

/-- Clears one register. -/
def clearOne : Program :=
  [.label "init_clear",
    .code sta (.addressX Chip.base),
    .code dex .implied]

/-- Resets the volume and sets the filter. -/
def setFilter (t : Tune) : Program :=
  .code sta (.label "volume") ::
    (put t.filter.cutoffLow Chip.cutoffLow ++ put t.filter.cutoffHigh Chip.cutoffHigh
      ++ put t.filter.resonanceByte Chip.resonanceRouting ++ put t.filter.modeByte Chip.modeVolume)

/-- Sets the envelope and the pulse width of a voice, and stores its first step. -/
def prime (voice : Nat) (track : Track) : Program :=
  put track.registers.attackDecay (Chip.voiceAddress voice Chip.attackDecay)
    ++ put track.registers.sustainRelease (Chip.voiceAddress voice Chip.sustainRelease)
    ++ putPulse voice track.registers.pulse?
    ++ [.code lda (.immediate (UInt8.ofNat track.start)),
      .code sta (.label (labelOf voice "step"))]

/-- What follows the loop. -/
def afterClear (t : Tune) (rest : Program) : Program :=
  setFilter t ++ (setupVoice 0 t.tracks.first ++ (setupVoice 1 t.tracks.second ++
    (setupVoice 2 t.tracks.third ++ .code rts .implied :: rest)))

private theorem setupVoice_append (voice : Nat) (track : Track) (rest : Program) :
    setupVoice voice track ++ rest =
      prime voice track ++ .code jsr (.label (labelOf voice "advance")) :: rest := by
  simp [setupVoice, prime]

private theorem setup_append (t : Tune) (rest : Program) : setup t ++ rest =
    .comment "reset SID, set filter and envelopes, prime voices" :: (beforeClear ++ (clearOne ++
      .code bpl (.label "init_clear") :: afterClear t (.blank :: rest))) := by
  simp [setup, beforeClear, clearOne, afterClear, setFilter, Trio.toList, List.mapIdx_cons]

section Parts

attribute [local simp] straight goesOn execute formOf formsOf effect cellOf byteOf Registers.setA
  Registers.setX Flags.seeing Moment.read? Moment.NoCarry

variable {p body rest : Program} {start : UInt16} {t : Tune} {m : Machine} {voice : Nat}
  {track : Track}

theorem Carries.setup_suffix (hc : Carries p start body t) :
    ∃ rest, beforeClear ++ (clearOne ++ .code bpl (.label "init_clear") :: afterClear t rest) <:+
      body := by
  have hsuffix := hc.shared_suffix
  rw [shared_eq, setup_append] at hsuffix
  exact ⟨_, (List.suffix_cons _ _).trans hsuffix⟩

private theorem leads_clearOne (p : Program) (m : Machine) :
    ∃ n, Leads p.locate clearOne m n [⟨Chip.base + m.x.toUInt16, m.a⟩] [] ∧ n.a = m.a ∧
      n.x = m.x - 1 ∧ n.flags.negative = decide (0x80 ≤ m.x - 1) := by
  simp [Leads, clearOne, inZeroPage, Chip.base]

/-- One pass of the loop clears one register, and the loop goes on until the first. -/
theorem Carries.clearing_step (hc : Carries p start body t)
    (hs : clearOne ++ .code bpl (.label "init_clear") :: afterClear t rest <:+ body) {i : Nat}
    (hle : i ≤ 24) (hpc : m.pc = p.locate "init_clear") (ha : m.a = 0) (hx : m.x = UInt8.ofNat i) :
    ∃ n, Passes p 0 m n
        (if i = 0 then spot start body (afterClear t rest) else p.locate "init_clear")
        [⟨Chip.base + UInt16.ofNat i, 0⟩] [] ∧
      n.a = 0 ∧ n.x = UInt8.ofNat i - 1 := by
  have hindex : (UInt8.ofNat i).toUInt16 = UInt16.ofNat i := by
    apply UInt16.toNat_inj.1
    rw [UInt8.toNat_toUInt16, UInt8.toNat_ofNat', UInt16.toNat_ofNat']
    omega
  have houtside : inStack (Chip.base + UInt16.ofNat i) = false := by
    apply inStack_eq_false
    rw [UInt16.toNat_add, UInt16.toNat_ofNat']
    simp only [Chip.base, UInt16.reduceToNat]
    omega
  have hlast : 0x80 ≤ UInt8.ofNat i - 1 ↔ i = 0 := by
    rw [UInt8.le_iff_toNat_le, UInt8.toNat_sub, UInt8.toNat_ofNat']
    simp only [UInt8.reduceToNat]
    omega
  obtain ⟨n, hleads, ha', hx', hnegative⟩ := leads_clearOne p m
  rw [hx, ha, hindex] at hleads
  obtain ⟨n', hpasses, ha'', hx''⟩ := hc.passes_branch _ rfl (.inr (.inr rfl)) hs
    (hpc.trans (hc.spot_label hs).symm) hleads (by simp [houtside])
  have htarget : (if taken n.flags .bpl then p.locate "init_clear"
      else spot start body (afterClear t rest)) =
      if i = 0 then spot start body (afterClear t rest) else p.locate "init_clear" := by
    simp only [taken, hnegative, hx, hlast]
    by_cases h : i = 0 <;> simp [h]
  rw [htarget] at hpasses
  exact ⟨n', hpasses, ha''.trans (ha'.trans ha), hx''.trans (hx'.trans (hx ▸ rfl))⟩

/-- The loop clears the registers from one down to the first. -/
theorem Carries.clearing_loop (hc : Carries p start body t)
    (hs : clearOne ++ .code bpl (.label "init_clear") :: afterClear t rest <:+ body) {i : Nat}
    (hle : i ≤ 24) (hpc : m.pc = p.locate "init_clear") (ha : m.a = 0) (hx : m.x = UInt8.ofNat i) :
    ∃ n, Passes p 0 m n (spot start body (afterClear t rest))
        ((List.range (i + 1)).reverse.map fun j => ⟨Chip.base + UInt16.ofNat j, 0⟩) [] ∧
      n.a = 0 := by
  induction i generalizing m with
  | zero =>
    obtain ⟨n, hpasses, ha', -⟩ := hc.clearing_step hs hle hpc ha hx
    exact ⟨n, hpasses, ha'⟩
  | succ i ih =>
    obtain ⟨n, hpasses, ha', hx'⟩ := hc.clearing_step hs hle hpc ha hx
    rw [if_neg (Nat.succ_ne_zero i)] at hpasses
    have hbefore : UInt8.ofNat (i + 1) - 1 = UInt8.ofNat i := by
      rw [UInt8.ofNat_add]
      grind
    obtain ⟨n', hrest, ha''⟩ := ih (by omega) hpasses.stands.pc_eq ha' (hx'.trans hbefore)
    refine ⟨n', ?_, ha''⟩
    rw [List.range_succ, List.reverse_append, List.map_append]
    exact hpasses.trans hrest

private theorem leads_setFilter (ha : m.a = 0) : ∃ n, Leads p.locate (setFilter t) m n
    (⟨p.locate "volume", 0⟩ :: filterWrites t.filter) [] := by
  simp [Leads, setFilter, put, filterWrites_eq, ha]

private theorem leads_prime (p : Program) (m : Machine) (voice : Nat) (track : Track) :
    ∃ n, Leads p.locate (prime voice track) m n (primeWrites p voice track) [] := by
  cases hpulse : track.registers.pulse? <;>
    simp [Leads, prime, put, putPulse, primeWrites, hpulse]

private theorem quiet_prime (voice : Nat) (track : Track) : quiet (prime voice track) := by
  unfold prime
  cases track.registers.pulse? <;> rfl

theorem confined_primeWrites (hv : voice < 3) (p : Program) (track : Track) :
    ∀ w ∈ primeWrites p voice track, Confined p (headNames voice) w := by
  have hchip {offset : UInt16} (hoff : offset.toNat ≤ 6) (value : UInt8) :
      Confined p (headNames voice) ⟨Chip.voiceAddress voice offset, value⟩ :=
    .inl (isChip_voiceAddress hv hoff)
  have hstep : Confined p (headNames voice)
      ⟨p.locate (labelOf voice "step"), UInt8.ofNat track.start⟩ :=
    .inr ⟨_, step_mem_headNames voice, rfl⟩
  cases hpulse : track.registers.pulse? <;>
    simp [primeWrites, hpulse, hstep, hchip, Chip.attackDecay, Chip.sustainRelease,
      Chip.pulseLow, Chip.pulseHigh]

private theorem Carries.outside_primeWrites (hc : Carries p start body t)
    (ht : t.tracks.get? voice = some track) :
    ∀ w ∈ primeWrites p voice track, inStack w.address = false := by
  have hchip {offset : UInt16} (hoff : offset.toNat ≤ 6) :
      inStack (Chip.voiceAddress voice offset) = false := outside_voice (lt_three_of_get? ht) hoff
  have hstep := hc.state_inStack (step_mem_stateNames ht)
  cases hpulse : track.registers.pulse? <;>
    simp [primeWrites, hpulse, hstep, hchip, Chip.attackDecay, Chip.sustainRelease,
      Chip.pulseLow, Chip.pulseHigh]

/-- A voice is set up and its first step is started. -/
theorem Carries.priming (hc : Carries p start body t) (ht : t.tracks.get? voice = some track)
    (hp : track.Playable) (hs : setupVoice voice track ++ rest <:+ body)
    (hr : Resident p t m.memory) (hdecimal : m.flags.decimal = false)
    (hpc : m.pc = spot start body (setupVoice voice track ++ rest)) :
    ∃ n, Passes p 2 m n (spot start body rest) (setupVoiceWrites p t voice track)
      (advanceReads voice track track.start) := by
  have hstep_mem := step_mem_stateNames ht
  rw [setupVoice_append] at hs hpc
  obtain ⟨n, hleads⟩ := leads_prime p m voice track
  have hpasses := hc.passes_straight _ (quiet_prime voice track) hs hpc hleads
    (hc.outside_primeWrites ht)
  have hkept := hc.resident_passes hpasses (fun w hw =>
    (confined_primeWrites (lt_three_of_get? ht) p track w hw).mono (mem_stateNames ht)) hr
  -- The first step is put into one byte, which holds it because tracks are short.
  have hstep : (n.memory (p.locate (labelOf voice "step"))).toNat = track.start := by
    rw [hpasses.memory_outside (hc.state_inStack hstep_mem), primeWrites, Memory.after_append,
      Memory.after_cons, Memory.after_nil, Memory.write_same _ ⟨p.locate _, _⟩]
    have := hp.start_lt
    have := hp.length_le
    simp only [maxEntries, UInt8.toNat_ofNat'] at this ⊢
    omega
  obtain ⟨n', hcalled⟩ := hc.passes_call (m := n) ((List.suffix_append _ _).trans hs)
    hpasses.stands.pc_eq fun m' hpc' hflags hsame =>
      hc.advance ht hp (hc.resident_congr hsame hkept)
        ((congrArg Flags.decimal hflags).trans (hpasses.stands.decimal_eq.trans hdecimal)) hpc'
        track.start (by rw [hsame _ (hc.state_inStack hstep_mem), hstep]) hp.start_lt
  exact ⟨n', (hpasses.mono (by decide)).trans hcalled⟩

end Parts

/-! ### Setting up -/

variable {p body : Program} {start : UInt16} {t : Tune} {m : Machine}

theorem confined_setupVoiceWrites {voice : Nat} (hv : voice < 3) (p : Program) (t : Tune)
    (track : Track) : ∀ w ∈ setupVoiceWrites p t voice track, Confined p (headNames voice) w := by
  intro w hw
  rcases List.mem_append.1 hw with hw | hw
  · exact confined_primeWrites hv p track w hw
  · exact confined_advanceWrites hv p t track _ w hw

theorem isChip_clearing : ∀ w ∈ clearing, isChip w.address := by
  decide

theorem isChip_filterWrites (s : Chip.FilterSetting) : ∀ w ∈ filterWrites s, isChip w.address := by
  simp only [filterWrites, List.forall_mem_cons]
  decide

private theorem isChip_voiceWrites {voice : Nat} (hv : voice < 3) (t : Tune) (track : Track) :
    ∀ w ∈ voiceWrites t voice track, isChip w.address := by
  have hchip {offset : UInt16} (hoff : offset.toNat ≤ 6) :
      isChip (Chip.voiceAddress voice offset) = true := isChip_voiceAddress hv hoff
  rw [voiceWrites_eq, List.forall_mem_append]
  refine ⟨?_, List.filter_eq_self.1 (chipWrites_startStep hv t track track.start)⟩
  cases track.registers.pulse? <;>
    simp [hchip, Chip.attackDecay, Chip.sustainRelease, Chip.pulseLow, Chip.pulseHigh]

/-- Of what the setting up of a voice writes, the chip sees what the sequencer writes. -/
theorem Carries.chipWrites_setupVoiceWrites (hc : Carries p start body t) {voice : Nat}
    {track : Track} (ht : t.tracks.get? voice = some track) :
    chipWrites (setupVoiceWrites p t voice track) = voiceWrites t voice track := by
  have hstep := hc.state_isChip (step_mem_stateNames ht)
  have hchip := isChip_voiceWrites (lt_three_of_get? ht) t track
  simp only [voiceWrites_eq, List.forall_mem_append] at hchip
  simp only [setupVoiceWrites, primeWrites, chipWrites_append, hc.chipWrites_advanceWrites ht,
    chipWrites_eq_self hchip.1.1, chipWrites_eq_self hchip.1.2,
    chipWrites_eq_nil (show ∀ w ∈ [(⟨p.locate (labelOf voice "step"), _⟩ : Write)],
      isChip w.address = false by simp [hstep]), List.append_nil]
  rfl

/-- Of what setting up writes, the chip sees what the sequencer writes. -/
theorem Carries.chipWrites_setupWrites (hc : Carries p start body t) :
    chipWrites (setupWrites p t) = (begin t).1 := by
  have hvolume := hc.state_isChip (show "volume" ∈ stateNames by decide)
  have hfilter : chipWrites (⟨p.locate "volume", 0⟩ :: filterWrites t.filter) =
      filterWrites t.filter := by
    rw [chipWrites, List.filter_cons_of_neg (by simp [hvolume])]
    exact chipWrites_eq_self (isChip_filterWrites t.filter)
  simp only [setupWrites, chipWrites_append, chipWrites_eq_self isChip_clearing, hfilter,
    hc.chipWrites_setupVoiceWrites t.tracks.get?_first,
    hc.chipWrites_setupVoiceWrites t.tracks.get?_second,
    hc.chipWrites_setupVoiceWrites t.tracks.get?_third]
  rfl

theorem confined_setFilter (p : Program) (s : Chip.FilterSetting) :
    ∀ w ∈ ⟨p.locate "volume", 0⟩ :: filterWrites s, Confined p ["volume"] w := by
  intro w hw
  rcases List.mem_cons.1 hw with rfl | hw
  · exact .inr ⟨"volume", by decide, rfl⟩
  · exact .inl (isChip_filterWrites s w hw)

theorem confined_setupWrites (p : Program) (t : Tune) :
    ∀ w ∈ setupWrites p t, Confined p stateNames w := by
  intro w hw
  simp only [setupWrites, List.mem_append, or_assoc] at hw
  have heads {voice : Nat} (hv : voice < 3) : ∀ name ∈ headNames voice, name ∈ stateNames :=
    fun name hname => (headNames_ne_volume hv name hname).1
  rcases hw with hw | hw | hw | hw | hw
  · exact .inl (isChip_clearing w hw)
  · exact (confined_setFilter p t.filter w hw).mono (by decide)
  · exact (confined_setupVoiceWrites (by decide) p t _ w hw).mono (heads (by decide))
  · exact (confined_setupVoiceWrites (by decide) p t _ w hw).mono (heads (by decide))
  · exact (confined_setupVoiceWrites (by decide) p t _ w hw).mono (heads (by decide))

private theorem Carries.headOf_setupVoiceWrites_of_ne (hc : Carries p start body t)
    {voice other : Nat}
    (hv : voice < 3) (ho : other < 3) (hne : other ≠ voice) (memory : Memory) (track : Track) :
    headOf p (memory.after (setupVoiceWrites p t other track)) voice = headOf p memory voice :=
  hc.headOf_after (confined_setupVoiceWrites ho p t track)
    (fun name hname => (headNames_disjoint ho hv hne.symm name hname).1)
    (headNames_disjoint hv ho hne)

private theorem Carries.volume_setupVoiceWrites (hc : Carries p start body t) {voice : Nat}
    (hv : voice < 3) (memory : Memory) (track : Track) :
    memory.after (setupVoiceWrites p t voice track) (p.locate "volume") =
      memory (p.locate "volume") :=
  hc.state_after (confined_setupVoiceWrites hv p t track)
    (fun name hname => (headNames_ne_volume hv name hname).1) (by decide)
    fun hname => (headNames_ne_volume hv _ hname).2 (by decide)

/-- Setting up in memory is beginning in the sequencer. -/
theorem Carries.stateOf_setupWrites (hc : Carries p start body t) (ht : t.Playable)
    (memory : Memory) : stateOf p (memory.after (setupWrites p t)) = (begin t).2 := by
  have hhead {voice : Nat} {track : Track} (hget : t.tracks.get? voice = some track)
      (hp : track.Playable) (memory : Memory) :
      headOf p (memory.after (setupVoiceWrites p t voice track)) voice =
        Head.started track track.start := by
    rw [setupVoiceWrites, Memory.after_append]
    exact hc.headOf_advanceWrites hget hp hp.start_lt _
  have hvolume (memory : Memory) :
      memory.after (⟨p.locate "volume", 0⟩ :: filterWrites t.filter) (p.locate "volume") = 0 := by
    rw [Memory.after_cons, Memory.after_of_unwritten _ fun w hw heq => ?_,
      Memory.write_same _ ⟨p.locate "volume", 0⟩]
    have := hc.state_isChip (show "volume" ∈ stateNames by decide)
    rw [heq, isChip_filterWrites t.filter w hw] at this
    cases this
  simp only [setupWrites, Memory.after_append, stateOf,
    hc.volume_setupVoiceWrites (show 0 < 3 by decide),
    hc.volume_setupVoiceWrites (show 1 < 3 by decide),
    hc.volume_setupVoiceWrites (show 2 < 3 by decide), hvolume,
    hc.headOf_setupVoiceWrites_of_ne (show 0 < 3 by decide) (show 2 < 3 by decide) (by decide),
    hc.headOf_setupVoiceWrites_of_ne (show 0 < 3 by decide) (show 1 < 3 by decide) (by decide),
    hc.headOf_setupVoiceWrites_of_ne (show 1 < 3 by decide) (show 2 < 3 by decide) (by decide),
    hhead t.tracks.get?_first ht.first, hhead t.tracks.get?_second ht.second,
    hhead t.tracks.get?_third ht.third]
  rfl

/-- The routine that sets up begins the song and returns. -/
theorem Carries.setup (hc : Carries p start body t) (ht : t.Playable) (hr : Resident p t m.memory)
    (hdecimal : m.flags.decimal = false) (hpc : m.pc = p.locate setupLabel) :
    ∃ n, Returns p 2 m n (setupWrites p t) (setupReads t) := by
  obtain ⟨rest, hs⟩ := hc.setup_suffix
  have hloop := (List.suffix_append beforeClear _).trans hs
  have hfilter : setFilter t ++ (setupVoice 0 t.tracks.first ++ (setupVoice 1 t.tracks.second ++
      (setupVoice 2 t.tracks.third ++ .code rts .implied :: rest))) <:+ body :=
    (List.suffix_cons _ _).trans ((List.suffix_append clearOne _).trans hloop)
  have hsuffix₀ := (List.suffix_append (setFilter t) _).trans hfilter
  have hsuffix₁ := (List.suffix_append (setupVoice 0 t.tracks.first) _).trans hsuffix₀
  have hsuffix₂ := (List.suffix_append (setupVoice 1 t.tracks.second) _).trans hsuffix₁
  have hsuffix₃ := (List.suffix_append (setupVoice 2 t.tracks.third) _).trans hsuffix₂
  have hprepare : ∃ n, Leads p.locate beforeClear m n [] [] ∧ n.a = 0 ∧ n.x = UInt8.ofNat 24 :=
    ⟨_, ⟨_, rfl, rfl, rfl, by simp [Moment.NoCarry]⟩, rfl, rfl⟩
  obtain ⟨n, hleads, ha, hx⟩ := hprepare
  have hready := hc.passes_straight _ rfl hs (hpc.trans (hc.spot_label hs).symm) hleads (by simp)
  -- `x` counts the registers down from the last, and `a` stays zero for what follows the loop.
  obtain ⟨n₀, hcleared, ha₀⟩ := hc.clearing_loop hloop (by decide)
    (hready.stands.pc_eq.trans (hc.spot_label hloop)) ha hx
  rw [afterClear] at hcleared
  obtain ⟨k, hleads₀⟩ := leads_setFilter (t := t) (p := p) ha₀
  have hfiltered := hc.passes_straight _ rfl hfilter hcleared.stands.pc_eq hleads₀ (by
    simp only [List.forall_mem_cons]
    exact ⟨hc.state_inStack (by decide), fun w hw =>
      inStack_of_isChip (isChip_filterWrites t.filter w hw)⟩)
  have hbefore₀ := ((hready.trans hcleared).trans hfiltered).mono (show 0 ≤ 2 by decide)
  have hr₀ : Resident p t k.memory := hc.resident_passes hbefore₀ (by
    simp only [List.nil_append, List.forall_mem_append]
    exact ⟨fun w hw => .inl (isChip_clearing w hw),
      fun w hw => (confined_setFilter p t.filter w hw).mono (by decide)⟩) hr
  have hresides {voice : Nat} (hv : voice < 3) {k n : Machine} {pc : UInt16} {track : Track}
      {reads : List (String × Nat)}
      (hpasses : Passes p 2 k n pc (setupVoiceWrites p t voice track) reads) :
      Resident p t k.memory → Resident p t n.memory :=
    hc.resident_passes hpasses fun w hw => (confined_setupVoiceWrites hv p t track w hw).mono
      fun name hname => (headNames_ne_volume hv name hname).1
  obtain ⟨n₁, hfirst⟩ := hc.priming t.tracks.get?_first ht.first hsuffix₀ hr₀
    (hbefore₀.stands.decimal_eq.trans hdecimal) hbefore₀.stands.pc_eq
  have hbefore₁ := hbefore₀.trans hfirst
  obtain ⟨n₂, hsecond⟩ := hc.priming t.tracks.get?_second ht.second hsuffix₁
    (hresides (by decide) hfirst hr₀) (hbefore₁.stands.decimal_eq.trans hdecimal)
    hfirst.stands.pc_eq
  have hbefore₂ := hbefore₁.trans hsecond
  obtain ⟨n₃, hthird⟩ := hc.priming t.tracks.get?_third ht.third hsuffix₂
    (hresides (by decide) hsecond (hresides (by decide) hfirst hr₀))
    (hbefore₂.stands.decimal_eq.trans hdecimal) hsecond.stands.pc_eq
  have hleads₃ : Leads p.locate [] n₃ n₃ [] [] := ⟨[], rfl, rfl, rfl, by simp⟩
  obtain ⟨n, hback, -⟩ := hc.returns_straight [] rfl hsuffix₃ hthird.stands.pc_eq hleads₃ (by simp)
  have hwhole := (hbefore₂.trans hthird).returns (hback.mono (by decide)) (by decide)
  have htwentyFive : (List.range (24 + 1)).reverse.map
      (fun j => (⟨Chip.base + UInt16.ofNat j, 0⟩ : Write)) = clearing := clearing_eq.symm
  rw [htwentyFive] at hwhole
  exact ⟨n, by simpa only [setupWrites, setupReads, List.append_nil, List.nil_append] using hwhole⟩

end SidTune.Player
