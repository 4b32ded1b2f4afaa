import SidTune.Proofs.Player.Advance

/-!
# The routine of a frame

The routine that is called for each frame writes the volume, counts every voice down, and calls the
routines of the voices whose step is over. What it writes to the chip is what the sequencer writes
in a frame, and the state that it leaves in memory is that of the sequencer after the frame.

## Main definitions

* `SidTune.Player.countWrites`, `SidTune.Player.countReads`: what counting a voice down writes and
  reads.
* `SidTune.Player.frameWrites`, `SidTune.Player.frameReads`: what a frame writes and reads.

## Main results

* `SidTune.Player.Carries.frame`: the routine does so and returns.
* `SidTune.Player.chipWrites_frameWrites`, `SidTune.Player.Carries.stateOf_frameWrites`: a frame in
  memory is a frame of the sequencer.
-/

namespace SidTune.Player

open Assembly Assembly.Mnemonic Processor

/-! ### What a frame writes and reads -/

/-- What is written to count a voice down. -/
def countWrites (p : Program) (t : Tune) (voice : Nat) (track : Track) (h : Head) : List Write :=
  ⟨p.locate (labelOf voice "timer"), UInt8.ofNat (h.timer - 1)⟩ ::
    if h.timer - 1 = 0 then advanceWrites p t voice track h.step else []

/-- Where the tables are read to count a voice down. -/
def countReads (voice : Nat) (track : Track) (h : Head) : List (String × Nat) :=
  if h.timer - 1 = 0 then advanceReads voice track h.step else []

/-- What is written to fade the volume in. -/
def fadeWrites (p : Program) (volume : Nat) : List Write :=
  if volume = 15 then [] else [⟨p.locate "volume", UInt8.ofNat (volume + 1)⟩]

/-- What a frame writes. -/
def frameWrites (p : Program) (t : Tune) (q : Playing) : List Write :=
  fadeWrites p q.volume
    ++ [⟨Chip.modeVolume,
      t.filter.modeByte ||| UInt8.ofNat (min 15 (q.volume + 1))⟩]
    ++ countWrites p t 0 t.tracks.first q.heads.first
    ++ countWrites p t 1 t.tracks.second q.heads.second
    ++ countWrites p t 2 t.tracks.third q.heads.third

/-- Where a frame reads the tables. -/
def frameReads (t : Tune) (q : Playing) : List (String × Nat) :=
  countReads 0 t.tracks.first q.heads.first ++ countReads 1 t.tracks.second q.heads.second
    ++ countReads 2 t.tracks.third q.heads.third

/-! ### Counting a voice down -/

section Count

attribute [local simp] straight goesOn execute formOf formsOf effect cellOf byteOf Registers.setA
  Flags.seeing Flags.comparing Moment.read? Moment.NoCarry

variable {p body rest : Program} {start : UInt16} {t : Tune} {m : Machine} {voice : Nat}
  {track : Track} {h : Head}

theorem confined_countWrites (hv : voice < 3) (p : Program) (t : Tune) (track : Track) (h : Head) :
    ∀ w ∈ countWrites p t voice track h, Confined p (headNames voice) w := by
  intro w hw
  rcases List.mem_cons.1 hw with rfl | hw
  · exact .inr ⟨_, timer_mem_headNames voice, rfl⟩
  · split at hw
    · exact confined_advanceWrites hv p t track _ w hw
    · cases hw

/-- Counting a voice down in memory is counting it down in the sequencer. -/
theorem Carries.headOf_countWrites (hc : Carries p start body t)
    (ht : t.tracks.get? voice = some track) (hp : track.Playable) {memory : Memory}
    (hh : headOf p memory voice = h) (hvalid : h.Valid track) :
    headOf p (memory.after (countWrites p t voice track h)) voice = (h.tick t voice track).2 := by
  unfold countWrites Head.tick
  split
  · exact hc.headOf_advanceWrites ht hp hvalid.step_lt _
  · have hne := (hc.timer_ne_step ht).symm
    have htimer_le := hvalid.timer_le
    subst hh
    simp only [headOf, Memory.after_cons, Memory.after_nil, Memory.write, if_neg hne, if_true,
      UInt8.toNat_ofNat', Nat.reducePow] at htimer_le ⊢
    rw [Nat.mod_eq_of_lt (by omega)]

/-- Of what counting a voice down writes, the chip sees what the sequencer writes. -/
theorem Carries.chipWrites_countWrites (hc : Carries p start body t)
    (ht : t.tracks.get? voice = some track) (h : Head) :
    chipWrites (countWrites p t voice track h) = (h.tick t voice track).1 := by
  have htimer := hc.state_isChip (timer_mem_stateNames ht)
  unfold countWrites Head.tick
  rw [chipWrites, List.filter_cons_of_neg (by simp [htimer])]
  split
  · exact hc.chipWrites_advanceWrites ht h.step
  · rfl

theorem leads_dec (hh : headOf p m.memory voice = h) (hvalid : h.Valid track) :
    ∃ n, Leads p.locate [.code dec (.label (labelOf voice "timer"))] m n
        [⟨p.locate (labelOf voice "timer"), UInt8.ofNat (h.timer - 1)⟩] [] ∧
      n.flags.zero = decide (h.timer - 1 = 0) := by
  have hpos := hvalid.timer_pos
  have hle := hvalid.timer_le
  have htimer : m.memory (p.locate (labelOf voice "timer")) = UInt8.ofNat h.timer := by
    simp [← hh, headOf]
  have hvalue : UInt8.ofNat h.timer - 1 = UInt8.ofNat (h.timer - 1) := by
    rw [← UInt8.toNat_inj, UInt8.toNat_sub, UInt8.toNat_ofNat', UInt8.toNat_ofNat']
    simp only [UInt8.reduceToNat]
    omega
  have hzero : UInt8.ofNat (h.timer - 1) = 0 ↔ h.timer - 1 = 0 := by
    rw [← UInt8.toNat_inj, UInt8.toNat_ofNat']
    simp only [UInt8.reduceToNat]
    omega
  simp [Leads, htimer, hvalue, hzero]

/-- A voice is counted down, and advanced when its step is over. -/
theorem Carries.counting (hc : Carries p start body t) (ht : t.tracks.get? voice = some track)
    (hp : track.Playable) (hs : countDown voice ++ rest <:+ body) (hr : Resident p t m.memory)
    (hdecimal : m.flags.decimal = false) (hpc : m.pc = spot start body (countDown voice ++ rest))
    (hh : headOf p m.memory voice = h) (hvalid : h.Valid track) :
    ∃ n, Passes p 2 m n (spot start body rest) (countWrites p t voice track h)
      (countReads voice track h) := by
  have hv := lt_three_of_get? ht
  have htimer_mem := timer_mem_stateNames ht
  have hcall : .code jsr (.label (labelOf voice "advance")) :: .label (afterVoice voice) :: rest <:+
      body :=
    (List.suffix_append [Item.code dec (.label (labelOf voice "timer")),
      .code bne (.label (afterVoice voice))] _).trans hs
  have hafter : .label (afterVoice voice) :: rest <:+ body := (List.suffix_cons _ _).trans hcall
  obtain ⟨n, hleads, hzero⟩ := leads_dec hh hvalid
  obtain ⟨n', hpasses, -⟩ := hc.passes_branch [.code dec _] rfl (.inr (.inl rfl)) hs hpc
    hleads (by simp [hc.state_inStack htimer_mem])
  rw [countWrites, countReads]
  -- The branch goes past the call unless the timer has reached zero.
  by_cases hends : h.timer - 1 = 0
  · have hgoes : taken n.flags .bne = false := by simp [taken, hzero, hends]
    rw [hgoes, if_neg (by decide)] at hpasses
    rw [if_pos hends, if_pos hends]
    have htimer_only :
        ∀ w ∈ [(⟨p.locate (labelOf voice "timer"), UInt8.ofNat (h.timer - 1)⟩ : Write)],
          Confined p [labelOf voice "timer"] w := by
      simp [Confined]
    have hkept := hc.resident_passes hpasses
      (fun w hw => (htimer_only w hw).mono (by simp [htimer_mem])) hr
    have hstep : n'.memory (p.locate (labelOf voice "step")) =
        m.memory (p.locate (labelOf voice "step")) := by
      have hstep_mem := step_mem_stateNames ht
      rw [hpasses.memory_outside (hc.state_inStack hstep_mem)]
      exact hc.state_after htimer_only (by simp [htimer_mem]) hstep_mem (by simp)
    obtain ⟨n'', hcalled⟩ := hc.passes_call (m := n') hcall hpasses.stands.pc_eq
      fun m' hpc' hflags hsame =>
        hc.advance ht hp (hc.resident_congr hsame hkept)
          ((congrArg Flags.decimal hflags).trans (hpasses.stands.decimal_eq.trans hdecimal)) hpc'
          h.step (by
            rw [hsame _ (hc.state_inStack (step_mem_stateNames ht)), hstep,
              ← hh]
            rfl) hvalid.step_lt
    rw [hc.spot_label hafter, hc.locate_eq_spot hafter] at hcalled
    exact ⟨n'', (hpasses.mono (by decide)).trans hcalled⟩
  · have hjumps : taken n.flags .bne = true := by simp [taken, hzero, hends]
    rw [hjumps, if_pos rfl, hc.locate_eq_spot hafter] at hpasses
    rw [if_neg hends, if_neg hends]
    exact ⟨n', hpasses.mono (by decide)⟩

end Count

/-! ### The volume -/

section Fade

attribute [local simp] straight goesOn execute formOf formsOf effect cellOf byteOf Registers.setA
  Flags.seeing Flags.comparing Moment.read? Moment.NoCarry

variable {p body rest : Program} {start : UInt16} {t : Tune} {m : Machine}

/-- Compares the volume with the full one. -/
def testVolume : Program :=
  [.label frameLabel,
    .code lda (.label "volume"),
    .code cmp (.immediate fullVolume)]

/-- Sets the volume. -/
def setVolume (t : Tune) : Program :=
  [.label "tick_volume",
    .code lda (.label "volume"),
    .code ora (.immediate t.filter.modeByte),
    .code sta (.address Chip.modeVolume)]

/-- What follows the setting of the volume. -/
def afterVolume (rest : Program) : Program :=
  countDown 0 ++ (countDown 1 ++ (countDown 2 ++ .code rts .implied :: rest))

/-- What follows the comparison of the volume. -/
def afterTest (t : Tune) (rest : Program) : Program :=
  .code beq (.label "tick_volume") :: ([.code inc (.label "volume")] ++
    (setVolume t ++ afterVolume rest))

theorem Carries.tick_suffix (hc : Carries p start body t) :
    ∃ rest, testVolume ++ afterTest t rest <:+ body := by
  obtain ⟨rest, hsuffix⟩ := hc.frame_suffix
  exact ⟨.blank :: rest, (List.suffix_cons _ _).trans hsuffix⟩

private theorem leads_testVolume {volume : Nat}
    (hvolume : (m.memory (p.locate "volume")).toNat = volume) :
    ∃ n, Leads p.locate testVolume m n [] [] ∧ n.flags.zero = decide (volume = 15) := by
  have hfull : m.memory (p.locate "volume") - fullVolume = 0 ↔ volume = 15 := by
    rw [← hvolume, show 15 = fullVolume.toNat from rfl, UInt8.toNat_inj]
    grind
  simp [Leads, testVolume, hfull]

private theorem leads_setVolume (t : Tune) (p : Program) (m : Machine) :
    ∃ n, Leads p.locate (setVolume t) m n
      [⟨Chip.modeVolume, t.filter.modeByte ||| m.memory (p.locate "volume")⟩] [] := by
  simp [Leads, setVolume, UInt8.or_comm]

/-- The volume is faded in by one, up to the full volume. -/
theorem Carries.adding (hc : Carries p start body t)
    (hs : testVolume ++ afterTest t rest <:+ body) (hpc : m.pc = p.locate frameLabel) {volume : Nat}
    (hvolume : (m.memory (p.locate "volume")).toNat = volume) (hle : volume ≤ 15) :
    ∃ n, Passes p 0 m n (p.locate "tick_volume") (fadeWrites p volume) [] ∧
      n.memory (p.locate "volume") = UInt8.ofNat (min 15 (volume + 1)) := by
  have hmem : "volume" ∈ stateNames := by decide
  have hincing : [.code inc (.label "volume")] ++ (setVolume t ++ afterVolume rest) <:+ body :=
    (List.suffix_cons _ _).trans ((List.suffix_append _ _).trans hs)
  have hstore : spot start body (setVolume t ++ afterVolume rest) = p.locate "tick_volume" :=
    hc.spot_label ((List.suffix_append [Item.code inc (.label "volume")] _).trans hincing)
  obtain ⟨n, hleads, hzero⟩ := leads_testVolume hvolume
  obtain ⟨n', hpasses, -⟩ :=
    hc.passes_branch _ rfl (.inl rfl) hs (hpc.trans (hc.spot_label hs).symm)
    hleads (by simp)
  have hsame : n'.memory (p.locate "volume") = UInt8.ofNat volume := by
    rw [hpasses.memory_outside (hc.state_inStack hmem), Memory.after_nil, ← hvolume,
      UInt8.ofNat_toNat]
  rw [fadeWrites]
  by_cases hfull : volume = 15
  · have hjumps : taken n.flags .beq = true := by simp [taken, hzero, hfull]
    rw [hjumps, if_pos rfl] at hpasses
    rw [if_pos hfull]
    exact ⟨n', hpasses, by rw [hsame, hfull]; rfl⟩
  · have hgoes : taken n.flags .beq = false := by simp [taken, hzero, hfull]
    rw [hgoes, if_neg (by decide)] at hpasses
    rw [if_neg hfull]
    have hleads' : ∃ k, Leads p.locate [.code inc (.label "volume")] n' k
        [⟨p.locate "volume", UInt8.ofNat (volume + 1)⟩] [] := by
      simp [Leads, hsame, UInt8.ofNat_add]
    obtain ⟨k, hleads'⟩ := hleads'
    have hmore := hpasses.trans (hc.passes_straight _ rfl hincing hpasses.stands.pc_eq hleads'
      (by simp [hc.state_inStack hmem]))
    rw [hstore] at hmore
    refine ⟨k, hmore, ?_⟩
    have hleast : min 15 (volume + 1) = volume + 1 := by omega
    rw [hmore.memory_outside (hc.state_inStack hmem), hleast]
    exact Memory.write_same _ ⟨p.locate "volume", _⟩

theorem Carries.fading (hc : Carries p start body t)
    (hs : testVolume ++ afterTest t rest <:+ body) (hpc : m.pc = p.locate frameLabel) {volume : Nat}
    (hvolume : (m.memory (p.locate "volume")).toNat = volume) (hle : volume ≤ 15) :
    ∃ n, Passes p 0 m n (spot start body (afterVolume rest))
      (fadeWrites p volume ++
        [⟨Chip.modeVolume, t.filter.modeByte ||| UInt8.ofNat (min 15 (volume + 1))⟩])
      [] := by
  have hsetting : setVolume t ++ afterVolume rest <:+ body :=
    (List.suffix_append [Item.code inc (.label "volume")] _).trans
      ((List.suffix_cons _ _).trans ((List.suffix_append _ _).trans hs))
  obtain ⟨n, hbefore, hvalue⟩ := hc.adding hs hpc hvolume hle
  obtain ⟨n', hleads⟩ := leads_setVolume t p n
  rw [hvalue] at hleads
  exact ⟨n', hbefore.trans (hc.passes_straight _ rfl hsetting
    (hbefore.stands.pc_eq.trans (hc.spot_label hsetting).symm) hleads (by simp; decide))⟩

end Fade

/-! ### A frame -/

variable {p body : Program} {start : UInt16} {t : Tune} {m : Machine} {q : Playing}

theorem confined_fadeWrites (p : Program) (volume : Nat) :
    ∀ w ∈ fadeWrites p volume, Confined p ["volume"] w := by
  unfold fadeWrites
  split <;> simp [Confined]

theorem confined_fading (p : Program) (volume : Nat) (value : UInt8) :
    ∀ w ∈ fadeWrites p volume ++ [⟨Chip.modeVolume, value⟩], Confined p ["volume"] w := by
  intro w hw
  rcases List.mem_append.1 hw with hw | hw
  · exact confined_fadeWrites p volume w hw
  · rw [List.mem_singleton.1 hw]
    exact .inl (show isChip Chip.modeVolume = true by decide)

theorem confined_frameWrites (p : Program) (t : Tune) (q : Playing) :
    ∀ w ∈ frameWrites p t q, Confined p stateNames w := by
  intro w hw
  simp only [frameWrites, List.mem_append, or_assoc] at hw
  have heads : ∀ voice < 3, ∀ name ∈ headNames voice, name ∈ stateNames := by decide
  rcases hw with hw | hw | hw | hw | hw
  · exact (confined_fadeWrites p _ w hw).mono (by decide)
  · rw [List.mem_singleton.1 hw]
    exact .inl (show isChip Chip.modeVolume = true by decide)
  · exact (confined_countWrites (by decide) p t _ _ w hw).mono (heads 0 (by decide))
  · exact (confined_countWrites (by decide) p t _ _ w hw).mono (heads 1 (by decide))
  · exact (confined_countWrites (by decide) p t _ _ w hw).mono (heads 2 (by decide))

/-- Of what a frame writes, the chip sees what the sequencer writes. -/
theorem Carries.chipWrites_frameWrites (hc : Carries p start body t) (q : Playing) :
    chipWrites (frameWrites p t q) = (q.frame t).1 := by
  have hfade : chipWrites (fadeWrites p q.volume) = [] := by
    unfold fadeWrites
    split
    · rfl
    · exact chipWrites_eq_nil (by simp [hc.state_isChip (show "volume" ∈ stateNames by decide)])
  simp only [frameWrites, chipWrites_append, hfade,
    hc.chipWrites_countWrites t.tracks.get?_first,
    hc.chipWrites_countWrites t.tracks.get?_second,
    hc.chipWrites_countWrites t.tracks.get?_third]
  rfl

/-- Counting one voice down keeps the heads of the others. -/
theorem Carries.headOf_countWrites_of_ne (hc : Carries p start body t) {voice other : Nat}
    (hv : voice < 3) (ho : other < 3) (hne : other ≠ voice) (memory : Memory) (track : Track)
    (h : Head) :
    headOf p (memory.after (countWrites p t other track h)) voice = headOf p memory voice :=
  hc.headOf_after (confined_countWrites ho p t track h)
    (fun name hname => (headNames_disjoint ho hv hne.symm name hname).1)
    (headNames_disjoint hv ho hne)

private theorem Carries.volume_countWrites (hc : Carries p start body t) {voice : Nat}
    (hv : voice < 3) (memory : Memory) (track : Track) (h : Head) :
    memory.after (countWrites p t voice track h) (p.locate "volume") =
      memory (p.locate "volume") :=
  hc.state_after (confined_countWrites hv p t track h)
    (fun name hname => (headNames_ne_volume hv name hname).1) (by decide)
    fun hname => (headNames_ne_volume hv _ hname).2 (by decide)

private theorem Carries.volume_fadeWrites (hc : Carries p start body t) {volume : Nat}
    {memory : Memory} (value : UInt8)
    (hvolume : (memory (p.locate "volume")).toNat = volume) (hle : volume ≤ 15) :
    (memory.after (fadeWrites p volume ++ [⟨Chip.modeVolume, value⟩]) (p.locate "volume")).toNat =
      min 15 (volume + 1) := by
  have hne : p.locate "volume" ≠ Chip.modeVolume := by
    have := hc.state_isChip (show "volume" ∈ stateNames by decide)
    intro heq
    rw [heq] at this
    cases this
  rw [Memory.after_append, Memory.after_cons, Memory.after_nil, Memory.write_of_ne _ hne,
    fadeWrites]
  split
  · rw [Memory.after_nil, hvolume]
    omega
  · rw [Memory.after_cons, Memory.after_nil, Memory.write_same _ ⟨p.locate "volume", _⟩,
      UInt8.toNat_ofNat']
    omega

/-- A frame in memory is a frame of the sequencer. -/
theorem Carries.stateOf_frameWrites (hc : Carries p start body t) (ht : t.Playable)
    {memory : Memory} (hq : stateOf p memory = q) (hvalid : q.Valid t) :
    stateOf p (memory.after (frameWrites p t q)) = (q.frame t).2 := by
  simp only [frameWrites, Memory.after_append _ _ (countWrites ..)]
  -- Memory once the volume is set, and then after each voice; no voice undoes what another did.
  set memory₀ := memory.after (fadeWrites p q.volume ++ [⟨Chip.modeVolume, _⟩]) with hmemory₀
  set memory₁ := memory₀.after (countWrites p t 0 t.tracks.first q.heads.first) with hmemory₁
  set memory₂ := memory₁.after (countWrites p t 1 t.tracks.second q.heads.second) with hmemory₂
  set memory₃ := memory₂.after (countWrites p t 2 t.tracks.third q.heads.third) with hmemory₃
  have hfade (voice : Nat) (hv : voice < 3) : headOf p memory₀ voice = headOf p memory voice :=
    hc.headOf_after (confined_fading p _ _) (by decide) (headNames_ne_volume hv)
  have hvolume : (memory₃ (p.locate "volume")).toNat = min 15 (q.volume + 1) := by
    rw [hmemory₃, hc.volume_countWrites (by decide), hmemory₂, hc.volume_countWrites (by decide),
      hmemory₁, hc.volume_countWrites (by decide), hmemory₀,
      hc.volume_fadeWrites _ (by rw [← hq]; rfl) hvalid.volume_le]
  have hfirst : headOf p memory₃ 0 = (q.heads.first.tick t 0 t.tracks.first).2 := by
    rw [hmemory₃, hc.headOf_countWrites_of_ne (by decide) (by decide) (by decide), hmemory₂,
      hc.headOf_countWrites_of_ne (by decide) (by decide) (by decide)]
    exact hc.headOf_countWrites t.tracks.get?_first ht.first
      (by rw [hfade 0 (by decide), ← hq]; rfl) hvalid.first
  have hsecond : headOf p memory₃ 1 = (q.heads.second.tick t 1 t.tracks.second).2 := by
    rw [hmemory₃, hc.headOf_countWrites_of_ne (by decide) (by decide) (by decide)]
    refine hc.headOf_countWrites t.tracks.get?_second ht.second ?_ hvalid.second
    rw [hmemory₁, hc.headOf_countWrites_of_ne (by decide) (by decide) (by decide),
      hfade 1 (by decide), ← hq]
    rfl
  have hthird : headOf p memory₃ 2 = (q.heads.third.tick t 2 t.tracks.third).2 := by
    refine hc.headOf_countWrites t.tracks.get?_third ht.third ?_ hvalid.third
    rw [hmemory₂, hc.headOf_countWrites_of_ne (by decide) (by decide) (by decide), hmemory₁,
      hc.headOf_countWrites_of_ne (by decide) (by decide) (by decide), hfade 2 (by decide), ← hq]
    rfl
  rw [stateOf, hvolume, hfirst, hsecond, hthird]
  rfl

/-- The routine of a frame counts every voice down and returns. -/
theorem Carries.frame (hc : Carries p start body t) (ht : t.Playable) (hr : Resident p t m.memory)
    (hdecimal : m.flags.decimal = false) (hpc : m.pc = p.locate frameLabel)
    (hq : stateOf p m.memory = q) (hvalid : q.Valid t) :
    ∃ n, Returns p 2 m n (frameWrites p t q) (frameReads t q) := by
  obtain ⟨rest, hs⟩ := hc.tick_suffix
  have hsuffix₀ : countDown 0 ++ (countDown 1 ++ (countDown 2 ++ .code rts .implied :: rest)) <:+
      body :=
    (List.suffix_append (setVolume t) _).trans ((List.suffix_append [Item.code inc _] _).trans
      ((List.suffix_cons _ _).trans ((List.suffix_append _ _).trans hs)))
  have hsuffix₁ := (List.suffix_append (countDown 0) _).trans hsuffix₀
  have hsuffix₂ := (List.suffix_append (countDown 1) _).trans hsuffix₁
  have hsuffix₃ := (List.suffix_append (countDown 2) _).trans hsuffix₂
  obtain ⟨n₀, hfade⟩ := hc.fading hs hpc (by rw [← hq]; rfl) hvalid.volume_le
  rw [afterVolume] at hfade
  have hr₀ := hc.resident_passes hfade
    (fun w hw => (confined_fading p _ _ w hw).mono (by decide)) hr
  have hkept₀ {voice : Nat} (hv : voice < 3) :=
    hc.headOf_passes hfade (confined_fading p _ _) (by decide) (headNames_ne_volume hv)
  -- Counting one voice down keeps the heads of the others and the tables.
  have hkept {voice other : Nat} (hv : voice < 3) (ho : other < 3) (hne : other ≠ voice)
      {k n : Machine} {pc : UInt16} {track : Track} {h : Head}
      (hpasses : Passes p 2 k n pc (countWrites p t other track h) (countReads other track h)) :
      headOf p n.memory voice = headOf p k.memory voice :=
    hc.headOf_passes hpasses (confined_countWrites ho p t track h)
      (fun name hname => (headNames_disjoint ho hv hne.symm name hname).1)
      (headNames_disjoint hv ho hne)
  have hresides {other : Nat} (ho : other < 3) {k n : Machine} {pc : UInt16} {track : Track}
      {h : Head}
      (hpasses : Passes p 2 k n pc (countWrites p t other track h) (countReads other track h)) :
      Resident p t k.memory → Resident p t n.memory :=
    hc.resident_passes hpasses fun w hw => (confined_countWrites ho p t track h w hw).mono
      fun name hname => (headNames_ne_volume ho name hname).1
  obtain ⟨n₁, hfirst⟩ := hc.counting t.tracks.get?_first ht.first hsuffix₀ hr₀
    (hfade.stands.decimal_eq.trans hdecimal) hfade.stands.pc_eq (h := q.heads.first)
    (by rw [hkept₀ (by decide), ← hq]; rfl) hvalid.first
  have hbefore₁ := (hfade.mono (by decide)).trans hfirst
  obtain ⟨n₂, hsecond⟩ := hc.counting t.tracks.get?_second ht.second hsuffix₁
    (hresides (by decide) hfirst hr₀) (hbefore₁.stands.decimal_eq.trans hdecimal)
    hfirst.stands.pc_eq (h := q.heads.second)
    (by rw [hkept (by decide) (by decide) (by decide) hfirst, hkept₀ (by decide), ← hq]; rfl)
    hvalid.second
  have hbefore₂ := hbefore₁.trans hsecond
  obtain ⟨n₃, hthird⟩ := hc.counting t.tracks.get?_third ht.third hsuffix₂
    (hresides (by decide) hsecond (hresides (by decide) hfirst hr₀))
    (hbefore₂.stands.decimal_eq.trans hdecimal) hsecond.stands.pc_eq (h := q.heads.third)
    (by rw [hkept (by decide) (by decide) (by decide) hsecond,
      hkept (by decide) (by decide) (by decide) hfirst, hkept₀ (by decide), ← hq]; rfl) hvalid.third
  have hleads : Leads p.locate [] n₃ n₃ [] [] := ⟨[], rfl, rfl, rfl, by simp⟩
  obtain ⟨n, hback, -⟩ := hc.returns_straight [] rfl hsuffix₃ hthird.stands.pc_eq hleads (by simp)
  have hwhole := (hbefore₂.trans hthird).returns (hback.mono (by decide)) (by decide)
  exact ⟨n, by simpa [frameWrites, frameReads] using hwhole⟩

end SidTune.Player
