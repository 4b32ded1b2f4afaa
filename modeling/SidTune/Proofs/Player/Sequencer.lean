import SidTune.Player.Code
import SidTune.Proofs.Processor.Machine
import SidTune.Proofs.Song.Given

/-!
# The reference sequencer

What playing a tune means, without a processor: every voice has a head that tells how many ticks
are left of the step that sounds and which step comes next. Setting up clears the chip, sets filter
and envelopes and starts the first step of every voice. A frame fades the volume in by one, counts
every voice down, and starts the next step of the voices whose step is over.

The registers and bytes it writes are given as numbers, and not by the names that the generator has
for them; the lemmas that end in `_eq` say that the two are the same.

## Main definitions

* `SidTune.Track.Playable`, `SidTune.Tune.Playable`: tracks of one to 192 entries of at least one
  tick.
* `SidTune.Player.register`: the address of a register of a voice.
* `SidTune.Player.startStep`: what is written to start a step.
* `SidTune.Player.Head`, `SidTune.Player.Playing`: the state of the sequencer.
* `SidTune.Player.begin`, `SidTune.Player.Playing.frame`: setting up, and one frame.
* `SidTune.Player.scoreWrites`: what is written by setting up and by each of a number of frames.

## Main results

* `SidTune.Tune.playable_ofJson`: the tune of an accepted song is playable.
* `SidTune.Player.valid_playingAfter`: the state of the sequencer stays in its bounds.
-/

namespace SidTune

/-! ### Tracks that can be played -/

/-- A track of one to 192 entries of at least one tick. -/
structure Track.Playable (t : Track) : Prop where
  length_pos : 0 < t.length
  length_le : t.length ≤ maxEntries
  ticks_pos : ∀ e ∈ t.entries, 0 < e.ticks.toNat

/-- All tracks can be played. -/
def Tune.Playable (t : Tune) : Prop :=
  ∀ track ∈ t.tracks.toList, track.Playable

/-- No track has more entries than are kept. -/
def Tune.Short (t : Tune) : Prop :=
  ∀ track ∈ t.tracks.toList, track.length ≤ maxEntries

/-- The tracks of a song are cut. -/
theorem Tune.short_ofSong (s : Song) : (Tune.ofSong s).Short := by
  intro track hmem
  simp only [Tune.ofSong, Trio.toList_map, List.mem_map] at hmem
  obtain ⟨v, -, rfl⟩ := hmem
  exact Nat.le_trans (Nat.le_of_eq (length_entriesOf ..)) (Nat.min_le_right ..)

theorem Tune.Short.lengths {t : Tune} (h : t.Short) :
    t.tracks.first.entries.length ≤ 192 ∧ t.tracks.second.entries.length ≤ 192 ∧
      t.tracks.third.entries.length ≤ 192 := by
  simpa [Short, Trio.toList, Track.length, maxEntries] using h

namespace Tune.Playable

variable {t : Tune}

theorem first (h : t.Playable) : t.tracks.first.Playable :=
  h _ (by simp [Trio.toList])

theorem second (h : t.Playable) : t.tracks.second.Playable :=
  h _ (by simp [Trio.toList])

theorem third (h : t.Playable) : t.tracks.third.Playable :=
  h _ (by simp [Trio.toList])

theorem short (h : t.Playable) : t.Short :=
  fun track hmem => (h track hmem).length_le

end Tune.Playable

/-- The ticks of the entry of a step; zero where there is none. -/
def Track.ticksAt (t : Track) (step : Nat) : Nat :=
  (t.entries[step]?.map fun e => e.ticks.toNat).getD 0

theorem Track.start_lt_length (t : Track) (h : 0 < t.length) : t.start < t.length := by
  unfold start firstAudible
  cases hfind : t.entries.findIdx? Entry.isAudible with
  | none => exact h
  | some i => exact (List.findIdx?_eq_some_iff_getElem.1 hfind).1

theorem Entry.ticks_pos (bpm : Nat) (s : Step) : 0 < (Entry.ofStep bpm s).ticks.toNat := by
  have := stepTicks_pos bpm s.length
  simp only [Entry.ofStep, UInt8.toNat_ofNat']
  omega

theorem Pattern.WellFormed.length_bounds {p : Pattern} (h : p.WellFormed) :
    0 < p.steps.length ∧ p.steps.length ≤ maxEntries := by
  rw [h.length_steps]
  cases p with
  | flat steps =>
    obtain ⟨hlow, hhigh⟩ := h
    simp only [minSteps, maxSteps, nominalLength, maxEntries] at *
    omega
  | sections => simp [nominalLength, sectionSize, maxEntries]

/-- The track of a well-formed voice can be played. -/
theorem Track.playable_ofVoice (bpm : Nat) {v : Voice} (h : v.WellFormed) :
    (Track.ofVoice bpm v).Playable := by
  obtain ⟨hpos, hle⟩ := h.pattern.length_bounds
  have hlength : (Track.ofVoice bpm v).length = v.steps.length := by
    rw [Track.length, Track.ofVoice, length_entriesOf, Voice.steps, Nat.min_eq_left hle]
  refine ⟨hlength ▸ hpos, hlength ▸ hle, fun e he => ?_⟩
  obtain ⟨s, -, rfl⟩ := List.mem_map.1 he
  exact Entry.ticks_pos bpm s

/-- The tune of an accepted song can be played. -/
theorem Tune.playable_ofJson {document : Json} {s : Song} (h : Song.ofJson document = .ok s) :
    (Tune.ofSong s).Playable := by
  intro track htrack
  simp only [Tune.ofSong, Trio.toList_map, List.mem_map] at htrack
  obtain ⟨v, hv, rfl⟩ := htrack
  exact Track.playable_ofVoice _ ((Song.wellFormed_of_ofJson h).voices v hv)

namespace Track.Playable

variable {t : Track}

theorem ticksAt_pos (h : t.Playable) {step : Nat} (hs : step < t.length) : 0 < t.ticksAt step := by
  simpa [Track.ticksAt, List.getElem?_eq_getElem hs] using h.ticks_pos _ (List.getElem_mem hs)

theorem start_lt (h : t.Playable) : t.start < t.length :=
  t.start_lt_length h.length_pos

end Track.Playable

private theorem Track.ticksAt_le (t : Track) (step : Nat) : t.ticksAt step ≤ 255 := by
  unfold ticksAt
  cases t.entries[step]? with
  | none => simp
  | some e => simpa using Nat.le_of_lt_succ e.ticks.toNat_lt

namespace Player

open Processor

/-! ### Starting a step -/

/-- The address of a register of a voice. Each voice has seven from `$D400` on: the frequency word
(0 and 1), the pulse width (2 and 3), waveform and gate (4), and the envelope (5 and 6). -/
def register (voice : Nat) (offset : UInt16) : UInt16 :=
  0xD400 + 7 * UInt16.ofNat voice + offset

theorem toNat_register {voice : Nat} (hv : voice < 3) {offset : UInt16} (hoff : offset.toNat ≤ 6) :
    (register voice offset).toNat = 0xD400 + 7 * voice + offset.toNat := by
  simp only [register, UInt16.toNat_add, UInt16.toNat_mul, UInt16.toNat_ofNat', UInt16.reduceToNat]
  omega

theorem voiceAddress_eq (voice : Nat) (offset : UInt16) :
    Chip.voiceAddress voice offset = register voice offset :=
  rfl

/-- What is written to start a step of a voice: the gate is closed, and for a pitch the frequency
word is set and the gate, bit 0, is opened. -/
def startStep (t : Tune) (voice : Nat) (track : Track) (step : Nat) : List Write :=
  ⟨register voice 4, track.registers.wave⟩ ::
    match t.wordAt? voice step with
    | none => []
    | some word =>
      [⟨register voice 0, word.toUInt8⟩, ⟨register voice 1, (word >>> 8).toUInt8⟩,
        ⟨register voice 4, track.registers.wave ||| 0x01⟩]

theorem startStep_eq (t : Tune) (voice : Nat) (track : Track) (step : Nat) :
    startStep t voice track step =
      ⟨Chip.voiceAddress voice Chip.waveControl, track.registers.wave⟩ ::
        match t.wordAt? voice step with
        | none => []
        | some word =>
          [⟨Chip.voiceAddress voice Chip.frequencyLow, word.toUInt8⟩,
            ⟨Chip.voiceAddress voice Chip.frequencyHigh, (word >>> 8).toUInt8⟩,
            ⟨Chip.voiceAddress voice Chip.waveControl, track.registers.waveOpened⟩] :=
  rfl

/-! ### Heads -/

/-- Where a voice is in its track. -/
structure Head where
  /-- The ticks that are left of the step that sounds. -/
  timer : Nat
  /-- The step that comes next. -/
  step : Nat
  deriving DecidableEq, Repr

namespace Head

/-- The head of a voice that has just started a step; the last step is followed by the first. -/
def started (track : Track) (step : Nat) : Head where
  timer := track.ticksAt step
  step := (step + 1) % track.length

/-- Counts a voice down, and starts its next step when the one that sounds is over. -/
def tick (t : Tune) (voice : Nat) (track : Track) (h : Head) : List Write × Head :=
  if h.timer - 1 = 0 then (startStep t voice track h.step, started track h.step)
  else ([], { h with timer := h.timer - 1 })

/-- A head in the bounds of its track: the ticks fit a byte, and the next step is there. -/
structure Valid (track : Track) (h : Head) : Prop where
  timer_pos : 0 < h.timer
  timer_le : h.timer ≤ 255
  step_lt : h.step < track.length

theorem valid_started {track : Track} (h : track.Playable) {step : Nat}
    (hs : step < track.length) : (started track step).Valid track where
  timer_pos := h.ticksAt_pos hs
  timer_le := track.ticksAt_le step
  step_lt := Nat.mod_lt _ h.length_pos

theorem Valid.tick {track : Track} {h : Head} (hv : h.Valid track) (hp : track.Playable) (t : Tune)
    (voice : Nat) : (h.tick t voice track).2.Valid track := by
  unfold Head.tick
  split
  · exact valid_started hp hv.step_lt
  · exact ⟨by dsimp only; omega, by have := hv.timer_le; dsimp only; omega, hv.step_lt⟩

end Head

/-! ### The sequencer -/

/-- The state of the sequencer. -/
structure Playing where
  volume : Nat
  heads : Trio Head
  deriving DecidableEq, Repr

/-- The writes that clear the 25 registers of the chip, from the last down to the first. -/
def clearing : List Write :=
  (List.range 25).reverse.map fun i => ⟨0xD400 + UInt16.ofNat i, 0⟩

theorem clearing_eq :
    clearing = (List.range Chip.clearedCount.toNat).reverse.map fun i =>
      ⟨Chip.base + UInt16.ofNat i, 0⟩ :=
  rfl

/-- The writes that set the filter. -/
def filterWrites (s : Chip.FilterSetting) : List Write :=
  [⟨0xD415, s.cutoffLow⟩, ⟨0xD416, s.cutoffHigh⟩, ⟨0xD417, s.resonanceByte⟩, ⟨0xD418, s.modeByte⟩]

theorem filterWrites_eq (s : Chip.FilterSetting) :
    filterWrites s = [⟨Chip.cutoffLow, s.cutoffLow⟩, ⟨Chip.cutoffHigh, s.cutoffHigh⟩,
      ⟨Chip.resonanceRouting, s.resonanceByte⟩, ⟨Chip.modeVolume, s.modeByte⟩] :=
  rfl

/-- The writes that set the pulse width of a voice that has one. -/
def pulseWrites (voice : Nat) : Option Chip.PulseBytes → List Write
  | none => []
  | some pulse => [⟨register voice 2, pulse.low⟩, ⟨register voice 3, pulse.high⟩]

@[simp] theorem pulseWrites_none (voice : Nat) : pulseWrites voice none = [] :=
  rfl

@[simp] theorem pulseWrites_some (voice : Nat) (pulse : Chip.PulseBytes) :
    pulseWrites voice (some pulse) = [⟨Chip.voiceAddress voice Chip.pulseLow, pulse.low⟩,
      ⟨Chip.voiceAddress voice Chip.pulseHigh, pulse.high⟩] :=
  rfl

/-- The writes that set up a voice and start its first step. -/
def voiceWrites (t : Tune) (voice : Nat) (track : Track) : List Write :=
  [⟨register voice 5, track.registers.attackDecay⟩,
    ⟨register voice 6, track.registers.sustainRelease⟩]
    ++ pulseWrites voice track.registers.pulse? ++ startStep t voice track track.start

theorem voiceWrites_eq (t : Tune) (voice : Nat) (track : Track) :
    voiceWrites t voice track =
      [⟨Chip.voiceAddress voice Chip.attackDecay, track.registers.attackDecay⟩,
        ⟨Chip.voiceAddress voice Chip.sustainRelease, track.registers.sustainRelease⟩]
        ++ pulseWrites voice track.registers.pulse? ++ startStep t voice track track.start :=
  rfl

/-- Setting up: what is written, and the state after it. -/
def begin (t : Tune) : List Write × Playing :=
  (clearing ++ filterWrites t.filter ++ voiceWrites t 0 t.tracks.first
      ++ voiceWrites t 1 t.tracks.second ++ voiceWrites t 2 t.tracks.third,
    { volume := 0, heads := t.tracks.map fun track => Head.started track track.start })

namespace Playing

/-- One frame: what is written, and the state after it. -/
def frame (t : Tune) (q : Playing) : List Write × Playing :=
  let volume := min 15 (q.volume + 1)
  let first := q.heads.first.tick t 0 t.tracks.first
  let second := q.heads.second.tick t 1 t.tracks.second
  let third := q.heads.third.tick t 2 t.tracks.third
  (⟨0xD418, t.filter.modeByte ||| UInt8.ofNat volume⟩ :: (first.1 ++ second.1 ++ third.1),
    { volume := volume, heads := ⟨first.2, second.2, third.2⟩ })

/-- The state is in its bounds. -/
structure Valid (t : Tune) (q : Playing) : Prop where
  volume_le : q.volume ≤ 15
  first : q.heads.first.Valid t.tracks.first
  second : q.heads.second.Valid t.tracks.second
  third : q.heads.third.Valid t.tracks.third

end Playing

/-- The state after setting up and a number of frames. -/
def playingAfter (t : Tune) : Nat → Playing
  | 0 => (begin t).2
  | n + 1 => ((playingAfter t n).frame t).2

/-- What is written by setting up and by each of a number of frames. -/
def scoreWrites (t : Tune) (n : Nat) : List (List Write) :=
  (begin t).1 :: (List.range n).map fun i => ((playingAfter t i).frame t).1

theorem scoreWrites_succ (t : Tune) (n : Nat) :
    scoreWrites t (n + 1) = scoreWrites t n ++ [((playingAfter t n).frame t).1] := by
  simp [scoreWrites, List.range_succ]

/-! ### Bounds -/

variable {t : Tune}

private theorem valid_begin (h : t.Playable) : (begin t).2.Valid t where
  volume_le := Nat.zero_le _
  first := Head.valid_started h.first h.first.start_lt
  second := Head.valid_started h.second h.second.start_lt
  third := Head.valid_started h.third h.third.start_lt

theorem Playing.Valid.frame {q : Playing} (hq : q.Valid t) (h : t.Playable) :
    (q.frame t).2.Valid t where
  volume_le := Nat.min_le_left ..
  first := hq.first.tick h.first t 0
  second := hq.second.tick h.second t 1
  third := hq.third.tick h.third t 2

/-- The state stays in its bounds. -/
theorem valid_playingAfter (h : t.Playable) (n : Nat) : (playingAfter t n).Valid t := by
  induction n with
  | zero => exact valid_begin h
  | succ n ih => exact ih.frame h

end Player

end SidTune
