import SidTune.Basic
import SidTune.Chip.Registers
import SidTune.Song.Basic

/-!
# Tunes

A tune is a song made ready for the chip: a track for each voice and one setting of the filter. What
concerns the document alone, such as key and title, is gone.

The player is called fifty times a second, and one call is a tick. A beat takes a whole number of
ticks, and the fraction of a beat that a step takes is rounded again, so that an eighth at 120 beats
per minute takes 13 of the 25 ticks of a beat. The oscillators add a 16-bit word to a 24-bit
accumulator once a clock cycle, so the word of a frequency is `frequency * 2 ^ 24 / clock`, rounded
and held to 16 bits. The player reads the words of the 48 pitches of octaves two to five from one
table.

A track is what the player needs of one voice: a table with one entry for each step, the register
bytes, and the wish for the filter. An entry holds what the player reads for a step, a rest being
marked by a note byte outside the range of pitch classes. The table is cut at 192 entries and never
padded.

## Main definitions

* `SidTune.beatTicks`, `SidTune.stepTicks`: the ticks of a beat and of a step.
* `SidTune.keyNumber`, `SidTune.keyFrequency`: numbers and frequencies in equal temperament.
* `SidTune.oscillatorWord`, `SidTune.pitchWord`: the words of a frequency and of a pitch.
* `SidTune.wordTable`, `SidTune.Pitch.tableIndex`: the table and the place of a pitch in it.
* `SidTune.Entry`, `SidTune.entriesOf`: the table of a list of steps.
* `SidTune.firstAudible`: the first entry that sounds.
* `SidTune.Track`, `SidTune.Track.ofVoice`: the track of a voice.
* `SidTune.Tune`, `SidTune.Tune.ofSong`: the tune of a song.
* `SidTune.Tune.wordAt?`: the frequency word that a voice plays at a step.

## Main results

* `SidTune.stepTicks_pos`: a step takes at least one tick.
* `SidTune.wordTable_tableIndex`: the entry at the place of a pitch is the word of the pitch.
-/

namespace SidTune

/-! ### Ticks -/

/-- Calls of the player in a second. -/
def ticksPerSecond : Nat := 50

/-- The ticks of a beat, at least one. -/
def beatTicks (bpm : Nat) : Nat :=
  max 1 (roundedQuotient (ticksPerSecond * 60) (max bpm 1))

/-- The ticks of a step, at least one. -/
def stepTicks (bpm : Nat) (length : NoteValue) : Nat :=
  max 1 (roundedQuotient (beatTicks bpm) length.perBeat)

theorem beatTicks_pos (bpm : Nat) : 1 ≤ beatTicks bpm :=
  Nat.le_max_left ..

/-- A step takes at least one tick. -/
theorem stepTicks_pos (bpm : Nat) (length : NoteValue) : 1 ≤ stepTicks bpm length :=
  Nat.le_max_left ..

/-! ### Words -/

/-- Clock cycles in a second. -/
def clockHertz : Float := 985248

/-- The number of a pitch on the scale on which A in octave four is 69. -/
def keyNumber (pitchClass : PitchClass) (octave : Nat) : Nat :=
  12 * (octave + 1) + pitchClass.index

/-- The frequency of a numbered pitch in hertz: 440 for number 69, doubled every twelve numbers. -/
def keyFrequency (number : Nat) : Float :=
  440 * Float.pow 2 ((Float.ofNat number - 69) / 12)

/-- The word of a frequency, rounded to the nearest and held to 16 bits. -/
def oscillatorWord (frequency : Float) : UInt16 :=
  (frequency * 16777216 / clockHertz).round.toUInt16

/-- The word of a pitch class in an octave. -/
def pitchWord (pitchClass : PitchClass) (octave : Nat) : UInt16 :=
  oscillatorWord (keyFrequency (keyNumber pitchClass octave))

/-! ### The table -/

/-- The words of octaves two to five in ascending order. -/
def wordTable : List UInt16 :=
  Octave.all.flatMap fun octave =>
    (Named.all : List PitchClass).map fun pitchClass => pitchWord pitchClass octave.number

/-- The place of a pitch in the table. -/
def Pitch.tableIndex (p : Pitch) : Nat :=
  (p.octave.number - Octave.lowest.number) * 12 + p.pitchClass.index

theorem length_wordTable : wordTable.length = 48 := rfl

theorem Pitch.tableIndex_lt (p : Pitch) : p.tableIndex < 48 := by
  have := p.pitchClass.index_lt
  have := p.octave.le_five
  simp only [tableIndex, Octave.lowest]
  omega

/-- The entry at the place of a pitch is the word of the pitch. -/
theorem wordTable_tableIndex (p : Pitch) :
    wordTable[p.tableIndex]? = some (pitchWord p.pitchClass p.octave.number) := by
  obtain ⟨pitchClass, octave, hlow, high⟩ := p
  have hcases : octave = 2 ∨ octave = 3 ∨ octave = 4 ∨ octave = 5 := by omega
  rcases hcases with rfl | rfl | rfl | rfl <;> cases pitchClass <;> rfl

/-! ### Entries -/

/-- What the player reads for a step. -/
structure Entry where
  /-- The pitch class, or none for a rest. -/
  note? : Option PitchClass
  /-- The octave, the lowest one for a rest. -/
  octave : Octave
  /-- How many ticks the step takes. -/
  ticks : UInt8
  deriving DecidableEq, Repr

namespace Entry

/-- The note byte of a rest. It is no pitch class, so that the player finds it with one
comparison. -/
def restByte : UInt8 := 0xFF

/-- The entry of a step; a step of more than 255 ticks takes 255. -/
def ofStep (bpm : Nat) (s : Step) : Entry where
  note? := s.pitch?.map Pitch.pitchClass
  octave := (s.pitch?.map Pitch.octave).getD Octave.lowest
  ticks := UInt8.ofNat (min (stepTicks bpm s.length) 255)

/-- The byte of the note table. -/
def noteByte (e : Entry) : UInt8 :=
  match e.note? with
  | none => restByte
  | some p => UInt8.ofNat p.index

theorem toNat_noteByte {e : Entry} {p : PitchClass} (h : e.note? = some p) :
    e.noteByte.toNat = p.index := by
  have := p.index_lt
  simp only [noteByte, h, UInt8.toNat_ofNat']
  omega

/-- A note byte tells whether the step rests. -/
theorem noteByte_eq_restByte (e : Entry) : e.noteByte = restByte ↔ e.note? = none := by
  cases hnote : e.note? with
  | none => simp [noteByte, hnote]
  | some p =>
    have hindex := toNat_noteByte hnote
    have hbound := p.index_lt
    have hrest : restByte.toNat = 255 := rfl
    simp only [reduceCtorEq, iff_false]
    intro hsame
    rw [hsame] at hindex
    omega

/-- The byte of the octave table. -/
def octaveByte (e : Entry) : UInt8 :=
  UInt8.ofNat e.octave.number

@[simp] theorem toNat_octaveByte (e : Entry) : e.octaveByte.toNat = e.octave.number := by
  have := e.octave.le_five
  rw [octaveByte, UInt8.toNat_ofNat']
  omega

/-- Whether the step sounds. -/
def isAudible (e : Entry) : Bool :=
  e.note?.isSome

end Entry

/-- The most entries of a table. -/
def maxEntries : Nat := 192

/-- The table of a list of steps. -/
def entriesOf (bpm : Nat) (steps : List Step) : List Entry :=
  (steps.take maxEntries).map (Entry.ofStep bpm)

/-- The index of the first entry that sounds, or zero if none does. -/
def firstAudible (entries : List Entry) : Nat :=
  (entries.findIdx? Entry.isAudible).getD 0

/-- A table has an entry for each step that is kept. -/
theorem length_entriesOf (bpm : Nat) (steps : List Step) :
    (entriesOf bpm steps).length = min steps.length maxEntries := by
  simp [entriesOf, Nat.min_comm]

/-! ### Tracks -/

/-- What the player needs of one voice. -/
structure Track where
  role : Role
  entries : List Entry
  registers : Chip.VoiceBytes
  filter : FilterWish
  deriving DecidableEq, Repr

namespace Track

/-- The track of a voice at a tempo. -/
def ofVoice (bpm : Nat) (v : Voice) : Track where
  role := v.role
  entries := entriesOf bpm v.steps
  registers := Chip.VoiceBytes.ofVoice v
  filter := v.filter

/-- The note table. -/
def noteColumn (t : Track) : List UInt8 :=
  t.entries.map Entry.noteByte

/-- The octave table. -/
def octaveColumn (t : Track) : List UInt8 :=
  t.entries.map Entry.octaveByte

/-- The table of tick counts. -/
def tickColumn (t : Track) : List UInt8 :=
  t.entries.map Entry.ticks

/-- The entry with which playing starts. -/
def start (t : Track) : Nat :=
  firstAudible t.entries

/-- The number of entries. -/
def length (t : Track) : Nat :=
  t.entries.length

/-- Whether any entry sounds. -/
def hasAudible (t : Track) : Bool :=
  t.entries.any Entry.isAudible

end Track

/-! ### Tunes -/

/-- A song made ready for the chip. -/
structure Tune where
  bpm : Nat
  beatTicks : Nat
  tracks : Trio Track
  filter : Chip.FilterSetting
  deriving DecidableEq, Repr

namespace Tune

/-- The tune of a song. -/
def ofSong (s : Song) : Tune :=
  let tracks := s.voices.map (Track.ofVoice s.tempo.bpm)
  { bpm := s.tempo.bpm
    beatTicks := SidTune.beatTicks s.tempo.bpm
    tracks := tracks
    filter := Chip.FilterSetting.merge (tracks.toList.map Track.filter) }

/-- The frequency word that a voice plays at a step: none for a rest, or where there is no such
voice or step. -/
def wordAt? (t : Tune) (voice step : Nat) : Option UInt16 := do
  let track ← t.tracks.get? voice
  let entry ← track.entries[step]?
  let pitchClass ← entry.note?
  wordTable[(Pitch.mk pitchClass entry.octave).tableIndex]?

end Tune

end SidTune
