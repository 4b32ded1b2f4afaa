/-!
# The values of a song

A song document picks many of its values from small closed sets whose members are written by name. A
name is looked up among the members of its set. There are tempi and note values, which say how fast
a song is played and how long each of its steps is, pitches, which are pitch classes in one of four
octaves, and the settings of a voice that stay the same while it plays: its waveform, the four
stages of its envelope, and its wish for the filter that all voices share.

## Main definitions

* `SidTune.Named`: the members of a set and their names, with `Named.ofName?`.
* `SidTune.Tempo`: the supported tempi, with `Tempo.ofBpm?`.
* `SidTune.NoteValue`: quarters, eighths and sixteenths, with `NoteValue.ofDenominator?`.
* `SidTune.PitchClass`, `SidTune.Octave`, `SidTune.Pitch`: pitches and their parts.
* `SidTune.Scale`: the scales that a song may name.
* `SidTune.Nibble`: the 4-bit values of envelope stages and resonance.
* `SidTune.Waveform`, `SidTune.Envelope`: the waveform and the envelope of a voice.
* `SidTune.FilterKind`, `SidTune.FilterWish`: what a voice asks of the filter.
-/

namespace SidTune

/-! ### Named sets -/

/-- A finite set whose members are written by name. -/
class Named (α : Type) where
  /-- The members, in catalogue order. -/
  all : List α
  /-- The name of a member. -/
  name : α → String

namespace Named

variable {α : Type} [Named α]

/-- The member of the given name. -/
def ofName? (text : String) : Option α :=
  all.find? fun a => name a == text

/-- The names of all members, set off by commas. -/
def listing (α : Type) [Named α] : String :=
  String.intercalate ", " ((all : List α).map name)

theorem name_of_ofName? {text : String} {a : α} (h : ofName? text = some a) : name a = text := by
  simpa using List.find?_some h

end Named

/-! ### Tempi -/

/-- The supported tempi. -/
inductive Tempo where
  | bpm60 | bpm80 | bpm90 | bpm100 | bpm120 | bpm140 | bpm160
  deriving DecidableEq, Repr, Inhabited

namespace Tempo

/-- All tempi, slowest first. -/
def all : List Tempo :=
  [bpm60, bpm80, bpm90, bpm100, bpm120, bpm140, bpm160]

/-- Beats per minute. -/
def bpm : Tempo → Nat
  | bpm60 => 60
  | bpm80 => 80
  | bpm90 => 90
  | bpm100 => 100
  | bpm120 => 120
  | bpm140 => 140
  | bpm160 => 160

/-- The tempo of a number of beats per minute. -/
def ofBpm? (n : Int) : Option Tempo :=
  all.find? fun tempo => (tempo.bpm : Int) == n

@[simp] theorem ofBpm?_bpm (tempo : Tempo) : ofBpm? tempo.bpm = some tempo := by
  cases tempo <;> rfl

end Tempo

/-! ### Note values -/

/-- The length of a step as a note value. -/
inductive NoteValue where
  | quarter | eighth | sixteenth
  deriving DecidableEq, Repr, Inhabited

namespace NoteValue

/-- All note values, longest first. -/
def all : List NoteValue :=
  [quarter, eighth, sixteenth]

/-- The denominator that a document gives. -/
def denominator : NoteValue → Nat
  | quarter => 4
  | eighth => 8
  | sixteenth => 16

/-- How many steps of this length fill a beat. -/
def perBeat : NoteValue → Nat
  | quarter => 1
  | eighth => 2
  | sixteenth => 4

/-- The note value of a denominator. -/
def ofDenominator? (n : Int) : Option NoteValue :=
  all.find? fun d => (d.denominator : Int) == n

@[simp] theorem ofDenominator?_denominator (d : NoteValue) :
    ofDenominator? d.denominator = some d := by
  cases d <;> rfl

end NoteValue

/-! ### Pitches -/

/-- The twelve pitch classes in ascending order from C, written with sharps only. -/
inductive PitchClass where
  | c | cSharp | d | dSharp | e | f | fSharp | g | gSharp | a | aSharp | b
  deriving DecidableEq, Repr, Inhabited

namespace PitchClass

/-- Semitones above C. -/
def index : PitchClass → Nat
  | c => 0
  | cSharp => 1
  | d => 2
  | dSharp => 3
  | e => 4
  | f => 5
  | fSharp => 6
  | g => 7
  | gSharp => 8
  | a => 9
  | aSharp => 10
  | b => 11

theorem index_lt (p : PitchClass) : p.index < 12 := by
  cases p <;> decide

instance : Named PitchClass where
  all := [c, cSharp, d, dSharp, e, f, fSharp, g, gSharp, a, aSharp, b]
  name
    | c => "C"
    | cSharp => "C#"
    | d => "D"
    | dSharp => "D#"
    | e => "E"
    | f => "F"
    | fSharp => "F#"
    | g => "G"
    | gSharp => "G#"
    | a => "A"
    | aSharp => "A#"
    | b => "B"

end PitchClass

/-- The octaves of pitched steps, two to five. -/
structure Octave where
  number : Nat
  two_le : 2 ≤ number
  le_five : number ≤ 5
  deriving DecidableEq, Repr

namespace Octave

/-- The lowest octave. -/
def lowest : Octave := ⟨2, by decide, by decide⟩

instance : Inhabited Octave := ⟨lowest⟩

/-- The octave of a number. -/
def ofInt? (n : Int) : Option Octave :=
  if h : 2 ≤ n ∧ n ≤ 5 then some ⟨n.toNat, by omega, by omega⟩ else none

/-- All octaves, lowest first. -/
def all : List Octave :=
  [⟨2, by decide, by decide⟩, ⟨3, by decide, by decide⟩, ⟨4, by decide, by decide⟩,
    ⟨5, by decide, by decide⟩]

@[simp] theorem ofInt?_number (o : Octave) : ofInt? o.number = some o := by
  have hlow := o.two_le
  have high := o.le_five
  rw [ofInt?, dif_pos ⟨by omega, by omega⟩]
  rfl

end Octave

/-- A pitch class in an octave. -/
structure Pitch where
  pitchClass : PitchClass
  octave : Octave
  deriving DecidableEq, Repr

/-! ### Scales -/

/-- Named scales. They are carried along; pitches are not held against them. -/
inductive Scale where
  | major | minor | dorian | phrygian | mixolydian | pentatonic
  deriving DecidableEq, Repr, Inhabited

instance : Named Scale where
  all := [.major, .minor, .dorian, .phrygian, .mixolydian, .pentatonic]
  name
    | .major => "major"
    | .minor => "minor"
    | .dorian => "dorian"
    | .phrygian => "phrygian"
    | .mixolydian => "mixolydian"
    | .pentatonic => "pentatonic"

/-! ### Nibbles -/

/-- A 4-bit value, as used for envelope stages and resonance. -/
abbrev Nibble := Fin 16

namespace Nibble

/-- The nibble of a number. -/
def ofInt? (n : Int) : Option Nibble :=
  if h : 0 ≤ n ∧ n ≤ 15 then some ⟨n.toNat, by omega⟩ else none

/-- A nibble as a byte. -/
def byte (n : Nibble) : UInt8 :=
  UInt8.ofNat n.val

@[simp] theorem ofInt?_val (n : Nibble) : ofInt? n.val = some n := by
  rw [ofInt?, dif_pos (by omega)]
  rfl

@[simp] theorem toNat_byte (n : Nibble) : n.byte.toNat = n.val := by
  rw [byte, UInt8.toNat_ofNat', Nat.mod_eq_of_lt (by omega)]

end Nibble

/-! ### Ranges -/

/-- The largest 12-bit pulse width. -/
def pulseWidthLimit : Nat := 4095

/-- The largest 11-bit filter cutoff. -/
def cutoffLimit : Nat := 2047

/-- The 16-bit word of a number that is at most `most`. -/
def wordUpTo? (most : Nat) (n : Int) : Option UInt16 :=
  if 0 ≤ n ∧ n ≤ most then some (UInt16.ofNat n.toNat) else none

/-! ### Waveforms and envelopes -/

/-- Oscillator waveforms. -/
inductive Waveform where
  | triangle | sawtooth | pulse | noise
  deriving DecidableEq, Repr, Inhabited

instance : Named Waveform where
  all := [.triangle, .sawtooth, .pulse, .noise]
  name
    | .triangle => "TRI"
    | .sawtooth => "SAW"
    | .pulse => "PULSE"
    | .noise => "NOISE"

/-- The four stages of an envelope. -/
structure Envelope where
  attack : Nibble
  decay : Nibble
  sustain : Nibble
  release : Nibble
  deriving DecidableEq, Repr, Inhabited

/-! ### Filters -/

/-- What a voice asks of the filter: nothing, one of its outputs, or two at once. -/
inductive FilterKind where
  | none | lowPass | bandPass | highPass | lowBand | highBand
  deriving DecidableEq, Repr, Inhabited

namespace FilterKind

instance : Named FilterKind where
  all := [none, lowPass, bandPass, highPass, lowBand, highBand]
  name
    | none => "NONE"
    | lowPass => "LP"
    | bandPass => "BP"
    | highPass => "HP"
    | lowBand => "LP+BP"
    | highBand => "HP+BP"

/-- Whether any filtering is asked for. -/
def isOn : FilterKind → Bool
  | none => false
  | _ => true

/-- Whether the low-pass output is asked for. -/
def passesLow : FilterKind → Bool
  | lowPass | lowBand => true
  | _ => false

/-- Whether the band-pass output is asked for. -/
def passesBand : FilterKind → Bool
  | bandPass | lowBand | highBand => true
  | _ => false

/-- Whether the high-pass output is asked for. -/
def passesHigh : FilterKind → Bool
  | highPass | highBand => true
  | _ => false

theorem isOn_eq (k : FilterKind) :
    k.isOn = (k.passesLow || k.passesBand || k.passesHigh) := by
  cases k <;> rfl

end FilterKind

/-- What a voice wishes of the shared filter. -/
structure FilterWish where
  kind : FilterKind
  cutoff : UInt16
  resonance : Nibble
  deriving DecidableEq, Repr, Inhabited

end SidTune
