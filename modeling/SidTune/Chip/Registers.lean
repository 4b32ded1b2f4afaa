import SidTune.Basic
import SidTune.Song.Basic

/-!
# The registers of the chip

The chip has seven registers for each voice, one voice after the other, then the filter and the
volume. What a voice's settings become in them are two bytes for the envelope, one for the waveform
and the gate, and two for the pulse width of a voice that has one. The chip has one filter for all
voices, so the voices' wishes are merged: the union of the outputs asked for, the highest resonance,
the mean cutoff, and one routing bit for each voice that asks for filtering at all. Wishes for none
have no influence.

## Main definitions

* `SidTune.Chip.base`, `SidTune.Chip.voiceAddress`: where the registers of the voices are.
* `SidTune.Chip.cutoffLow`, `SidTune.Chip.cutoffHigh`, `SidTune.Chip.resonanceRouting`,
  `SidTune.Chip.modeVolume`: the registers that all voices share.
* `SidTune.Chip.packed`, `SidTune.Chip.waveBits`: the bytes of two nibbles and of a waveform.
* `SidTune.Chip.PulseBytes`: a pulse width over its two registers.
* `SidTune.Chip.VoiceBytes`: the register bytes of a voice.
* `SidTune.Chip.FilterSetting`: the setting of the filter, with its register bytes.
* `SidTune.Chip.FilterSetting.merge`: the setting for a list of wishes in voice order.
-/

namespace SidTune.Chip

/-! ### Addresses -/

/-- The address of the first register. -/
def base : UInt16 := 0xD400

/-- The distance between the registers of one voice and the next. -/
def voiceDistance : UInt16 := 7

/-- The number of registers that a reset clears. -/
def clearedCount : UInt8 := 0x19

/-- Offset of the low byte of the frequency word. -/
def frequencyLow : UInt16 := 0

/-- Offset of the high byte of the frequency word. -/
def frequencyHigh : UInt16 := 1

/-- Offset of the low byte of the pulse width. -/
def pulseLow : UInt16 := 2

/-- Offset of the high byte of the pulse width. -/
def pulseHigh : UInt16 := 3

/-- Offset of the waveform and the gate. -/
def waveControl : UInt16 := 4

/-- Offset of the first two envelope stages. -/
def attackDecay : UInt16 := 5

/-- Offset of the last two envelope stages. -/
def sustainRelease : UInt16 := 6

/-- The low three bits of the filter cutoff. -/
def cutoffLow : UInt16 := 0xD415

/-- The high eight bits of the filter cutoff. -/
def cutoffHigh : UInt16 := 0xD416

/-- Resonance in the high nibble, voice routing in the low one. -/
def resonanceRouting : UInt16 := 0xD417

/-- Filter mode in the high nibble, volume in the low one. -/
def modeVolume : UInt16 := 0xD418

/-- The address of the register at an offset from the registers of a voice, counted from zero. -/
def voiceAddress (voice : Nat) (offset : UInt16) : UInt16 :=
  base + voiceDistance * UInt16.ofNat voice + offset

/-! ### The bytes of a voice -/

/-- Two nibbles in one byte. -/
def packed (high low : Nibble) : UInt8 :=
  high.byte <<< 4 ||| low.byte

theorem toNat_packed (high low : Nibble) : (packed high low).toNat = 16 * high + low := by
  have hbound := high.isLt
  have hbound' := low.isLt
  simp only [packed, UInt8.toNat_or, UInt8.toNat_shiftLeft, Nibble.toNat_byte, UInt8.reduceToNat,
    Nat.reduceMod]
  rw [Nat.shiftLeft_eq, Nat.mod_eq_of_lt (by omega), ← Nat.shiftLeft_eq,
    ← Nat.shiftLeft_add_eq_or_of_lt (by omega), Nat.shiftLeft_eq]
  omega

/-- The bit of the wave control that starts the envelope. -/
def gateBit : UInt8 := 0x01

/-- The wave control of a waveform with the gate closed. -/
def waveBits : Waveform → UInt8
  | .triangle => 0x10
  | .sawtooth => 0x20
  | .pulse => 0x40
  | .noise => 0x80

/-- A pulse width over its two registers; of the high byte only the low nibble counts. -/
structure PulseBytes where
  low : UInt8
  high : UInt8
  deriving DecidableEq, Repr

/-- The two bytes of a 12-bit pulse width. -/
def PulseBytes.ofWidth (width : UInt16) : PulseBytes :=
  ⟨width.toUInt8, (width >>> 8 &&& 0x0F).toUInt8⟩

/-- The register bytes of a voice. -/
structure VoiceBytes where
  attackDecay : UInt8
  sustainRelease : UInt8
  wave : UInt8
  pulse? : Option PulseBytes
  deriving DecidableEq, Repr

namespace VoiceBytes

/-- The register bytes of a voice. Only a pulse voice has a pulse width. -/
def ofVoice (v : Voice) : VoiceBytes where
  attackDecay := packed v.envelope.attack v.envelope.decay
  sustainRelease := packed v.envelope.sustain v.envelope.release
  wave := waveBits v.waveform
  pulse? := if v.waveform = .pulse then v.pulseWidth.map PulseBytes.ofWidth else none

/-- The wave control that starts the envelope. -/
def waveOpened (r : VoiceBytes) : UInt8 :=
  r.wave ||| gateBit

end VoiceBytes

/-! ### The setting of the filter -/

/-- The setting of the filter. -/
structure FilterSetting where
  cutoff : UInt16
  resonance : UInt8
  /-- Bit `i` is set when voice `i` passes through the filter. -/
  routing : UInt8
  /-- The bits of the outputs in use, as they stand beside the volume. -/
  mode : UInt8
  deriving DecidableEq, Repr

namespace FilterSetting

/-! ### Register bytes -/

/-- The low three bits of the cutoff. -/
def cutoffLow (s : FilterSetting) : UInt8 :=
  (s.cutoff &&& 0x07).toUInt8

/-- The eight bits of the cutoff above the low three. -/
def cutoffHigh (s : FilterSetting) : UInt8 :=
  (s.cutoff >>> 3).toUInt8

/-- Resonance and routing in one byte. -/
def resonanceByte (s : FilterSetting) : UInt8 :=
  s.resonance <<< 4 ||| s.routing

/-- The byte to which the volume is added. -/
def modeByte (s : FilterSetting) : UInt8 :=
  s.mode

/-- Whether any voice passes through the filter. -/
def inUse (s : FilterSetting) : Bool :=
  s.routing != 0

/-! ### Merging wishes -/

/-- The mode bits of a kind of filter. -/
def modeBits (k : FilterKind) : UInt8 :=
  (if k.passesLow then 0x10 else 0) ||| (if k.passesBand then 0x20 else 0)
    ||| (if k.passesHigh then 0x40 else 0)

/-- The routing bit of the voice with an index, if it asks for filtering. -/
def routingBit (voice : Nat) (w : FilterWish) : UInt8 :=
  if w.kind.isOn then 1 <<< UInt8.ofNat voice else 0

/-- The mean of the cutoffs, a half rounded upwards, and zero for no wish. -/
def meanCutoff (wishes : List FilterWish) : Nat :=
  roundedQuotient (wishes.foldr (fun w sum => w.cutoff.toNat + sum) 0) wishes.length

/-- The setting for a list of wishes in voice order. -/
def merge (wishes : List FilterWish) : FilterSetting :=
  let active := wishes.filter fun w => w.kind.isOn
  { cutoff := UInt16.ofNat (meanCutoff active)
    resonance := (active.map fun w => w.resonance.byte).foldl max 0
    routing := (wishes.mapIdx routingBit).foldl (· ||| ·) 0
    mode := (active.map fun w => modeBits w.kind).foldl (· ||| ·) 0 }

@[simp] theorem meanCutoff_nil : meanCutoff [] = 0 := rfl

end FilterSetting

end SidTune.Chip
