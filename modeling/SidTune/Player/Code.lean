import SidTune.Assembly.Program
import SidTune.Chip.Registers
import SidTune.Tune.Basic

/-!
# The tables and the code of the player

Both layouts share one player. Its routines are one that sets everything up, one that is called for
each frame, and one for each voice that plays its current step and moves on. What they read and
write are the words of all pitches as two tables of bytes, the three tables of every voice, and the
state: the volume and, for every voice, a byte that counts down the ticks of its step and a byte
that tells which step comes next.

## Main definitions

* `SidTune.Player.setupLabel`, `SidTune.Player.frameLabel`: the routines that a layout calls.
* `SidTune.Player.labelOf`: what belongs to a voice.
* `SidTune.Player.octaveStarts`, `SidTune.Player.wordLowBytes`, `SidTune.Player.wordHighBytes`: the
  tables of pitches.
* `SidTune.Player.tables`: all tables of a tune and the state.
* `SidTune.Player.setup`, `SidTune.Player.frame`, `SidTune.Player.nextStep`: the routines.
* `SidTune.Player.shared`: the player of a tune, routines and tables.
-/

namespace SidTune.Player

/-! ### Labels -/

/-- The label of the routine that sets everything up. -/
def setupLabel : String := "init_song"

/-- The label of the routine that is called for each frame. -/
def frameLabel : String := "tick"

/-- The label of a voice's own routine, table or state byte; voices count from zero. -/
def labelOf (voice : Nat) (name : String) : String :=
  "v" ++ voice.repr ++ "_" ++ name

/-! ### Tables -/

open Assembly Assembly.Mnemonic

/-- The place in the table of words where each octave from zero on starts. No table of a voice holds
an octave below two. -/
def octaveStarts : Bytes :=
  [0, 0, 0, 12, 24, 36]

/-- The low bytes of the frequency table. -/
def wordLowBytes : Bytes :=
  wordTable.map UInt16.toUInt8

/-- The high bytes of the frequency table. -/
def wordHighBytes : Bytes :=
  wordTable.map fun word : UInt16 => (word >>> 8).toUInt8

/-- The tables of a voice. -/
def voiceTables (voice : Nat) (t : Track) : Program :=
  [.comment ("voice " ++ (voice + 1).repr ++ " tables, " ++ t.length.repr ++ " steps")]
    ++ table (labelOf voice "notes") t.noteColumn
    ++ table (labelOf voice "octaves") t.octaveColumn
    ++ table (labelOf voice "ticks") t.tickColumn
    ++ [.blank]

/-- The state bytes of a voice. -/
def voiceState (voice : Nat) : Program :=
  table (labelOf voice "step") [0] ++ table (labelOf voice "timer") [0]

/-- The frequency tables, the tables of every voice, and the state of the player. -/
def tables (t : Tune) : Program :=
  [.comment "frequency table, octaves 2-5"]
    ++ table "octave_offset" octaveStarts
    ++ table "freq_lo" wordLowBytes
    ++ table "freq_hi" wordHighBytes
    ++ [.blank]
    ++ (t.tracks.toList.mapIdx voiceTables).flatten
    ++ [.comment "player state"]
    ++ table "volume" [0]
    ++ voiceState 0 ++ voiceState 1 ++ voiceState 2

/-! ### Routines -/

/-- The volume up to which the song is faded in. -/
def fullVolume : UInt8 := 0x0F

/-- Stores a constant. -/
def put (value : UInt8) (addr : UInt16) : Program :=
  [.code lda (.immediate value), .code sta (.address addr)]

/-- Stores the pulse width of a voice that has one. -/
def putPulse (voice : Nat) : Option Chip.PulseBytes → Program
  | none => []
  | some pulse => put pulse.low (Chip.voiceAddress voice Chip.pulseLow)
      ++ put pulse.high (Chip.voiceAddress voice Chip.pulseHigh)

/-- Sets up a voice and plays its first step. -/
def setupVoice (voice : Nat) (t : Track) : Program :=
  put t.registers.attackDecay (Chip.voiceAddress voice Chip.attackDecay)
    ++ put t.registers.sustainRelease (Chip.voiceAddress voice Chip.sustainRelease)
    ++ putPulse voice t.registers.pulse?
    ++ [.code lda (.immediate (UInt8.ofNat t.start)),
        .code sta (.label (labelOf voice "step")),
        .code jsr (.label (labelOf voice "advance"))]

/-- Clears the chip, sets the filter and the voices, and plays the first step of every voice, so
that the first tick finds notes sounding. -/
def setup (t : Tune) : Program :=
  [.comment "reset SID, set filter and envelopes, prime voices",
    .label setupLabel,
    .code lda (.immediate 0),
    .code ldx (.immediate (Chip.clearedCount - 1)),
    .label "init_clear",
    .code sta (.addressX Chip.base),
    .code dex .implied,
    .code bpl (.label "init_clear"),
    .code sta (.label "volume")]
    ++ put t.filter.cutoffLow Chip.cutoffLow
    ++ put t.filter.cutoffHigh Chip.cutoffHigh
    ++ put t.filter.resonanceByte Chip.resonanceRouting
    ++ put t.filter.modeByte Chip.modeVolume
    ++ (t.tracks.toList.mapIdx setupVoice).flatten
    ++ [.code rts .implied, .blank]

/-- The label after the countdown of a voice. -/
def afterVoice (voice : Nat) : String :=
  if voice < 2 then "tick_v" ++ (voice + 1).repr else "tick_done"

/-- Counts a voice down, and advances it when its step is over. -/
def countDown (voice : Nat) : Program :=
  [.code dec (.label (labelOf voice "timer")),
    .code bne (.label (afterVoice voice)),
    .code jsr (.label (labelOf voice "advance")),
    .label (afterVoice voice)]

/-- Fades the volume in by one, then counts down every voice. -/
def frame (t : Tune) : Program :=
  [.comment "called once per frame",
    .label frameLabel,
    .code lda (.label "volume"),
    .code cmp (.immediate fullVolume),
    .code beq (.label "tick_volume"),
    .code inc (.label "volume"),
    .label "tick_volume",
    .code lda (.label "volume"),
    .code ora (.immediate t.filter.modeByte),
    .code sta (.address Chip.modeVolume)]
    ++ countDown 0 ++ countDown 1 ++ countDown 2
    ++ [.code rts .implied, .blank]

/-- Plays the current step of a voice, reloads its countdown, and moves to the next step, which
after the last one is the first. The gate is closed in between, so that a note that is repeated
starts its envelope anew. -/
def nextStep (voice : Nat) (t : Track) : Program :=
  let label := labelOf voice
  let register := Chip.voiceAddress voice
  [.comment ("voice " ++ (voice + 1).repr ++ " (" ++ Named.name t.role ++ ") step advance"),
    .label (label "advance"),
    .code ldx (.label (label "step")),
    .code lda (.immediate t.registers.wave),
    .code sta (.address (register Chip.waveControl)),
    .code lda (.labelX (label "notes")),
    .code cmp (.immediate Entry.restByte),
    .code beq (.label (label "timing")),
    .code clc .implied,
    .code ldy (.labelX (label "octaves")),
    .code adc (.labelY "octave_offset"),
    .code tay .implied,
    .code lda (.labelY "freq_lo"),
    .code sta (.address (register Chip.frequencyLow)),
    .code lda (.labelY "freq_hi"),
    .code sta (.address (register Chip.frequencyHigh)),
    .code lda (.immediate t.registers.waveOpened),
    .code sta (.address (register Chip.waveControl)),
    .label (label "timing"),
    .code lda (.labelX (label "ticks")),
    .code sta (.label (label "timer")),
    .code inx .implied,
    .code cpx (.immediate (UInt8.ofNat t.length)),
    .code bne (.label (label "store")),
    .code ldx (.immediate 0),
    .label (label "store"),
    .code stx (.label (label "step")),
    .code rts .implied,
    .blank]

/-! ### All of it -/

/-- The player of a tune: its routines, then its tables. -/
def shared (t : Tune) : Program :=
  setup t ++ frame t ++ (t.tracks.toList.mapIdx nextStep).flatten ++ tables t

end SidTune.Player
