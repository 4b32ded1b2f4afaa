import SidTune.Assembly.Program
import SidTune.Player.Code

/-!
# The two layouts

The player is wrapped in two ways. The *standalone* program is started from BASIC, installs its own
interrupt and calls the player for every frame. The *library* image has an entry point for setting
up and one for each tick at fixed addresses, and is called by another program.

## Main definitions

* `SidTune.Player.standalone`, `SidTune.Player.library`: the two programs of a tune.
* `SidTune.Player.Sources`: the source texts of both.
-/

namespace SidTune.Player

open Assembly Assembly.Mnemonic

/-! ### Addresses -/

/-- The load address of the library, where its first entry point is. -/
def initEntry : UInt16 := 0x1000

/-- The second entry point of the library, after the three bytes of a jump. -/
def playEntry : UInt16 := initEntry + 3

/-- The load address of the standalone program, where BASIC programs start. -/
def basicStart : UInt16 := 0x0801

/-- The BASIC program that starts what follows it, with its end mark. -/
def basicLoader : Bytes :=
  [0x0b, 0x08, 0x0a, 0x00, 0x9e, 0x32, 0x30, 0x36, 0x31, 0x00, 0x00, 0x00]

/-- The port that says which memory is seen. -/
def processorPort : UInt16 := 0x0001

/-- Memory everywhere but in the range of the chips. -/
def memoryAndChips : UInt8 := 0x35

/-- Interrupt control of the first interface chip. -/
def firstInterface : UInt16 := 0xDC0D

/-- Interrupt control of the second interface chip. -/
def secondInterface : UInt16 := 0xDD0D

/-- Screen control of the video chip. -/
def screenControl : UInt16 := 0xD011

/-- The line at which the video chip interrupts. -/
def rasterLine : UInt16 := 0xD012

/-- Where interrupts of the video chip are acknowledged. -/
def videoStatus : UInt16 := 0xD019

/-- Where interrupts of the video chip are enabled. -/
def videoEnable : UInt16 := 0xD01A

/-- Where the address of the handler of interrupts that cannot be masked is found. -/
def nmiVector : UInt16 := 0xFFFA

/-- Where the address of the interrupt handler is found. -/
def irqVector : UInt16 := 0xFFFE

/-! ### Parts -/

/-- The comments at the start of a layout. -/
def heading (t : Tune) (layout : String) : Program :=
  [.comment ("sidsong " ++ layout ++ " layout"),
    .comment (t.bpm.repr ++ " BPM, " ++ t.beatTicks.repr ++ " ticks per beat, voices: "
      ++ String.intercalate ", " (t.tracks.toList.map fun track => Named.name track.role)),
    .blank]

/-- Pushes the three registers. -/
def pushAll : Program :=
  [.code pha .implied, .code txa .implied, .code pha .implied, .code tya .implied,
    .code pha .implied]

/-- Pulls the three registers. -/
def pullAll : Program :=
  [.code pla .implied, .code tay .implied, .code pla .implied, .code tax .implied,
    .code pla .implied]

/-- Stores the address of a label. -/
def putVector (name : String) (vector : UInt16) : Program :=
  [.code lda (.lowOf name), .code sta (.address vector),
    .code lda (.highOf name), .code sta (.address (vector + 1))]

/-! ### Layouts -/

/-- The program that runs by itself: it turns other interrupts off, installs its own, sets the
player up and idles. -/
def standalone (t : Tune) : Program :=
  heading t "standalone"
    ++ [.origin basicStart, .data basicLoader, .blank, .label "start", .code sei .implied]
    ++ put memoryAndChips processorPort
    ++ put 0x7f firstInterface
    ++ [.code sta (.address secondInterface),
      .code lda (.address firstInterface),
      .code lda (.address secondInterface)]
    ++ putVector "irq" irqVector
    ++ putVector "nmi" nmiVector
    ++ put 0x1b screenControl
    ++ put 0x00 rasterLine
    ++ put 0x01 videoEnable
    ++ [.code sta (.address videoStatus),
      .code jsr (.label setupLabel),
      .code cli .implied,
      .label "idle",
      .code jmp (.label "idle"),
      .blank,
      .comment "raster interrupt, once per frame",
      .label "irq"]
    ++ pushAll
    ++ put 0x01 videoStatus
    ++ [.code jsr (.label frameLabel)]
    ++ pullAll
    ++ [.label "nmi", .code rti .implied, .blank]
    ++ shared t

/-- The image with two entry points. -/
def library (t : Tune) : Program :=
  heading t "library"
    ++ [.origin initEntry, .label "init", .code jmp (.label setupLabel), .label "play"]
    ++ pushAll
    ++ [.code jsr (.label frameLabel)]
    ++ pullAll
    ++ [.code rts .implied, .blank]
    ++ shared t

/-- The source texts of both layouts. -/
structure Sources where
  standalone : String
  library : String
  deriving DecidableEq, Repr

/-- The source texts of a tune. -/
def Sources.ofTune (t : Tune) : Sources :=
  ⟨(Player.standalone t).render, (Player.library t).render⟩

end SidTune.Player
