import SidTune.Player.Programs
import SidTune.Proofs.Player.Sequencer
import SidTune.Proofs.Processor.Block

/-!
# Where the player is

Both layouts end in the same player, placed between page two and the chips, and all their labels
are different. So every routine and every table of the player can be found in either of them.

## Main definitions

* `SidTune.Player.libraryBody`, `SidTune.Player.standaloneBody`: what follows the origin.
* `SidTune.Player.Carries`: a program whose last part is the player of a tune.

## Main results

* `SidTune.Player.carries_library`, `SidTune.Player.carries_standalone`: both layouts do.
-/

namespace SidTune.Player

open Assembly Assembly.Mnemonic Processor

/-! ### Bodies -/

/-- The entry points of the library. -/
def entries : Program :=
  .label "init" :: .code jmp (.label setupLabel) :: .label "play" ::
    (pushAll ++ .code jsr (.label frameLabel) :: (pullAll ++ [.code rts .implied, .blank]))

/-- The code that installs the interrupt handlers of the standalone program. -/
def installation : Program :=
  .code sei .implied :: (put memoryAndChips processorPort ++ put 0x7f firstInterface
    ++ .code sta (.address secondInterface) :: .code lda (.address firstInterface)
      :: .code lda (.address secondInterface) :: (putVector "irq" irqVector
    ++ putVector "nmi" nmiVector ++ put 0x1b screenControl ++ put 0x00 rasterLine
    ++ put 0x01 videoEnable ++ [.code sta (.address videoStatus)]))

/-- The code that sets the player up and idles. -/
def idling : Program :=
  [.code jsr (.label setupLabel), .code cli .implied, .label "idle", .code jmp (.label "idle"),
    .blank, .comment "raster interrupt, once per frame"]

/-- The interrupt handlers of the standalone program. -/
def handlers : Program :=
  .label "irq" :: (pushAll ++ put 0x01 videoStatus
    ++ .code jsr (.label frameLabel) :: (pullAll ++ [.label "nmi", .code rti .implied, .blank]))

/-- What follows the origin of the library. -/
def libraryBody (t : Tune) : Program :=
  entries ++ shared t

/-- What follows the origin of the standalone program. -/
def standaloneBody (t : Tune) : Program :=
  .data basicLoader :: .blank :: .label "start" :: (installation ++ idling ++ handlers ++ shared t)

/-- What comes before the player after the origin of the standalone program. -/
def launcher : Program :=
  .data basicLoader :: .blank :: .label "start" :: (installation ++ idling ++ handlers)

theorem standaloneBody_eq (t : Tune) : standaloneBody t = launcher ++ shared t := rfl

theorem library_eq (t : Tune) :
    library t = heading t "library" ++ .origin initEntry :: libraryBody t := by
  unfold library libraryBody entries
  simp only [List.append_assoc, List.cons_append, List.nil_append]

theorem standalone_eq (t : Tune) :
    standalone t = heading t "standalone" ++ .origin basicStart :: standaloneBody t := by
  unfold standalone standaloneBody installation idling handlers
  simp only [List.append_assoc, List.cons_append, List.nil_append]

private theorem placed_heading (t : Tune) (layout : String) (start : UInt16) (body : Program) :
    (heading t layout ++ .origin start :: body : Program).placed 0 = body.placed start := rfl

/-! ### Labels -/

/-- The labels of the player in order. -/
def playerNames : List String :=
  [setupLabel, "init_clear", frameLabel, "tick_volume", "tick_v1", "tick_v2", "tick_done"]
    ++ [0, 1, 2].flatMap (fun v => ["advance", "timing", "store"].map (labelOf v))
    ++ ["octave_offset", "freq_lo", "freq_hi"]
    ++ [0, 1, 2].flatMap (fun v => ["notes", "octaves", "ticks"].map (labelOf v))
    ++ ["volume"] ++ [0, 1, 2].flatMap (fun v => ["step", "timer"].map (labelOf v))

private theorem labelNames_putPulse (voice : Nat) (pulse : Option Chip.PulseBytes) :
    (putPulse voice pulse).labelNames = [] := by
  cases pulse <;> rfl

theorem labelNames_nextStep (voice : Nat) (track : Track) :
    (nextStep voice track).labelNames = ["advance", "timing", "store"].map (labelOf voice) := rfl

private theorem labelNames_setup (t : Tune) :
    (setup t).labelNames = [setupLabel, "init_clear"] := by
  simp only [setup, setupVoice, Program.labelNames_append, Trio.toList, List.mapIdx_cons,
    List.mapIdx_nil, List.flatten_cons, List.flatten_nil, labelNames_putPulse]
  rfl

theorem labelNames_frame (t : Tune) : (frame t).labelNames =
    [frameLabel, "tick_volume", "tick_v1", "tick_v2", "tick_done"] := rfl

theorem shared_eq (t : Tune) : shared t = setup t ++ (frame t ++ (nextStep 0 t.tracks.first ++
    (nextStep 1 t.tracks.second ++ (nextStep 2 t.tracks.third ++ tables t)))) := by
  simp [shared, Trio.toList, List.mapIdx_cons]

theorem labelNames_shared (t : Tune) : (shared t).labelNames = playerNames := by
  simp only [shared_eq, Program.labelNames_append, labelNames_setup, labelNames_frame,
    labelNames_nextStep]
  rfl

/-! ### Sizes -/

private theorem width_le_three (op : Mnemonic) (operand : Operand) : op.width operand ≤ 3 := by
  cases operand <;> simp only [Mnemonic.width] <;> (try split) <;> omega

/-- Whether a program is neither data nor origin anywhere. -/
def isCode (p : Program) : Bool :=
  p.all fun
    | .origin _ | .data _ => false
    | _ => true

@[simp] theorem isCode_append (p q : Program) : isCode (p ++ q) = (isCode p && isCode q) :=
  List.all_append

private theorem isPlain_of_isCode {p : Program} (h : isCode p) : p.isPlain := by
  rw [isCode, List.all_eq_true] at h
  rw [Program.isPlain, List.all_eq_true]
  intro item hitem
  have := h item hitem
  cases item <;> simp_all [Program.itemIsPlain]

/-- Code takes at most three bytes an item. -/
theorem totalSize_le_of_isCode {p : Program} (h : isCode p) : p.totalSize ≤ 3 * p.length := by
  induction p with
  | nil => simp [Program.totalSize]
  | cons item rest ih =>
    simp only [isCode, List.all_cons, Bool.and_eq_true] at h ih
    have hsize : item.size ≤ 3 := by
      cases item with
      | code op operand => exact width_le_three op operand
      | data | origin => simp at h
      | _ => simp [Item.size]
    have := ih h.2
    simp only [Program.totalSize, List.length_cons]
    omega

/-- The routines of the player. -/
def routines (t : Tune) : Program :=
  setup t ++ (frame t ++ (nextStep 0 t.tracks.first ++ (nextStep 1 t.tracks.second ++
    nextStep 2 t.tracks.third)))

theorem shared_eq_append (t : Tune) : shared t = routines t ++ tables t := by
  simp [shared_eq, routines]

private theorem isCode_putPulse (voice : Nat) (pulse : Option Chip.PulseBytes) :
    isCode (putPulse voice pulse) := by
  cases pulse <;> rfl

private theorem length_putPulse (voice : Nat) (pulse : Option Chip.PulseBytes) :
    (putPulse voice pulse).length ≤ 4 := by
  cases pulse <;> simp [putPulse, put]

private theorem isCode_setupVoice (voice : Nat) (track : Track) :
    isCode (setupVoice voice track) := by
  simp only [setupVoice, isCode_append, isCode_putPulse]
  rfl

private theorem length_setupVoice (voice : Nat) (track : Track) :
    (setupVoice voice track).length ≤ 11 := by
  have := length_putPulse voice track.registers.pulse?
  simp only [setupVoice, put, List.length_append, List.length_cons, List.length_nil]
  omega

theorem isCode_routines (t : Tune) : isCode (routines t) := by
  simp only [routines, setup, isCode_append, Trio.toList, List.mapIdx_cons, List.mapIdx_nil,
    List.flatten_cons, List.flatten_nil, isCode_setupVoice]
  rfl

private theorem totalSize_routines_le (t : Tune) : (routines t).totalSize ≤ 600 := by
  have := length_setupVoice 0 t.tracks.first
  have := length_setupVoice 1 t.tracks.second
  have := length_setupVoice 2 t.tracks.third
  refine (totalSize_le_of_isCode (isCode_routines t)).trans ?_
  simp only [routines, setup, frame, nextStep, put, countDown, Trio.toList, List.mapIdx_cons,
    List.mapIdx_nil, List.flatten_cons, List.flatten_nil, List.length_append, List.length_cons,
    List.length_nil, Nat.zero_add, Nat.reduceAdd]
  omega

private theorem totalSize_tables_le {t : Tune} (h : t.Short) : (tables t).totalSize ≤ 1837 := by
  obtain ⟨hfirst, hsecond, hthird⟩ := h.lengths
  simp only [tables, table, voiceTables, voiceState, Trio.toList, List.mapIdx_cons, List.mapIdx_nil,
    List.flatten_cons, List.flatten_nil, Program.totalSize_append, Program.totalSize, Item.size,
    wordLowBytes, wordHighBytes, Track.noteColumn, Track.octaveColumn, Track.tickColumn,
    List.length_map, length_wordTable, octaveStarts, List.length_cons, List.length_nil]
  omega

private theorem isPlain_tables {t : Tune} (h : t.Short) : (tables t).isPlain := by
  obtain ⟨hfirst, hsecond, hthird⟩ := h.lengths
  simp [tables, table, voiceTables, voiceState, Trio.toList, Program.isPlain, Program.itemIsPlain,
    wordLowBytes, wordHighBytes, Track.noteColumn, Track.octaveColumn, Track.tickColumn,
    length_wordTable, octaveStarts]
  omega

/-- The player of a tune with short tracks is small. -/
theorem totalSize_shared_le {t : Tune} (h : t.Short) : (shared t).totalSize ≤ 2437 := by
  rw [shared_eq_append, Program.totalSize_append]
  exact Nat.add_le_add (totalSize_routines_le t) (totalSize_tables_le h)

theorem isPlain_shared {t : Tune} (h : t.Short) : (shared t).isPlain := by
  rw [shared_eq_append, Program.isPlain_append, isPlain_of_isCode (isCode_routines t),
    isPlain_tables h, Bool.and_self]

/-! ### Programs with the player -/

/-- A program whose last part is the player of a tune. -/
structure Carries (p : Program) (start : UInt16) (body : Program) (t : Tune) : Prop
    extends Linked p start body where
  shared_suffix : shared t <:+ body

/-- A program of remarks, an origin, code of its own and the player carries the player. -/
theorem carries_of_front {t : Tune} (ht : t.Playable) (layout : String) {start : UInt16}
    {front : Program} (hplain : front.isPlain) (hnames : (front.labelNames ++ playerNames).Nodup)
    (habove : 0x0200 ≤ start.toNat) (hbelow : start.toNat + front.totalSize ≤ 0xC000) :
    Carries (heading t layout ++ .origin start :: (front ++ shared t)) start (front ++ shared t) t
    where
  placed_eq := placed_heading t layout start _
  isPlain := by
    rw [Program.isPlain_append, hplain, isPlain_shared ht.short, Bool.and_self]
  nodup := by rwa [Program.labelNames_append, labelNames_shared]
  above := habove
  below := by
    have := totalSize_shared_le ht.short
    rw [Program.totalSize_append]
    omega
  shared_suffix := List.suffix_append _ _

/-- The library carries the player. -/
theorem carries_library {t : Tune} (ht : t.Playable) :
    Carries (library t) 0x1000 (libraryBody t) t := by
  rw [library_eq, libraryBody]
  exact carries_of_front ht _ rfl (by decide) (by decide) (by decide)

/-- The standalone program carries the player. -/
theorem carries_standalone {t : Tune} (ht : t.Playable) :
    Carries (standalone t) 0x0801 (standaloneBody t) t := by
  rw [standalone_eq, standaloneBody_eq]
  exact carries_of_front ht _ rfl (by decide) (by decide) (by decide)

end SidTune.Player
