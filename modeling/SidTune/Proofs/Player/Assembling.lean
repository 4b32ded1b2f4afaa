import SidTune.Proofs.Assembly.Layout
import SidTune.Proofs.Player.Layout

/-!
# Both layouts are assembled

Every routine of the player branches to labels of its own, and is small. So both layouts of every
accepted song are assembled, and each label is where it is said to be.

## Main results

* `SidTune.Player.sound_libraryBody`, `SidTune.Player.sound_standaloneBody`: the bodies of both
  layouts can be assembled.
* `SidTune.Player.programs_laidOut`: both programs of an accepted song are laid out.
-/

namespace SidTune.Player

open Assembly Assembly.Mnemonic

/-! ### Instructions that exist -/

theorem isInert_tables (t : Tune) : (tables t).isInert := by
  have htable (name : String) (bytes : Bytes) : (table name bytes).isInert := rfl
  simp only [tables, voiceTables, voiceState, Trio.toList, List.mapIdx_cons, List.mapIdx_nil,
    List.flatten_cons, List.flatten_nil, Program.isInert_append, htable]
  rfl

theorem isPossible_put (value : UInt8) (addr : UInt16) :
    Program.isPossible (put value addr) := by
  simp only [put, Program.isPossible, List.all_cons, List.all_nil, Item.isPossible,
    Mnemonic.takes, Mnemonic.mode]
  split <;> rfl

private theorem isPossible_putPulse (voice : Nat) (pulse : Option Chip.PulseBytes) :
    (putPulse voice pulse).isPossible := by
  cases pulse with
  | none => rfl
  | some pulse => simp only [putPulse, Program.isPossible_append, isPossible_put, Bool.and_self]

private theorem isPossible_setupVoice (voice : Nat) (track : Track) :
    (setupVoice voice track).isPossible := by
  simp only [setupVoice, Program.isPossible_append, isPossible_put, isPossible_putPulse]
  rfl

private theorem isPossible_setup (t : Tune) : (setup t).isPossible := by
  simp only [setup, Program.isPossible_append, isPossible_put, Trio.toList, List.mapIdx_cons,
    List.mapIdx_nil, List.flatten_cons, List.flatten_nil, isPossible_setupVoice]
  rfl

/-- All instructions of the player exist. -/
theorem isPossible_shared (t : Tune) : (shared t).isPossible := by
  simp only [shared_eq, Program.isPossible_append, isPossible_setup,
    (Program.of_isInert (isInert_tables t)).1]
  rfl

/-! ### Labels that are named -/

private theorem operandNames_putPulse (voice : Nat) (pulse : Option Chip.PulseBytes) :
    (putPulse voice pulse).operandNames = [] := by
  cases pulse <;> rfl

private theorem operandNames_setupVoice (voice : Nat) (track : Track) :
    (setupVoice voice track).operandNames = [labelOf voice "step", labelOf voice "advance"] := by
  simp only [setupVoice, Program.operandNames_append, operandNames_putPulse]
  rfl

private theorem operandNames_setup (t : Tune) : (setup t).operandNames =
    ["init_clear", "volume"] ++
      [0, 1, 2].flatMap fun voice => ["step", "advance"].map (labelOf voice) := by
  simp only [setup, Program.operandNames_append, Trio.toList, List.mapIdx_cons, List.mapIdx_nil,
    List.flatten_cons, List.flatten_nil, operandNames_setupVoice]
  rfl

/-- The labels that the routine of a voice names. -/
def namedByStep (voice : Nat) : List String :=
  let label := labelOf voice
  [label "step", label "notes", label "timing", label "octaves", "octave_offset", "freq_lo",
    "freq_hi", label "ticks", label "timer", label "store", label "step"]

private theorem operandNames_nextStep (voice : Nat) (track : Track) :
    (nextStep voice track).operandNames = namedByStep voice := rfl

/-- All labels that the player names are its own. -/
theorem operandNames_shared (t : Tune) : (shared t).operandNames ⊆ playerNames := by
  have hframe_eq : (frame t).operandNames = ["volume", "tick_volume", "volume", "volume"] ++
      [0, 1, 2].flatMap fun voice =>
        [labelOf voice "timer", afterVoice voice, labelOf voice "advance"] := rfl
  have htables_eq := (Program.of_isInert (isInert_tables t)).2.1
  simp only [shared_eq, Program.operandNames_append, operandNames_setup, hframe_eq,
    operandNames_nextStep, htables_eq]
  decide

/-! ### Branches -/

private theorem targets_setupVoice (voice : Nat) (track : Track) :
    (setupVoice voice track).targets = [] := by
  have hpulse : (putPulse voice track.registers.pulse?).targets = [] := by
    cases track.registers.pulse? <;> rfl
  simp only [setupVoice, Program.targets_append, hpulse]
  rfl

/-- The routine that sets everything up branches at its start only. -/
theorem near_setup (t : Tune) : (setup t).Near := by
  simp only [setup, List.append_assoc, Trio.toList, List.mapIdx_cons, List.mapIdx_nil,
    List.flatten_cons, List.flatten_nil]
  refine (Program.near_of_small ?_ ?_).append (Program.near_of_targets_nil ?_)
  · decide
  · decide
  simp only [Program.targets_append, targets_setupVoice]
  rfl

private theorem near_frame (t : Tune) : (frame t).Near := by
  refine Program.near_of_small ?_ ?_
  · exact (totalSize_le_of_isCode (p := frame t) rfl).trans (Nat.le_of_ble_eq_true rfl)
  · have htargets_eq : (frame t).targets = ["tick_volume", "tick_v1", "tick_v2", "tick_done"] := rfl
    rw [htargets_eq, labelNames_frame]
    decide

private theorem near_nextStep (voice : Nat) (track : Track) : (nextStep voice track).Near := by
  refine Program.near_of_small ?_ ?_
  · exact (totalSize_le_of_isCode (p := nextStep voice track) rfl).trans
      (Nat.le_of_ble_eq_true rfl)
  · have htargets_eq : (nextStep voice track).targets =
        ["timing", "store"].map (labelOf voice) := rfl
    rw [htargets_eq, labelNames_nextStep]
    exact List.map_subset _ (by decide)

private theorem near_shared (t : Tune) : (shared t).Near := by
  rw [shared_eq]
  exact (near_setup t).append ((near_frame t).append ((near_nextStep 0 _).append
    ((near_nextStep 1 _).append ((near_nextStep 2 _).append
      (Program.near_of_targets_nil (Program.of_isInert (isInert_tables t)).2.2)))))

/-! ### Both layouts -/

/-- A body with code of its own before the player can be assembled. -/
theorem sound_of_front (t : Tune) (front : Program) (hpossible : front.isPossible)
    (hclosed : front.operandNames ⊆ front.labelNames ++ playerNames)
    (hstraight : front.targets = []) :
    Program.Sound (front ++ shared t) where
  possible := by rw [Program.isPossible_append, hpossible, isPossible_shared, Bool.and_self]
  closed := by
    rw [Program.operandNames_append, Program.labelNames_append, labelNames_shared]
    exact List.append_subset.2
      ⟨hclosed, List.subset_append_of_subset_right _ (operandNames_shared t)⟩
  near := (Program.near_of_targets_nil hstraight).append (near_shared t)

theorem sound_libraryBody (t : Tune) : (libraryBody t).Sound :=
  sound_of_front t entries rfl (by decide) rfl

theorem sound_standaloneBody (t : Tune) : (standaloneBody t).Sound :=
  sound_of_front t launcher rfl (by decide) rfl

theorem exists_laidOut_library {t : Tune} (hplayable : t.Playable) :
    ∃ image, (library t).LaidOut 0x1000 image := by
  have hlinked := (carries_library hplayable).toLinked
  rw [library_eq] at hlinked ⊢
  exact Program.exists_laidOut rfl hlinked (sound_libraryBody t)

theorem exists_laidOut_standalone {t : Tune} (hplayable : t.Playable) :
    ∃ image, (standalone t).LaidOut 0x0801 image := by
  have hlinked := (carries_standalone hplayable).toLinked
  rw [standalone_eq] at hlinked ⊢
  exact Program.exists_laidOut rfl hlinked (sound_standaloneBody t)

/-- The bytes that hold the length of a track and its first step hold all of both. -/
theorem uncut_of_playable {track : Track} (h : track.Playable) :
    (UInt8.ofNat track.length).toNat = track.length ∧
      (UInt8.ofNat track.start).toNat = track.start := by
  have := h.start_lt
  have := h.length_le
  rw [maxEntries] at this
  simp only [UInt8.toNat_ofNat']
  omega

/-- **Layout.** Both programs of an accepted song are assembled, and laid out as their labels say,
and no length or step is cut when it is stored in a byte. -/
theorem programs_laidOut {document : Json} {s : Song} (h : Song.ofJson document = .ok s) :
    (∃ image, (standalone (Tune.ofSong s)).LaidOut 0x0801 image) ∧
      (∃ image, (library (Tune.ofSong s)).LaidOut 0x1000 image) ∧
      ∀ track ∈ (Tune.ofSong s).tracks.toList,
        (UInt8.ofNat track.length).toNat = track.length ∧
          (UInt8.ofNat track.start).toNat = track.start := by
  have hplayable := Tune.playable_ofJson h
  exact ⟨exists_laidOut_standalone hplayable, exists_laidOut_library hplayable,
    fun track hmem => uncut_of_playable (hplayable track hmem)⟩

theorem programs_laidOut_sampleSong : Song.ofJson sampleSong.toJson = .ok sampleSong ∧
    (∃ image, (standalone (Tune.ofSong sampleSong)).LaidOut 0x0801 image) ∧
      (∃ image, (library (Tune.ofSong sampleSong)).LaidOut 0x1000 image) ∧
      ∀ track ∈ (Tune.ofSong sampleSong).tracks.toList,
        (UInt8.ofNat track.length).toNat = track.length ∧
          (UInt8.ofNat track.start).toNat = track.start :=
  ⟨ofJson_sampleSong, programs_laidOut ofJson_sampleSong⟩

end SidTune.Player
