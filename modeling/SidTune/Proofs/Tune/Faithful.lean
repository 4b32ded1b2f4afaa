import Mathlib.Tactic.TFAE
import SidTune.Proofs.Player.Sequencer
import SidTune.Proofs.Song.RoundTrip
import SidTune.Proofs.Tune.Ticks

/-!
# What a tune keeps of a song

Nothing that is heard is lost when a song is made ready for the chip: its tempo and its voices can
be read off the bytes that the player is given. The three note values take different numbers of
ticks at every tempo, no pitch class has the note byte of a rest, and the number of steps tells the
two shapes of a pattern apart.

## Main definitions

* `SidTune.TrackBytes`, `SidTune.Track.bytes`: what the player is given of a track.

## Main results

* `SidTune.stepTicks_injective`: the note values take different numbers of ticks.
* `SidTune.Entry.eq_of_bytes`: the three bytes of an entry determine it.
* `SidTune.Chip.VoiceBytes.ofVoice_inj`: register bytes determine waveform, envelope and pulse
  width.
* `SidTune.Tune.ofSong_faithful`: tunes of accepted songs are equal exactly when the songs have the
  same tempo and the same voices.
-/

namespace SidTune

/-! ### Ticks -/

private theorem beatTicks_bounds (tempo : Tempo) :
    3 ≤ beatTicks tempo.bpm ∧ beatTicks tempo.bpm ≤ 255 := by
  cases tempo <;> decide

/-- Where a beat takes at least three ticks, the note values take different numbers of ticks. -/
theorem stepTicks_injective {bpm : Nat} (h : 3 ≤ beatTicks bpm) :
    Function.Injective (stepTicks bpm) := by
  intro length length' hsame
  cases length <;> cases length' <;>
    simp only [stepTicks, NoteValue.perBeat, roundedQuotient] at hsame <;> first | rfl | omega

private theorem stepTicks_le (bpm : Nat) (length : NoteValue) :
    stepTicks bpm length ≤ beatTicks bpm := by
  rw [← stepTicks_quarter]
  exact stepTicks_le_stepTicks bpm length.perBeat_pos

/-! ### Entries -/

theorem PitchClass.index_injective : Function.Injective PitchClass.index := by
  intro p q hsame
  cases p <;> cases q <;> first | rfl | cases hsame

/-- The note bytes of pitch classes differ from each other and from that of a rest. -/
theorem Entry.note?_eq_of_noteByte {e e' : Entry} (hsame : e.noteByte = e'.noteByte) :
    e.note? = e'.note? := by
  cases hnote : e.note? with
  | none =>
    rw [e.noteByte_eq_restByte.2 hnote, eq_comm, noteByte_eq_restByte] at hsame
    exact hsame.symm
  | some p =>
    cases hnote' : e'.note? with
    | none =>
      rw [e'.noteByte_eq_restByte.2 hnote', noteByte_eq_restByte, hnote] at hsame
      cases hsame
    | some q =>
      have hsame : p.index = q.index := by
        rw [← toNat_noteByte hnote, hsame, toNat_noteByte hnote']
      rw [PitchClass.index_injective hsame]

private theorem Entry.octave_eq_of_octaveByte {e e' : Entry}
    (hsame : e.octaveByte = e'.octaveByte) :
    e.octave = e'.octave := by
  have hnumbers : e.octave.number = e'.octave.number := by
    rw [← toNat_octaveByte, hsame, toNat_octaveByte]
  obtain ⟨note, ⟨number, hlow, hhigh⟩, ticks⟩ := e
  obtain ⟨note', ⟨number', hlow', hhigh'⟩, ticks'⟩ := e'
  cases hnumbers
  rfl

/-- The three bytes of an entry determine it. -/
theorem Entry.eq_of_bytes {e e' : Entry} (hnote : e.noteByte = e'.noteByte)
    (hoctave : e.octaveByte = e'.octaveByte) (hticks : e.ticks = e'.ticks) : e = e' := by
  have hnote := Entry.note?_eq_of_noteByte hnote
  have hoctave := Entry.octave_eq_of_octaveByte hoctave
  obtain ⟨note, octave, ticks⟩ := e
  simp_all

theorem Entry.ofStep_injective (tempo : Tempo) : Function.Injective (Entry.ofStep tempo.bpm) := by
  intro s s' hsame
  obtain ⟨hnote, hoctave, hticks⟩ := Entry.mk.inj hsame
  obtain ⟨hlow, hhigh⟩ := beatTicks_bounds tempo
  have hbound := stepTicks_le tempo.bpm s.length
  have hbound' := stepTicks_le tempo.bpm s'.length
  have hticks := congrArg UInt8.toNat hticks
  simp only [UInt8.toNat_ofNat'] at hticks
  -- The ticks of a step fit a byte, so nothing of them is cut.
  have hlength : s.length = s'.length := stepTicks_injective hlow (by omega)
  obtain ⟨pitch, length⟩ := s
  obtain ⟨pitch', length'⟩ := s'
  dsimp only at hlength hnote hoctave
  subst hlength
  cases pitch with
  | none => cases pitch' with
    | none => rfl
    | some p' => cases hnote
  | some p => cases pitch' with
    | none => cases hnote
    | some p' =>
      obtain ⟨pitchClass, octave⟩ := p
      cases Option.some.inj hnote
      cases hoctave
      rfl

/-! ### Registers -/

namespace Chip

private theorem packed_inj {high low high' low' : Nibble} :
    packed high low = packed high' low' ↔ high = high' ∧ low = low' := by
  constructor
  · intro hsame
    have hsame := congrArg UInt8.toNat hsame
    rw [toNat_packed, toNat_packed] at hsame
    constructor <;> apply Fin.ext <;> omega
  · rintro ⟨rfl, rfl⟩
    rfl

theorem waveBits_injective : Function.Injective waveBits := by
  intro w w' hsame
  cases w <;> cases w' <;> first | rfl | cases hsame

private theorem PulseBytes.eq_of_ofWidth {width width' : UInt16} (h : width.toNat ≤ pulseWidthLimit)
    (h' : width'.toNat ≤ pulseWidthLimit) (hsame : ofWidth width = ofWidth width') :
    width = width' := by
  have htoNat_high (w : UInt16) (h : w.toNat ≤ pulseWidthLimit) :
      (w >>> 8 &&& 0x0F).toUInt8.toNat = w.toNat / 256 := by
    rw [pulseWidthLimit] at h
    simp only [UInt16.toNat_toUInt8, UInt16.toNat_and, UInt16.toNat_shiftRight, UInt16.reduceToNat,
      Nat.reduceMod, Nat.shiftRight_eq_div_pow, Nat.reducePow]
    rw [show 15 = 2 ^ 4 - 1 from rfl, Nat.and_two_pow_sub_one_eq_mod]
    omega
  obtain ⟨hlow, hhigh⟩ := PulseBytes.mk.inj hsame
  have hlow := congrArg UInt8.toNat hlow
  have hhigh := congrArg UInt8.toNat hhigh
  rw [htoNat_high width h, htoNat_high width' h'] at hhigh
  simp only [UInt16.toNat_toUInt8] at hlow
  exact UInt16.toNat_inj.1 (by omega)

/-- The register bytes of a well-formed voice determine waveform, envelope and pulse width. -/
theorem VoiceBytes.ofVoice_inj {v v' : Voice} (h : v.WellFormed) (h' : v'.WellFormed) :
    ofVoice v = ofVoice v' ↔
      v.waveform = v'.waveform ∧ v.envelope = v'.envelope ∧ v.pulseWidth = v'.pulseWidth := by
  constructor
  · intro hsame
    obtain ⟨hattackDecay, hsustainRelease, hwave, hpulse⟩ := VoiceBytes.mk.inj hsame
    have hwaveform := waveBits_injective hwave
    obtain ⟨hattack, hdecay⟩ := packed_inj.1 hattackDecay
    obtain ⟨hsustain, hrelease⟩ := packed_inj.1 hsustainRelease
    have henvelope : v.envelope = v'.envelope := by
      rw [Envelope.mk.injEq]
      exact ⟨hattack, hdecay, hsustain, hrelease⟩
    refine ⟨hwaveform, henvelope, ?_⟩
    by_cases hisPulse : v.waveform = .pulse
    · rw [if_pos hisPulse, if_pos (hwaveform ▸ hisPulse)] at hpulse
      cases hwidth : v.pulseWidth with
      | none =>
        rw [hwidth, Option.map_none, eq_comm, Option.map_eq_none_iff] at hpulse
        exact hpulse.symm
      | some w =>
        rw [hwidth, Option.map_some, eq_comm, Option.map_eq_some_iff] at hpulse
        obtain ⟨w', hwidth', hsame⟩ := hpulse
        rw [hwidth', PulseBytes.eq_of_ofWidth (h.pulseWidth_le w hwidth)
          (h'.pulseWidth_le w' hwidth') hsame.symm]
    · have hnone (v : Voice) (h : v.WellFormed) (hother : v.waveform ≠ .pulse) :
          v.pulseWidth = none :=
        Option.not_isSome_iff_eq_none.1 fun hisSome => hother (h.pulseWidth_isSome.1 hisSome)
      rw [hnone v h hisPulse, hnone v' h' (hwaveform ▸ hisPulse)]
  · rintro ⟨hwaveform, henvelope, hpulseWidth⟩
    simp only [ofVoice, hwaveform, henvelope, hpulseWidth]

end Chip

/-! ### Patterns -/

/-- The number of steps tells the two shapes of a well-formed pattern apart, so that the steps
determine it. -/
theorem Pattern.WellFormed.eq_of_steps {p p' : Pattern} (h : p.WellFormed) (h' : p'.WellFormed)
    (hsame : p.steps = p'.steps) : p = p' := by
  have hlengths := congrArg List.length hsame
  rw [h.length_steps, h'.length_steps] at hlengths
  cases p with
  | flat steps =>
    cases p' with
    | flat steps' => exact congrArg Pattern.flat hsame
    | sections =>
      have := h.1
      simp only [Pattern.nominalLength, sectionSize, minSteps] at hlengths this
      omega
  | sections intro development cadence =>
    cases p' with
    | flat =>
      have := h'.1
      simp only [Pattern.nominalLength, sectionSize, minSteps] at hlengths this
      omega
    | sections intro' development' cadence' =>
      obtain ⟨hfirst, hsecond, hthird⟩ := h
      obtain ⟨hfirst', hsecond', hthird'⟩ := h'
      obtain ⟨hfront, rfl⟩ := List.append_inj hsame (by simp [hfirst, hsecond, hfirst', hsecond'])
      obtain ⟨rfl, rfl⟩ := List.append_inj hfront (hfirst.trans hfirst'.symm)
      rfl

/-- The table of at most 192 steps determines them. -/
theorem eq_of_entriesOf {tempo : Tempo} {steps steps' : List Step}
    (h : steps.length ≤ maxEntries) (h' : steps'.length ≤ maxEntries)
    (hsame : entriesOf tempo.bpm steps = entriesOf tempo.bpm steps') : steps = steps' := by
  rw [entriesOf, entriesOf, List.take_of_length_le h, List.take_of_length_le h'] at hsame
  exact (Entry.ofStep_injective tempo).list_map hsame

/-! ### Tracks -/

/-- What the player is given of a track: its tables byte by byte, its register bytes, and what it
asks of the filter. -/
structure TrackBytes where
  role : Role
  notes : Bytes
  octaves : Bytes
  ticks : Bytes
  registers : Chip.VoiceBytes
  filter : FilterWish

/-- What the player is given of a track. -/
def Track.bytes (t : Track) : TrackBytes :=
  ⟨t.role, t.noteColumn, t.octaveColumn, t.tickColumn, t.registers, t.filter⟩

theorem Entry.eq_of_columns {l l' : List Entry} (hnotes : l.map noteByte = l'.map noteByte)
    (hoctaves : l.map octaveByte = l'.map octaveByte)
    (hticks : l.map Entry.ticks = l'.map Entry.ticks) : l = l' := by
  induction l generalizing l' with
  | nil => exact (List.map_eq_nil_iff.1 hnotes.symm).symm
  | cons e rest ih =>
    cases l' with
    | nil => cases hnotes
    | cons e' rest' =>
      obtain ⟨hnote, hnotes⟩ := List.cons.inj hnotes
      obtain ⟨hoctave, hoctaves⟩ := List.cons.inj hoctaves
      obtain ⟨htick, hticks⟩ := List.cons.inj hticks
      rw [Entry.eq_of_bytes hnote hoctave htick, ih hnotes hoctaves hticks]

theorem Track.bytes_injective : Function.Injective Track.bytes := by
  intro t t' hsame
  obtain ⟨hrole, hnotes, hoctaves, hticks, hregisters, hfilter⟩ := TrackBytes.mk.inj hsame
  rw [Track.mk.injEq]
  exact ⟨hrole, Entry.eq_of_columns hnotes hoctaves hticks, hregisters, hfilter⟩

theorem Voice.eq_of_track {tempo : Tempo} {v v' : Voice} (h : v.WellFormed) (h' : v'.WellFormed)
    (hsame : Track.ofVoice tempo.bpm v = Track.ofVoice tempo.bpm v') : v = v' := by
  obtain ⟨hrole, hentries, hregisters, hfilter⟩ := Track.mk.inj hsame
  obtain ⟨hwaveform, henvelope, hpulseWidth⟩ := (Chip.VoiceBytes.ofVoice_inj h h').1 hregisters
  have hsteps : v.steps = v'.steps :=
    eq_of_entriesOf h.pattern.length_bounds.2 h'.pattern.length_bounds.2 hentries
  rw [Voice.mk.injEq]
  exact ⟨hrole, hwaveform, henvelope, hpulseWidth, hfilter, h.pattern.eq_of_steps h'.pattern hsteps⟩

/-! ### Tunes -/

namespace Tune

/-- **Nothing that is heard is lost.** Of two accepted songs the tunes are equal, or what the player
is given of them, exactly when they have the same tempo and the same voices: they differ in key,
scale and texts at most. -/
theorem ofSong_faithful {document document' : Json} {s s' : Song}
    (h : Song.ofJson document = .ok s) (h' : Song.ofJson document' = .ok s') :
    [Tune.ofSong s = Tune.ofSong s',
      (Tune.ofSong s).bpm = (Tune.ofSong s').bpm ∧
        (Tune.ofSong s).tracks.map Track.bytes = (Tune.ofSong s').tracks.map Track.bytes,
      s.tempo = s'.tempo ∧ s.voices = s'.voices,
      ∃ key scale title author released, s' = { s with key, scale, title, author, released }].TFAE
    := by
  have hwellFormed := Song.wellFormed_of_ofJson h
  have hwellFormed' := Song.wellFormed_of_ofJson h'
  tfae_have 1 → 2 := fun hsame => by rw [hsame]; exact ⟨rfl, rfl⟩
  tfae_have 2 → 3 := by
    rintro ⟨hbpm, htracks⟩
    have htempo : s.tempo = s'.tempo := Tempo.bpm_inj.1 hbpm
    have hvoice {v v' : Voice} (hmem : v ∈ s.voices.toList) (hmem' : v' ∈ s'.voices.toList)
        (hsame : (Track.ofVoice s.tempo.bpm v).bytes = (Track.ofVoice s'.tempo.bpm v').bytes) :
        v = v' :=
      Voice.eq_of_track (hwellFormed.voices v hmem) (hwellFormed'.voices v' hmem')
        (Track.bytes_injective (htempo ▸ hsame))
    obtain ⟨hfirst, hsecond, hthird⟩ := Trio.mk.inj htracks
    refine ⟨htempo, ?_⟩
    rw [Trio.mk.injEq]
    exact ⟨hvoice (by simp [Trio.toList]) (by simp [Trio.toList]) hfirst,
      hvoice (by simp [Trio.toList]) (by simp [Trio.toList]) hsecond,
      hvoice (by simp [Trio.toList]) (by simp [Trio.toList]) hthird⟩
  tfae_have 3 → 4 := by
    rintro ⟨htempo, hvoices⟩
    exact ⟨s'.key, s'.scale, s'.title, s'.author, s'.released, by rw [htempo, hvoices]⟩
  tfae_have 4 → 1 := by
    rintro ⟨key, scale, title, author, released, rfl⟩
    rfl
  tfae_finish

/-- The sample song in another key and under a title. -/
def retitled : Song :=
  { sampleSong with key := .c, title := "again" }

theorem ofJson_retitled : Song.ofJson retitled.toJson.ordered = .ok retitled :=
  have hwellFormed := Song.wellFormed_of_ofJson ofJson_sampleSong
  Song.ofJson_eq_ok.2 ⟨retitled.givenBy_toJson, hwellFormed.roles, hwellFormed.voices⟩

theorem ofSong_faithful_retitled : Song.ofJson sampleSong.toJson = .ok sampleSong ∧
    Song.ofJson retitled.toJson.ordered = .ok retitled ∧
      Tune.ofSong sampleSong = Tune.ofSong retitled := by
  have hsame : Tune.ofSong sampleSong = Tune.ofSong retitled ↔
      sampleSong.tempo = retitled.tempo ∧ sampleSong.voices = retitled.voices :=
    (ofSong_faithful ofJson_sampleSong ofJson_retitled).out 0 2
  exact ⟨ofJson_sampleSong, ofJson_retitled, hsame.2 ⟨rfl, rfl⟩⟩

end Tune

end SidTune
