import Mathlib.Order.Bounds.Basic
import SidTune.Proofs.Player.Sequencer

/-!
# The tables of a voice

The tables of a track are parallel: notes, octaves and ticks have an entry for each step that is
kept, and entry by entry they tell what the step is. Steps beyond the 192nd are cut, so that the
first pitch may be beyond the cut; playing then starts with the first step. Patterns of accepted
songs are kept in full.

## Main definitions

* `SidTune.Entry.Tells`: what stands in the tables for a step.
* `SidTune.Track.notes`, `SidTune.keptPitches`: the notes of a track, and where the steps that are
  kept have a pitch.
* `SidTune.Track.Tabulates`: the tables of a track tell a list of steps.
* `SidTune.Track.Whole`: the tables of a track are as long as a pattern.

## Main results

* `SidTune.Track.tabulates_ofVoice`: the tables of the track of a voice tell its steps.
* `SidTune.Track.whole_ofVoice`: those of a well-formed voice tell all of them.
* `SidTune.Tune.tabulated`: both, and that the two shapes of a pattern make no difference, for the
  tunes of accepted songs.
-/

namespace SidTune

/-! ### Entries -/

namespace Entry

/-- What stands in the tables for a step: its pitch class and the byte of it, its octave, which is
the lowest for a rest, and its ticks as far as a byte counts. -/
structure Tells (bpm : Nat) (s : Step) (note? : Option PitchClass)
    (noteByte octaveByte tickByte : UInt8) : Prop where
  note : note? = s.pitch?.map Pitch.pitchClass
  rest : noteByte = 255 ↔ s.pitch? = none
  pitched : ∀ p ∈ s.pitch?, noteByte.toNat = p.pitchClass.index ∧ noteByte.toNat < 12
  octave : octaveByte.toNat = (s.pitch?.map fun p => p.octave.number).getD 2
  octave_bounds : 2 ≤ octaveByte.toNat ∧ octaveByte.toNat ≤ 5
  ticks : tickByte.toNat = min 255 (stepTicks bpm s.length)
  ticks_pos : 1 ≤ tickByte.toNat

/-- The entry of a step tells it. -/
theorem tells_ofStep (bpm : Nat) (s : Step) :
    Tells bpm s (ofStep bpm s).note? (ofStep bpm s).noteByte (ofStep bpm s).octaveByte
      (ofStep bpm s).ticks where
  note := rfl
  rest := (noteByte_eq_restByte _).trans Option.map_eq_none_iff
  pitched p hp := by
    have hnote : (ofStep bpm s).note? = some p.pitchClass := Option.mem_map_of_mem _ hp
    rw [toNat_noteByte hnote]
    exact ⟨rfl, p.pitchClass.index_lt⟩
  octave := by
    rw [toNat_octaveByte, ofStep]
    cases s.pitch? <;> rfl
  octave_bounds := by
    rw [toNat_octaveByte]
    exact ⟨Octave.two_le _, Octave.le_five _⟩
  ticks := by
    rw [ofStep, UInt8.toNat_ofNat']
    omega
  ticks_pos := ticks_pos bpm s

end Entry

/-! ### The first pitch -/

/-- Where the steps that a table keeps have a pitch. -/
def keptPitches (steps : List Step) : Set Nat :=
  {i | i < 192 ∧ ∃ s ∈ steps[i]?, s.pitch? ≠ none}

/-- Where the entries of a table sound. -/
def audibleEntries (entries : List Entry) : Set Nat :=
  {i | ∃ e ∈ entries[i]?, Entry.isAudible e}

/-- The first entry that sounds is the least index of one, and zero if there is none. -/
theorem isLeast_firstAudible (entries : List Entry) :
    IsLeast (audibleEntries entries) (firstAudible entries) ∨
      audibleEntries entries = ∅ ∧ firstAudible entries = 0 := by
  rw [firstAudible]
  cases hfound : entries.findIdx? Entry.isAudible with
  | none =>
    rw [List.findIdx?_eq_none_iff] at hfound
    refine .inr ⟨Set.eq_empty_of_forall_notMem fun i => ?_, rfl⟩
    rintro ⟨e, he, haudible⟩
    exact Bool.eq_false_iff.1 (hfound e (List.mem_of_getElem? (Option.mem_def.1 he))) haudible
  | some first =>
    obtain ⟨hinside, haudible, hbefore⟩ := List.findIdx?_eq_some_iff_getElem.1 hfound
    refine .inl ⟨⟨_, List.getElem?_eq_getElem hinside, haudible⟩, ?_⟩
    rintro i ⟨e, he, hsounds⟩
    obtain ⟨hthere, rfl⟩ := List.getElem?_eq_some_iff.1 he
    exact Nat.le_of_not_lt fun hearlier => hbefore i hearlier hsounds

theorem getElem?_entriesOf (bpm : Nat) {steps : List Step} {i : Nat} (hkept : i < maxEntries) :
    (entriesOf bpm steps)[i]? = steps[i]?.map (Entry.ofStep bpm) := by
  rw [entriesOf, List.getElem?_map, List.getElem?_take_of_lt hkept]

private theorem Entry.isAudible_ofStep (bpm : Nat) (s : Step) :
    (ofStep bpm s).isAudible = true ↔ s.pitch? ≠ none := by
  rw [isAudible, ofStep, Option.isSome_map, Option.isSome_iff_ne_none]

/-- Entries sound where the steps that are kept have a pitch. -/
theorem audibleEntries_entriesOf (bpm : Nat) (steps : List Step) :
    audibleEntries (entriesOf bpm steps) = keptPitches steps := by
  ext i
  constructor
  · rintro ⟨e, he, haudible⟩
    obtain ⟨hinside, -⟩ := List.getElem?_eq_some_iff.1 he
    rw [length_entriesOf] at hinside
    have hkept : i < maxEntries := Nat.lt_of_lt_of_le hinside (Nat.min_le_right ..)
    rw [getElem?_entriesOf bpm hkept] at he
    obtain ⟨s, hs, rfl⟩ := Option.mem_map.1 he
    exact ⟨hkept, s, hs, (Entry.isAudible_ofStep bpm s).1 haudible⟩
  · rintro ⟨hkept, s, hs, hpitched⟩
    refine ⟨Entry.ofStep bpm s, ?_, (Entry.isAudible_ofStep bpm s).2 hpitched⟩
    rw [getElem?_entriesOf bpm hkept]
    exact Option.mem_map_of_mem _ hs

/-- A pitch beyond the cut is not found. -/
example : firstAudible (entriesOf 120
    (List.replicate 192 ⟨none, .quarter⟩ ++ [⟨some ⟨.c, .lowest⟩, .quarter⟩])) = 0 := by
  decide +kernel

/-! ### Tables -/

namespace Track

/-- The notes of a track: pitch classes, and none for rests. -/
def notes (t : Track) : List (Option PitchClass) :=
  t.entries.map Entry.note?

/-- The tables of a track tell the steps that they keep, entry by entry, and playing starts with the
first pitch among them, or with the first step if all of them are rests. -/
structure Tabulates (bpm : Nat) (steps : List Step) (t : Track) : Prop where
  length_notes : t.notes.length = min steps.length 192
  length_noteColumn : t.noteColumn.length = min steps.length 192
  length_octaveColumn : t.octaveColumn.length = min steps.length 192
  length_tickColumn : t.tickColumn.length = min steps.length 192
  tells {i : Nat} {s : Step} (kept : i < 192) (h : steps[i]? = some s) :
    ∃ note? noteByte octaveByte tickByte,
      t.notes[i]? = some note? ∧ t.noteColumn[i]? = some noteByte ∧
        t.octaveColumn[i]? = some octaveByte ∧ t.tickColumn[i]? = some tickByte ∧
          Entry.Tells bpm s note? noteByte octaveByte tickByte
  start : IsLeast (keptPitches steps) t.start ∨ keptPitches steps = ∅ ∧ t.start = 0
  start_lt : 0 < t.length → t.start < t.length

/-- The tables of the track of a voice tell its steps. -/
theorem tabulates_ofVoice (bpm : Nat) (v : Voice) : Tabulates bpm v.steps (ofVoice bpm v) where
  length_notes := (List.length_map _).trans (length_entriesOf bpm v.steps)
  length_noteColumn := (List.length_map _).trans (length_entriesOf bpm v.steps)
  length_octaveColumn := (List.length_map _).trans (length_entriesOf bpm v.steps)
  length_tickColumn := (List.length_map _).trans (length_entriesOf bpm v.steps)
  tells {i s} hkept h := by
    have hentry : (ofVoice bpm v).entries[i]? = some (Entry.ofStep bpm s) := by
      rw [ofVoice, getElem?_entriesOf bpm hkept, h, Option.map_some]
    have hcolumn {α : Type} (f : Entry → α) :
        ((ofVoice bpm v).entries.map f)[i]? = some (f (Entry.ofStep bpm s)) := by
      rw [List.getElem?_map, hentry, Option.map_some]
    exact ⟨_, _, _, _, hcolumn _, hcolumn _, hcolumn _, hcolumn _, Entry.tells_ofStep bpm s⟩
  start := by
    rw [← audibleEntries_entriesOf bpm]
    exact isLeast_firstAudible _
  start_lt := start_lt_length _

/-- The track of a voice depends on its pattern by the steps alone. -/
theorem ofVoice_eq_of_steps (bpm : Nat) (v : Voice) {p p' : Pattern} (hsame : p.steps = p'.steps) :
    ofVoice bpm { v with pattern := p } = ofVoice bpm { v with pattern := p' } := by
  have hsteps : Voice.steps { v with pattern := p } = Voice.steps { v with pattern := p' } := hsame
  rw [ofVoice, ofVoice, hsteps]
  rfl

/-! ### Whole patterns -/

/-- The tables of a track are as long as the pattern of a voice, which has 48 steps in sections and
64 to 192 if it is flat. -/
structure Whole (v : Voice) (t : Track) : Prop where
  nominal : t.length = v.pattern.nominalLength
  steps : t.length = v.steps.length
  size : match v.pattern with
    | .flat _ => 64 ≤ t.length ∧ t.length ≤ 192
    | .sections .. => t.length = 48

/-- The pattern of a well-formed voice is neither cut nor padded. -/
theorem whole_ofVoice (bpm : Nat) {v : Voice} (h : v.WellFormed) : Whole v (ofVoice bpm v) := by
  have hnominal : v.steps.length = v.pattern.nominalLength := h.pattern.length_steps
  have hlength : (ofVoice bpm v).length = v.steps.length := by
    rw [Track.length, ofVoice, length_entriesOf]
    exact Nat.min_eq_left h.pattern.length_bounds.2
  refine ⟨hlength.trans hnominal, hlength, ?_⟩
  rw [hlength, hnominal]
  have hbounds := h.pattern
  cases hpattern : v.pattern with
  | flat steps =>
    rw [hpattern] at hbounds
    exact hbounds
  | sections => rfl

end Track

/-! ### Accepted songs -/

namespace Tune

theorem tracks_get?_ofSong (s : Song) (voice : Nat) :
    (ofSong s).tracks.get? voice = (s.voices.get? voice).map (Track.ofVoice s.tempo.bpm) := by
  rw [Trio.get?, ofSong, Trio.toList_map, List.getElem?_map, Trio.get?]

/-- **The tables of a voice.** Whatever the pattern of a voice and the tempo, the tables of its
track tell its steps as far as they are kept, and three sections make the same track as one pattern
of all their steps. Every voice of an accepted song has a track in the tune, and its tables tell all
of its steps. -/
theorem tabulated :
    (∀ bpm v, (Track.ofVoice bpm v).Tabulates bpm v.steps) ∧
    (∀ bpm (v : Voice) intro development cadence,
      Track.ofVoice bpm { v with pattern := .sections intro development cadence } =
        Track.ofVoice bpm { v with pattern := .flat (intro ++ development ++ cadence) }) ∧
    ∀ (document : Json) (s : Song), Song.ofJson document = .ok s →
      ∀ i v, s.voices.get? i = some v → ∃ t, (Tune.ofSong s).tracks.get? i = some t ∧
        t.Tabulates s.tempo.bpm v.steps ∧ t.Whole v := by
  refine ⟨Track.tabulates_ofVoice, fun bpm v _ _ _ => Track.ofVoice_eq_of_steps bpm v rfl,
    fun document s haccepted i v hvoice => ?_⟩
  have hwellFormed := (Song.wellFormed_of_ofJson haccepted).voices v (List.mem_of_getElem? hvoice)
  have htrack : (Tune.ofSong s).tracks.get? i = some (Track.ofVoice s.tempo.bpm v) := by
    rw [tracks_get?_ofSong, hvoice, Option.map_some]
  exact ⟨_, htrack, Track.tabulates_ofVoice _ v, Track.whole_ofVoice _ hwellFormed⟩

theorem tabulated_sampleSong : Song.ofJson sampleSong.toJson = .ok sampleSong ∧
    sampleSong.voices.get? 1 = some (sampleVoice .bass .triangle none) ∧
      ∃ t, (Tune.ofSong sampleSong).tracks.get? 1 = some t ∧
        t.Tabulates 160 (sampleVoice .bass .triangle none).steps ∧ t.length = 64 := by
  obtain ⟨t, htrack, htold, hwhole⟩ :=
    tabulated.2.2 _ _ ofJson_sampleSong 1 (sampleVoice .bass .triangle none) rfl
  exact ⟨ofJson_sampleSong, rfl, t, htrack, htold, hwhole.nominal⟩

end Tune

end SidTune
