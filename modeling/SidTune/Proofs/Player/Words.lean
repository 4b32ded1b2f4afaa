import SidTune.Proofs.Player.Advance
import SidTune.Proofs.Tune.Tables

/-!
# Words read back from the tables

The frequency word of a step is found on three ways: in the document, by the place of its pitch in
the table of words, and as the player finds it, who adds the note byte of the step to the start of
its octave and reads the word from two tables of bytes. For accepted songs all of them agree, and
none of them depends on what the words are.

## Main definitions

* `SidTune.Song.pitchAt?`: the pitch that a song gives a voice at a step.
* `SidTune.wordsOf`: the table of any words, with `SidTune.Player.lowBytes` and
  `SidTune.Player.highBytes`.
* `SidTune.Player.HasByte`, `SidTune.Player.Finds`: what the tables in a program tell of a step.

## Main results

* `SidTune.Track.pitchAt?_ofVoice`: the track of a well-formed voice has its pitches.
* `SidTune.Player.finds_tables`: the tables of the player tell the pitch of a step and its word.
* `SidTune.Player.words_read_back`: the three ways agree.
-/

namespace SidTune

/-! ### Pitches of songs -/

/-- The pitch that a song gives a voice at a step: none for a rest, or where there is no such voice
or step. -/
def Song.pitchAt? (s : Song) (voice step : Nat) : Option Pitch := do
  let v ← s.voices.get? voice
  let there ← v.steps[step]?
  there.pitch?

/-- The track of a well-formed voice has its pitches. -/
theorem Track.pitchAt?_ofVoice (bpm : Nat) {v : Voice} (h : v.WellFormed) (step : Nat) :
    (ofVoice bpm v).pitchAt? step = v.steps[step]?.bind Step.pitch? := by
  have hshort : v.steps.length ≤ maxEntries := h.pattern.length_bounds.2
  have hentry : (ofVoice bpm v).entries[step]? = v.steps[step]?.map (Entry.ofStep bpm) := by
    rw [ofVoice, entriesOf, List.take_of_length_le hshort, List.getElem?_map]
  cases hfound : v.steps[step]? with
  | none => simp [pitchAt?, hentry, hfound]
  | some there =>
    cases hpitch : there.pitch? with
    | none => simp [pitchAt?, hentry, hfound, Entry.ofStep, hpitch]
    | some p => simp [pitchAt?, hentry, hfound, Entry.ofStep, hpitch]

/-- A voice of an accepted song plays the words of the pitches that the song gives it. -/
theorem Tune.wordAt?_ofSong {s : Song} (h : s.WellFormed) (voice step : Nat) :
    (ofSong s).wordAt? voice step =
      (s.pitchAt? voice step).map fun p => pitchWord p.pitchClass p.octave.number := by
  have htrack := tracks_get?_ofSong s voice
  cases hthere : s.voices.get? voice with
  | none =>
    rw [hthere, Option.map_none] at htrack
    simp [wordAt?, Song.pitchAt?, htrack, hthere]
  | some v =>
    rw [hthere, Option.map_some] at htrack
    have hwellFormed := h.voices v (List.mem_of_getElem? hthere)
    rw [wordAt?_eq htrack, Track.pitchAt?_ofVoice _ hwellFormed, Song.pitchAt?, hthere]
    rfl

/-! ### Tables of words -/

/-- The table of any words, in the order of `wordTable`. -/
def wordsOf (word : PitchClass → Nat → UInt16) : List UInt16 :=
  Octave.all.flatMap fun octave =>
    (Named.all : List PitchClass).map fun pitchClass => word pitchClass octave.number

private theorem getElem?_wordsOf (word : PitchClass → Nat → UInt16) (p : Pitch) :
    (wordsOf word)[p.tableIndex]? = some (word p.pitchClass p.octave.number) := by
  obtain ⟨pitchClass, octave, hlow, hhigh⟩ := p
  have hcases : octave = 2 ∨ octave = 3 ∨ octave = 4 ∨ octave = 5 := by omega
  rcases hcases with rfl | rfl | rfl | rfl <;> cases pitchClass <;> rfl

namespace Player

open Assembly

/-- The low bytes of words. -/
def lowBytes (words : List UInt16) : Bytes :=
  words.map UInt16.toUInt8

/-- The high bytes of words. -/
def highBytes (words : List UInt16) : Bytes :=
  words.map fun word : UInt16 => (word >>> 8).toUInt8

theorem exists_bytes {words : List UInt16} {i : Nat} {word : UInt16} (h : words[i]? = some word) :
    ∃ low high : UInt8, (lowBytes words)[i]? = some low ∧ (highBytes words)[i]? = some high ∧
      256 * high.toNat + low.toNat = word.toNat := by
  refine ⟨word.toUInt8, (word >>> 8).toUInt8, ?_, ?_, ?_⟩
  · rw [lowBytes, List.getElem?_map, h, Option.map_some]
  · rw [highBytes, List.getElem?_map, h, Option.map_some]
  · rw [← toNat_wordOf, wordOf_bytes]

/-! ### Tables in programs -/

/-- A program has a table with a byte at an index. -/
def HasByte (p : Program) (name : String) (index : Nat) (byte : UInt8) : Prop :=
  ∃ bytes, table name bytes <:+: p ∧ bytes[index]? = some byte

theorem HasByte.mono {p q : Program} {name : String} {index : Nat} {byte : UInt8}
    (h : HasByte p name index byte) (hpart : p <:+: q) : HasByte q name index byte :=
  let ⟨bytes, hthere, hfound⟩ := h
  ⟨bytes, hthere.trans hpart, hfound⟩

/-- The tables of a program tell the pitch of a step and its word: its note byte, added to the start
of its octave, makes the place of the pitch, and the two bytes at that place make the word. -/
structure Finds (p : Program) (voice step : Nat) (pitch : Pitch) (word : UInt16) : Prop where
  tables : ∃ note octave start low high : UInt8,
    HasByte p (labelOf voice "notes") step note ∧
    HasByte p (labelOf voice "octaves") step octave ∧
    HasByte p "octave_offset" octave.toNat start ∧
    start.toNat + note.toNat = pitch.tableIndex ∧
    HasByte p "freq_lo" (start.toNat + note.toNat) low ∧
    HasByte p "freq_hi" (start.toNat + note.toNat) high ∧
    256 * high.toNat + low.toNat = word.toNat
  inside : pitch.tableIndex < 48

theorem Finds.mono {p q : Program} {voice step : Nat} {pitch : Pitch} {word : UInt16}
    (h : Finds p voice step pitch word) (hpart : p <:+: q) : Finds q voice step pitch word := by
  obtain ⟨⟨note, octave, start, low, high, hnote, hoctave, hstart, hsum, hlow, hhigh, htotal⟩,
    hinside⟩ := h
  exact ⟨⟨note, octave, start, low, high, hnote.mono hpart, hoctave.mono hpart, hstart.mono hpart,
    hsum, hlow.mono hpart, hhigh.mono hpart, htotal⟩, hinside⟩

private theorem hasByte_tables {t : Tune} {name : String} {bytes : Bytes}
    (h : (name, bytes) ∈ constants t)
    {index : Nat} {byte : UInt8} (hfound : bytes[index]? = some byte) :
    HasByte (tables t) name index byte :=
  ⟨bytes, Program.isInfix_of_mem_tabled (tabled_tables t ▸ List.mem_append_left _ h), hfound⟩

/-- The tables of the player tell the pitch of a step and its word. -/
theorem finds_tables {t : Tune} {voice step : Nat} {track : Track} {pitch : Pitch}
    (ht : t.tracks.get? voice = some track) (h : track.pitchAt? step = some pitch) :
    Finds (tables t) voice step pitch (pitchWord pitch.pitchClass pitch.octave.number) := by
  obtain ⟨e, hentry, h⟩ := Option.bind_eq_some_iff.1 h
  obtain ⟨pitchClass, hnote, h⟩ := Option.bind_eq_some_iff.1 h
  cases h
  have hcolumn (f : Entry → UInt8) : (track.entries.map f)[step]? = some (f e) := by
    rw [List.getElem?_map, hentry, Option.map_some]
  obtain ⟨start, hstarts, hstart_eq⟩ := getElem?_octaveStarts e.octave
  have hsum : start.toNat + e.noteByte.toNat = (Pitch.mk pitchClass e.octave).tableIndex := by
    rw [hstart_eq, Entry.toNat_noteByte hnote]
    rfl
  obtain ⟨low, high, hlow, hhigh, htotal⟩ :=
    exists_bytes (wordTable_tableIndex ⟨pitchClass, e.octave⟩)
  rw [← hsum] at hlow hhigh
  refine ⟨⟨e.noteByte, e.octaveByte, start, low, high,
    hasByte_tables (mem_constants ht List.mem_cons_self) (hcolumn _),
    hasByte_tables (mem_constants ht (.tail _ List.mem_cons_self)) (hcolumn _),
    hasByte_tables (show (_, octaveStarts) ∈ constants t by simp [constants])
      (by rw [Entry.toNat_octaveByte, hstarts]),
    hsum,
    hasByte_tables (show (_, wordLowBytes) ∈ constants t by simp [constants]) hlow,
    hasByte_tables (show (_, wordHighBytes) ∈ constants t by simp [constants]) hhigh,
    htotal⟩, Pitch.tableIndex_lt _⟩

private theorem tables_isInfix {t : Tune} {p : Program} (h : p = standalone t ∨ p = library t) :
    tables t <:+: p := by
  have hshared : tables t <:+ shared t := shared_eq_append t ▸ List.suffix_append ..
  rcases h with rfl | rfl
  · exact (hshared.trans (List.suffix_append ..)).isInfix
  · exact (hshared.trans (List.suffix_append ..)).isInfix

/-- **Words read back from the tables.** In the tune of an accepted song a voice has a word at a
step exactly if the song gives it a pitch there, and it is the word of that pitch. The tables in
both layouts tell the same pitches and words, and whatever the words of pitches are, each is at the
place of its pitch, and so are its two bytes. -/
theorem words_read_back {document : Json} {s : Song} (haccepted : Song.ofJson document = .ok s) :
    (∀ voice step, (Tune.ofSong s).wordAt? voice step =
      (s.pitchAt? voice step).map fun p => pitchWord p.pitchClass p.octave.number) ∧
    (∀ voice step pitch, s.pitchAt? voice step = some pitch → ∀ p : Program,
      p = standalone (Tune.ofSong s) ∨ p = library (Tune.ofSong s) →
        Finds p voice step pitch (pitchWord pitch.pitchClass pitch.octave.number)) ∧
    (wordLowBytes = lowBytes (wordsOf pitchWord) ∧ wordHighBytes = highBytes (wordsOf pitchWord)) ∧
    ∀ word (pitch : Pitch),
      (wordsOf word)[pitch.tableIndex]? = some (word pitch.pitchClass pitch.octave.number) ∧
      ∃ low high : UInt8,
        (lowBytes (wordsOf word))[pitch.tableIndex]? = some low ∧
        (highBytes (wordsOf word))[pitch.tableIndex]? = some high ∧
        256 * high.toNat + low.toNat = (word pitch.pitchClass pitch.octave.number).toNat := by
  have hwellFormed := Song.wellFormed_of_ofJson haccepted
  refine ⟨Tune.wordAt?_ofSong hwellFormed, fun voice step pitch hgiven p hlayout => ?_, ⟨rfl, rfl⟩,
    fun word pitch => ⟨getElem?_wordsOf word pitch, exists_bytes (getElem?_wordsOf word pitch)⟩⟩
  obtain ⟨v, hthere, hgiven⟩ := Option.bind_eq_some_iff.1 hgiven
  have htrack : (Tune.ofSong s).tracks.get? voice = some (Track.ofVoice s.tempo.bpm v) := by
    rw [Tune.tracks_get?_ofSong, hthere, Option.map_some]
  have hpitchAt : (Track.ofVoice s.tempo.bpm v).pitchAt? step = some pitch := by
    rw [Track.pitchAt?_ofVoice _ (hwellFormed.voices v (List.mem_of_getElem? hthere))]
    exact hgiven
  exact (finds_tables htrack hpitchAt).mono (tables_isInfix hlayout)

/-- The third voice of the song plays A in octave four after a rest. -/
theorem words_read_back_sampleSong : Song.ofJson sampleSong.toJson = .ok sampleSong ∧
    (Tune.ofSong sampleSong).wordAt? 2 0 = none ∧
    (Tune.ofSong sampleSong).wordAt? 2 1 = some (pitchWord .a 4) ∧
    (Tune.ofSong sampleSong).wordAt? 3 1 = none ∧
    Finds (library (Tune.ofSong sampleSong)) 2 1 ⟨.a, ⟨4, by decide, by decide⟩⟩
      (pitchWord .a 4) := by
  obtain ⟨hwords, hfound, -⟩ := words_read_back ofJson_sampleSong
  exact ⟨ofJson_sampleSong, hwords 2 0, hwords 2 1, hwords 3 1, hfound 2 1 _ rfl _ (.inr rfl)⟩

end Player

end SidTune
