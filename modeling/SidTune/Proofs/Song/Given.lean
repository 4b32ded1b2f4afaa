import SidTune.Proofs.Basic
import SidTune.Song.Document

/-!
# Songs that documents give

A document *gives* a song if each of its members says what the song says: a name, a number, a text,
or a part that is given in turn. A text that is absent gives the empty text, and everything else
has to be there. Every reader accepts what gives a part that obeys the rules, and nothing else, so
a document is read as a song exactly if it gives the song and the song is well formed.

## Main definitions

* `SidTune.LawfulNamed`: sets in which every member is found by its name.
* `SidTune.Step.GivenBy`, `SidTune.Pattern.GivenBy`, `SidTune.Voice.GivenBy`,
  `SidTune.Song.GivenBy`: what a value has to hold to give a part of a song.
* `SidTune.sampleSong`: a song that is accepted.

## Main results

* `SidTune.readStep_eq_ok`, `SidTune.readPattern_eq_ok`, `SidTune.readVoice_eq_ok`: what the readers
  of the parts accept.
* `SidTune.Song.ofJson_eq_ok`: a document is read as a song exactly if it gives the song and the
  song is well formed.
* `SidTune.Song.wellFormed_of_ofJson`: the song of a document is well formed.
-/

namespace SidTune

/-! ### Readers that succeed -/

theorem Members.required_eq_ok {o : Members} {name : String} {c : Cursor} :
    o.required name = .ok c ↔ ∃ v, o.entries.lookup name = some v ∧ ⟨v, o.locate name⟩ = c := by
  cases h : o.entries.lookup name <;> simp [required, optional, h]

namespace Cursor

variable {α β : Type} {c : Cursor}

@[simp] theorem reject_ne_ok {violation : Violation} {a : α} : c.reject violation ≠ .ok a := by
  simp [reject]

theorem members_eq_ok {o : Members} :
    c.members = .ok o ↔ ∃ entries, c.value = .object entries ∧ ⟨entries, c.location⟩ = o := by
  obtain ⟨v, location⟩ := c
  cases v <;> simp [members, Json.members?, reject]

theorem items_eq_ok {expected : Expected} {cs : List Cursor} :
    c.items expected = .ok cs ↔ ∃ items, c.value = .array items ∧
      items.mapIdx (fun i v => ⟨v, c.location ++ [.element i]⟩) = cs := by
  obtain ⟨v, location⟩ := c
  cases v <;> simp [Cursor.items, Json.items?, reject]

theorem text_eq_ok {s : String} : c.text = .ok s ↔ c.value = .string s := by
  obtain ⟨v, location⟩ := c
  cases v <;> simp [text, Json.text?, reject]

theorem integer_eq_ok {n : Int} :
    c.integer = .ok n ↔ c.value = .number (.integer n) ∧ n < 0x8000000000000000 := by
  obtain ⟨v, location⟩ := c
  simp only [integer]
  fun_cases Json.int? v <;> grind [reject]

theorem textIn_eq_ok {choose : String → Option α} {spell : α → String}
    (h : ∀ {text a}, choose text = some a ↔ text = spell a) {violation : Json → Violation} {a : α} :
    c.textIn choose violation = .ok a ↔ c.value = .string (spell a) := by
  simp only [textIn, Except.bind_eq_ok, text_eq_ok]
  constructor
  · rintro ⟨text, hvalue, hchosen⟩
    cases hfound : choose text with
    | none => simp [hfound] at hchosen
    | some b =>
      obtain rfl : b = a := by simpa [hfound] using hchosen
      rw [hvalue, h.1 hfound]
  · intro hvalue
    exact ⟨spell a, hvalue, by simp [h.2 rfl]⟩

/-- An integer is read as the one thing that is numbered so, if that obeys the rule. -/
theorem integerIn_eq_ok_and {choose : Int → Option α} {number : α → Nat} (rule : α → Prop)
    (h : ∀ {n : Int} {a}, choose n = some a ↔ n = number a ∧ rule a)
    (hsmall : ∀ a, rule a → number a < 0x8000000000000000) {violation : Json → Violation} {a : α} :
    c.integerIn choose violation = .ok a ↔ c.value = .ofNat (number a) ∧ rule a := by
  simp only [integerIn, Except.bind_eq_ok, integer_eq_ok, Json.ofNat]
  constructor
  · rintro ⟨n, ⟨hvalue, -⟩, hchosen⟩
    cases hfound : choose n with
    | none => simp [hfound] at hchosen
    | some b =>
      obtain rfl : b = a := by simpa [hfound] using hchosen
      obtain ⟨rfl, hobeys⟩ := h.1 hfound
      exact ⟨hvalue, hobeys⟩
  · rintro ⟨hvalue, hobeys⟩
    have hfits := hsmall a hobeys
    exact ⟨number a, ⟨hvalue, by omega⟩, by simp [h.2 ⟨rfl, hobeys⟩]⟩

theorem integerIn_eq_ok {choose : Int → Option α} {number : α → Nat}
    (h : ∀ {n : Int} {a}, choose n = some a ↔ n = number a)
    (hsmall : ∀ a, number a < 0x8000000000000000) {violation : Json → Violation} {a : α} :
    c.integerIn choose violation = .ok a ↔ c.value = .ofNat (number a) := by
  simpa using integerIn_eq_ok_and (fun _ => True) (by simp [h]) fun a _ => hsmall a

end Cursor

/-! ### Choices -/

/-- A set in which every member is found by its name. -/
class LawfulNamed (α : Type) [Named α] : Prop where
  ofName?_name (a : α) : Named.ofName? (Named.name a) = some a

instance : LawfulNamed PitchClass :=
  ⟨fun p => by cases p <;> decide⟩

instance : LawfulNamed Scale :=
  ⟨fun s => by cases s <;> decide⟩

instance : LawfulNamed Role :=
  ⟨fun r => by cases r <;> decide⟩

instance : LawfulNamed Waveform :=
  ⟨fun w => by cases w <;> decide⟩

instance : LawfulNamed FilterKind :=
  ⟨fun k => by cases k <;> decide⟩

theorem Named.ofName?_eq_some {α : Type} [Named α] [LawfulNamed α] {text : String} {a : α} :
    ofName? text = some a ↔ text = name a :=
  ⟨fun h => (name_of_ofName? h).symm, fun h => h ▸ LawfulNamed.ofName?_name a⟩

/-- The name of a note: a rest, or a pitch class. -/
def noteName : Option PitchClass → String
  | none => restName
  | some p => Named.name p

theorem noteOfName?_eq_some {text : String} {note : Option PitchClass} :
    noteOfName? text = some note ↔ text = noteName note := by
  have hapart (p : PitchClass) : Named.name p ≠ restName := by cases p <;> decide
  unfold noteOfName?
  split
  · next hrest =>
    cases note with
    | none => simp [noteName, hrest]
    | some p => simp [noteName, hrest, (hapart p).symm]
  · next hother =>
    cases note with
    | none => simp [noteName, hother]
    | some p => simp [noteName, Named.ofName?_eq_some]

private theorem Tempo.ofBpm?_eq_some {n : Int} {tempo : Tempo} :
    ofBpm? n = some tempo ↔ n = tempo.bpm := by
  refine ⟨fun h => ?_, fun h => h ▸ ofBpm?_bpm tempo⟩
  have hfound := List.find?_some h
  exact (beq_iff_eq.1 hfound).symm

private theorem NoteValue.ofDenominator?_eq_some {n : Int} {length : NoteValue} :
    ofDenominator? n = some length ↔ n = length.denominator := by
  refine ⟨fun h => ?_, fun h => h ▸ ofDenominator?_denominator length⟩
  have hfound := List.find?_some h
  exact (beq_iff_eq.1 hfound).symm

theorem Nibble.ofInt?_eq_some {n : Int} {k : Nibble} : ofInt? n = some k ↔ n = k.val := by
  refine ⟨fun h => ?_, fun h => h ▸ ofInt?_val k⟩
  unfold ofInt? at h
  split at h
  · next hbounds =>
    cases h
    exact (Int.toNat_of_nonneg (by omega)).symm
  · cases h

theorem Octave.ofInt?_eq_some {n : Int} {o : Octave} : ofInt? n = some o ↔ n = o.number := by
  refine ⟨fun h => ?_, fun h => h ▸ ofInt?_number o⟩
  unfold ofInt? at h
  split at h
  · next hbounds =>
    cases h
    exact (Int.toNat_of_nonneg (by omega)).symm
  · cases h

theorem wordUpTo?_eq_some {most : Nat} (hfits : most < 65536) {n : Int} {w : UInt16} :
    wordUpTo? most n = some w ↔ n = w.toNat ∧ w.toNat ≤ most := by
  unfold wordUpTo?
  split
  · next hbounds =>
    rw [Option.some_inj, ← UInt16.toNat_inj, UInt16.toNat_ofNat', Nat.mod_eq_of_lt (by omega)]
    omega
  · simp only [reduceCtorEq, false_iff]
    omega

/-! ### What a document gives -/

@[simp] theorem Json.member?_object (entries : List (String × Json)) (name : String) :
    (Json.object entries).member? name = entries.lookup name := rfl

theorem Json.member?_eq_some {v c : Json} {name : String} : v.member? name = some c ↔
    ∃ entries, v = .object entries ∧ entries.lookup name = some c := by
  cases v <;> simp [member?, members?]

/-- The number of the octave in the document of a step. -/
def octaveNumber : Option Pitch → Nat
  | none => 0
  | some p => p.octave.number

/-- A value gives a step. -/
structure Step.GivenBy (s : Step) (v : Json) : Prop where
  note : v.member? "note" = some (.string (noteName (s.pitch?.map Pitch.pitchClass)))
  octave : v.member? "octave" = some (.ofNat (octaveNumber s.pitch?))
  length : v.member? "duration" = some (.ofNat s.length.denominator)

/-- A value gives a list of steps. -/
def StepsGivenBy (steps : List Step) (v : Json) : Prop :=
  ∃ items, v = .array items ∧ List.Forall₂ (fun item s => s.GivenBy item) items steps

/-- A voice gives a pattern: it has the member of its shape and not that of the other shape. -/
def Pattern.GivenBy (voice : Json) : Pattern → Prop
  | flat steps =>
    (∃ v, voice.member? "pattern" = some v ∧ StepsGivenBy steps v) ∧
      voice.member? "patternSections" = none
  | sections intro development cadence =>
    voice.member? "pattern" = none ∧ ∃ v, voice.member? "patternSections" = some v ∧
      (∃ c, v.member? "intro" = some c ∧ StepsGivenBy intro c) ∧
      (∃ c, v.member? "development" = some c ∧ StepsGivenBy development c) ∧
      ∃ c, v.member? "cadence" = some c ∧ StepsGivenBy cadence c

/-- A value gives an envelope. -/
structure Envelope.GivenBy (e : Envelope) (v : Json) : Prop where
  attack : v.member? "attack" = some (.ofNat e.attack)
  decay : v.member? "decay" = some (.ofNat e.decay)
  sustain : v.member? "sustain" = some (.ofNat e.sustain)
  release : v.member? "release" = some (.ofNat e.release)

/-- A value gives a wish for the filter. -/
structure FilterWish.GivenBy (w : FilterWish) (v : Json) : Prop where
  kind : v.member? "type" = some (Named.toJson w.kind)
  cutoff : v.member? "cutoff" = some (.ofNat w.cutoff.toNat)
  resonance : v.member? "resonance" = some (.ofNat w.resonance)

/-- A value gives a voice. -/
structure Voice.GivenBy (voice : Voice) (v : Json) : Prop where
  role : v.member? "role" = some (Named.toJson voice.role)
  waveform : v.member? "waveform" = some (Named.toJson voice.waveform)
  envelope : ∃ c, v.member? "adsr" = some c ∧ voice.envelope.GivenBy c
  pulseWidth : v.member? "pulseWidth" = voice.pulseWidth.map fun w => .ofNat w.toNat
  filter : ∃ c, v.member? "filter" = some c ∧ voice.filter.GivenBy c
  pattern : voice.pattern.GivenBy v

/-- A value gives three voices. -/
def VoicesGivenBy (voices : Trio Voice) (v : Json) : Prop :=
  ∃ items, v = .array items ∧ List.Forall₂ (fun item s => s.GivenBy item) items voices.toList

/-- A document gives a text: a member that is absent gives the empty one. -/
def TextGivenBy (document : Json) (name text : String) : Prop :=
  document.member? name = some (.string text) ∨ document.member? name = none ∧ text = ""

/-- A document gives a song. -/
structure Song.GivenBy (s : Song) (document : Json) : Prop where
  tempo : document.member? "bpm" = some (.ofNat s.tempo.bpm)
  key : document.member? "key" = some (Named.toJson s.key)
  scale : document.member? "scale" = some (Named.toJson s.scale)
  voices : ∃ v, document.member? "voices" = some v ∧ VoicesGivenBy s.voices v
  title : TextGivenBy document "title" s.title
  author : TextGivenBy document "author" s.author
  released : TextGivenBy document "released" s.released

/-! ### Steps and patterns -/

section Readers

variable {c : Cursor} {o : Members}

/-- A text that has to be a name of a set is read as the member of that name. -/
theorem Cursor.textIn_ofName?_eq_ok {α : Type} [Named α] [LawfulNamed α]
    {violation : Json → Violation} {a : α} :
    c.textIn Named.ofName? violation = .ok a ↔ c.value = Named.toJson a :=
  textIn_eq_ok Named.ofName?_eq_some

theorem Cursor.integerIn_tempo_eq_ok {violation : Json → Violation} {tempo : Tempo} :
    c.integerIn Tempo.ofBpm? violation = .ok tempo ↔ c.value = .ofNat tempo.bpm :=
  integerIn_eq_ok Tempo.ofBpm?_eq_some fun tempo => by cases tempo <;> decide

theorem Cursor.integerIn_denominator_eq_ok {violation : Json → Violation} {length : NoteValue} :
    c.integerIn NoteValue.ofDenominator? violation = .ok length ↔
      c.value = .ofNat length.denominator :=
  integerIn_eq_ok NoteValue.ofDenominator?_eq_some fun length => by cases length <;> decide

theorem Cursor.integerIn_nibble_eq_ok {violation : Json → Violation} {n : Nibble} :
    c.integerIn Nibble.ofInt? violation = .ok n ↔ c.value = .ofNat n :=
  integerIn_eq_ok Nibble.ofInt?_eq_some fun n => by omega

theorem Cursor.integerIn_word_eq_ok {most : Nat} (hfits : most < 65536)
    {violation : Json → Violation} {w : UInt16} :
    c.integerIn (wordUpTo? most) violation = .ok w ↔ c.value = .ofNat w.toNat ∧ w.toNat ≤ most :=
  integerIn_eq_ok_and _ (wordUpTo?_eq_some hfits) fun w hw => by omega

theorem readOctave_eq_ok {note : Option PitchClass} {pitch? : Option Pitch} :
    readOctave note c = .ok pitch? ↔
      c.value = .ofNat (octaveNumber pitch?) ∧ pitch?.map Pitch.pitchClass = note := by
  have hsmall (pitch? : Option Pitch) : octaveNumber pitch? < 0x8000000000000000 := by
    cases pitch? with
    | none => simp [octaveNumber]
    | some p =>
      have := p.octave.le_five
      simp only [octaveNumber]
      omega
  cases note with
  | none =>
    refine Cursor.integerIn_eq_ok_and (fun a => a.map Pitch.pitchClass = none) (fun {n a} => ?_)
      fun a _ => hsmall a
    cases a <;> simp [octaveNumber]
  | some p =>
    refine Cursor.integerIn_eq_ok_and (fun a => a.map Pitch.pitchClass = some p) (fun {n a} => ?_)
      fun a _ => hsmall a
    cases a with
    | none => simp
    | some pitch =>
      obtain ⟨pitchClass, octave⟩ := pitch
      simp only [Option.map_eq_some_iff, Octave.ofInt?_eq_some, Option.some.injEq, octaveNumber,
        Option.map_some]
      grind

/-- What is read as a step gives the step. -/
theorem readStep_eq_ok {s : Step} : readStep c = .ok s ↔ s.GivenBy c.value := by
  simp only [readStep, Cursor.members_eq_ok, Members.required_eq_ok, Except.bind_eq_ok,
    Except.pure_eq_ok, Cursor.textIn_eq_ok noteOfName?_eq_some, readOctave_eq_ok,
    Cursor.integerIn_denominator_eq_ok, exists_exists_and_eq_and]
  constructor
  · rintro ⟨entries, hvalue, _, hnote, _, rfl, _, hoctave, pitch?, ⟨rfl, rfl⟩, _, hlength, d,
      rfl, rfl⟩
    rw [hvalue]
    exact ⟨hnote, hoctave, hlength⟩
  · rintro ⟨hnote, hoctave, hlength⟩
    obtain ⟨entries, hvalue, hnote⟩ := Json.member?_eq_some.1 hnote
    rw [hvalue] at hoctave hlength
    exact ⟨entries, hvalue, _, hnote, _, rfl, _, hoctave, _, ⟨rfl, rfl⟩, _, hlength, _, rfl, rfl⟩

theorem readSteps_eq_ok {steps : List Step} :
    readSteps c = .ok steps ↔ StepsGivenBy steps c.value := by
  simp only [readSteps, Except.bind_eq_ok, Cursor.items_eq_ok, exists_exists_and_eq_and,
    Except.mapM_eq_ok, readStep_eq_ok, StepsGivenBy]
  refine exists_congr fun items => and_congr_right fun _ => ?_
  have hvalues : (items.mapIdx fun i v => (⟨v, c.location ++ [.element i]⟩ : Cursor)).map
      Cursor.value = items :=
    List.ext_getElem (by simp) (by simp)
  rw [← List.forall₂_map_left_iff (R := fun item (s : Step) => s.GivenBy item), hvalues]

theorem readFlat_eq_ok {steps : List Step} : readFlat c = .ok steps ↔
    StepsGivenBy steps c.value ∧ Pattern.minSteps ≤ steps.length ∧
      steps.length ≤ Pattern.maxSteps := by
  simp only [readFlat, Except.bind_eq_ok, readSteps_eq_ok]
  constructor
  · rintro ⟨read, hgiven, h⟩
    split at h
    · next hbounds => exact Except.pure_eq_ok.1 h ▸ ⟨hgiven, hbounds⟩
    · exact absurd h Cursor.reject_ne_ok
  · rintro ⟨hgiven, hbounds⟩
    exact ⟨steps, hgiven, by rw [if_pos hbounds]; rfl⟩

theorem readSection_eq_ok {name : String} {steps : List Step} : readSection o name = .ok steps ↔
    (∃ v, o.entries.lookup name = some v ∧ StepsGivenBy steps v) ∧
      steps.length = Pattern.sectionSize := by
  simp only [readSection, Except.bind_eq_ok, Members.required_eq_ok, readSteps_eq_ok,
    exists_exists_and_eq_and]
  constructor
  · rintro ⟨v, hfound, read, hgiven, h⟩
    split at h
    · next hsize => exact Except.pure_eq_ok.1 h ▸ ⟨⟨v, hfound, hgiven⟩, hsize⟩
    · exact absurd h Cursor.reject_ne_ok
  · rintro ⟨⟨v, hfound, hgiven⟩, hsize⟩
    exact ⟨v, hfound, steps, hgiven, by rw [if_pos hsize]; rfl⟩

/-- What is read as a pattern gives it, in exactly one of the shapes and of the right length. -/
theorem readPattern_eq_ok {p : Pattern} :
    readPattern o = .ok p ↔ p.GivenBy (.object o.entries) ∧ p.WellFormed := by
  cases hflat : o.entries.lookup "pattern" with
  | none =>
    cases hparts : o.entries.lookup "patternSections" with
    | none => cases p <;> simp [readPattern, Members.optional, Pattern.GivenBy, hflat, hparts]
    | some v =>
      simp only [readPattern, Members.optional, hflat, hparts, Option.map_none, Option.map_some,
        Except.bind_eq_ok, Except.pure_eq_ok, Cursor.members_eq_ok, readSection_eq_ok,
        exists_exists_and_eq_and]
      cases p with
      | flat steps => simp [Pattern.GivenBy, hparts]
      | sections intro development cadence =>
        simp only [Pattern.GivenBy, Json.member?_object, hflat, hparts, Pattern.WellFormed,
          true_and, Option.some.injEq, exists_eq_left']
        constructor
        · rintro ⟨entries, rfl, i, ⟨hi, hsize⟩, d, ⟨hd, hsize'⟩, c, ⟨hc, hsize''⟩, heq⟩
          cases heq
          exact ⟨⟨hi, hd, hc⟩, hsize, hsize', hsize''⟩
        · rintro ⟨⟨⟨vi, hmember, hi⟩, hd, hc⟩, hsize, hsize', hsize''⟩
          obtain ⟨entries, rfl, hmember⟩ := Json.member?_eq_some.1 hmember
          exact ⟨entries, rfl, intro, ⟨⟨vi, hmember, hi⟩, hsize⟩, development, ⟨hd, hsize'⟩,
            cadence, ⟨hc, hsize''⟩, rfl⟩
  | some v =>
    cases hparts : o.entries.lookup "patternSections" with
    | none =>
      simp only [readPattern, Members.optional, hflat, hparts, Option.map_none, Option.map_some,
        Except.map_eq_ok, readFlat_eq_ok]
      cases p <;> simp [Pattern.GivenBy, hflat, hparts, Pattern.WellFormed]
    | some v' => cases p <;> simp [readPattern, Members.optional, Pattern.GivenBy, hflat, hparts]

/-! ### Voices -/

theorem readRole_eq_ok {role : Role} :
    readRole c = .ok role ↔ c.value.member? "role" = some (Named.toJson role) := by
  simp only [readRole, Except.bind_eq_ok, Cursor.members_eq_ok, Members.required_eq_ok,
    exists_exists_and_eq_and, Cursor.textIn_ofName?_eq_ok, exists_eq_right, Json.member?_eq_some]

theorem readEnvelope_eq_ok {e : Envelope} : readEnvelope c = .ok e ↔ e.GivenBy c.value := by
  simp only [readEnvelope, Except.bind_eq_ok, Cursor.members_eq_ok, Members.required_eq_ok,
    exists_exists_and_eq_and, Cursor.integerIn_nibble_eq_ok, Except.pure_eq_ok, exists_eq_right]
  constructor
  · rintro ⟨entries, hvalue, _, hattack, _, hdecay, _, hsustain, _, hrelease, rfl⟩
    rw [hvalue]
    exact ⟨hattack, hdecay, hsustain, hrelease⟩
  · rintro ⟨hattack, hdecay, hsustain, hrelease⟩
    obtain ⟨entries, hvalue, hattack⟩ := Json.member?_eq_some.1 hattack
    rw [hvalue] at hdecay hsustain hrelease
    exact ⟨entries, hvalue, _, hattack, _, hdecay, _, hsustain, _, hrelease, rfl⟩

/-- A pulse width is read if it is there exactly for the pulse, and in its range. -/
theorem readPulseWidth_eq_ok {waveform : Waveform} {width : Option UInt16} :
    readPulseWidth o waveform = .ok width ↔
      o.entries.lookup "pulseWidth" = width.map (fun w => .ofNat w.toNat) ∧
        (width.isSome ↔ waveform = .pulse) ∧ ∀ w ∈ width, w.toNat ≤ pulseWidthLimit := by
  have hfits : pulseWidthLimit < 65536 := by decide
  cases hmember : o.entries.lookup "pulseWidth" with
  | none =>
    by_cases hpulse : waveform = .pulse <;> cases width <;>
      simp [readPulseWidth, Members.optional, hmember, hpulse]
  | some v =>
    by_cases hpulse : waveform = .pulse <;> cases width <;>
      simp [readPulseWidth, Members.optional, hmember, hpulse, Except.map_eq_ok,
        Cursor.integerIn_word_eq_ok hfits]

theorem readFilter_eq_ok {w : FilterWish} :
    readFilter c = .ok w ↔ w.GivenBy c.value ∧ w.cutoff.toNat ≤ cutoffLimit := by
  have hfits : cutoffLimit < 65536 := by decide
  simp only [readFilter, Except.bind_eq_ok, Cursor.members_eq_ok, Members.required_eq_ok,
    exists_exists_and_eq_and, Cursor.integerIn_nibble_eq_ok, Except.pure_eq_ok,
    Cursor.textIn_ofName?_eq_ok, Cursor.integerIn_word_eq_ok hfits]
  constructor
  · rintro ⟨entries, hvalue, _, hkind, _, rfl, _, hcutoff, _, ⟨rfl, hle⟩, _, hresonance, _,
      rfl, rfl⟩
    rw [hvalue]
    exact ⟨⟨hkind, hcutoff, hresonance⟩, hle⟩
  · rintro ⟨⟨hkind, hcutoff, hresonance⟩, hle⟩
    obtain ⟨entries, hvalue, hkind⟩ := Json.member?_eq_some.1 hkind
    rw [hvalue] at hcutoff hresonance
    exact ⟨entries, hvalue, _, hkind, _, rfl, _, hcutoff, _, ⟨rfl, hle⟩, _, hresonance, _, rfl, rfl⟩

/-- A voice whose role is known is read if it gives the rest and is well formed. -/
theorem readVoice_eq_ok {role : Role} (hknown : c.value.member? "role" = some (Named.toJson role))
    {voice : Voice} : readVoice role c = .ok voice ↔
      voice.role = role ∧ voice.GivenBy c.value ∧ voice.WellFormed := by
  simp only [readVoice, Except.bind_eq_ok, Cursor.members_eq_ok, Members.required_eq_ok,
    exists_exists_and_eq_and, Except.pure_eq_ok, Cursor.textIn_ofName?_eq_ok, readEnvelope_eq_ok,
    readPulseWidth_eq_ok, readFilter_eq_ok, readPattern_eq_ok]
  constructor
  · rintro ⟨entries, hvalue, _, hwaveform, _, rfl, _, hadsr', envelope, hadsr, width,
      ⟨hpulseWidth, hisSome, hle⟩, _, hfilter', wish, ⟨hfilter, hcutoff⟩, pattern, ⟨hgiven, hwell⟩,
      rfl⟩
    rw [hvalue] at hknown ⊢
    exact ⟨rfl,
      ⟨hknown, hwaveform, ⟨_, hadsr', hadsr⟩, hpulseWidth, ⟨_, hfilter', hfilter⟩, hgiven⟩,
      ⟨hisSome, hle, hcutoff, hwell⟩⟩
  · rintro ⟨rfl, hgiven, hwell⟩
    obtain ⟨entries, hvalue, hwaveform⟩ := Json.member?_eq_some.1 hgiven.waveform
    rw [hvalue] at hgiven
    obtain ⟨-, -, ⟨_, hadsr', hadsr⟩, hpulseWidth, ⟨_, hfilter', hfilter⟩, hpattern⟩ := hgiven
    exact ⟨entries, hvalue, _, hwaveform, _, rfl, _, hadsr', _, hadsr, _,
      ⟨hpulseWidth, hwell.pulseWidth_isSome, hwell.pulseWidth_le⟩, _, hfilter', _,
      ⟨hfilter, hwell.cutoff_le⟩, _, ⟨hpattern, hwell.pattern⟩, rfl⟩

private theorem unplayed_eq_none (roles : Trio Role) :
    (Named.all : List Role).find? (fun role => role ∉ roles.toList) = none ↔
      ∀ role : Role, role ∈ roles.toList := by
  simp only [List.find?_eq_none, decide_eq_true_eq, Classical.not_not]
  exact ⟨fun h role => h role (by cases role <;> decide), fun h role _ => h role⟩

/-- Voices are read if there are three, which play all roles and are well formed. -/
theorem readVoices_eq_ok {voices : Trio Voice} : readVoices c = .ok voices ↔
    VoicesGivenBy voices c.value ∧ (∀ role : Role, role ∈ voices.toList.map Voice.role) ∧
      ∀ voice ∈ voices.toList, voice.WellFormed := by
  simp only [readVoices, Except.bind_eq_ok, Cursor.items_eq_ok, exists_exists_and_eq_and,
    VoicesGivenBy]
  constructor
  · rintro ⟨items, hvalue, h⟩
    rcases items with _ | ⟨v₁, _ | ⟨v₂, _ | ⟨v₃, _ | ⟨v₄, more⟩⟩⟩⟩
    case cons.cons.cons.nil =>
      simp only [List.mapIdx_cons, List.mapIdx_nil, Except.bind_eq_ok, readRole_eq_ok] at h
      obtain ⟨r₁, hknown₁, r₂, hknown₂, r₃, hknown₃, h⟩ := h
      split at h
      · exact absurd h Cursor.reject_ne_ok
      · next hplayed =>
        simp only [Except.bind_eq_ok, Except.pure_eq_ok] at h
        obtain ⟨w₁, hread₁, w₂, hread₂, w₃, hread₃, rfl⟩ := h
        obtain ⟨rfl, hgiven₁, hwell₁⟩ := (readVoice_eq_ok hknown₁).1 hread₁
        obtain ⟨rfl, hgiven₂, hwell₂⟩ := (readVoice_eq_ok hknown₂).1 hread₂
        obtain ⟨rfl, hgiven₃, hwell₃⟩ := (readVoice_eq_ok hknown₃).1 hread₃
        exact ⟨⟨_, hvalue, by simp [Trio.toList, hgiven₁, hgiven₂, hgiven₃]⟩,
          (unplayed_eq_none _).1 hplayed, by simp [Trio.toList, hwell₁, hwell₂, hwell₃]⟩
    all_goals simp [List.mapIdx_cons] at h
  · rintro ⟨⟨items, hvalue, hgiven⟩, hroles, hwell⟩
    obtain ⟨w₁, w₂, w₃⟩ := voices
    simp only [Trio.toList, List.forall₂_cons_right_iff, List.forall₂_nil_right_iff] at hgiven
    obtain ⟨v₁, _, hgiven₁, ⟨v₂, _, hgiven₂, ⟨v₃, _, hgiven₃, rfl, rfl⟩, rfl⟩, rfl⟩ := hgiven
    simp only [Trio.toList, List.forall_mem_cons] at hwell
    obtain ⟨hwell₁, hwell₂, hwell₃, -⟩ := hwell
    have hplayed := (unplayed_eq_none ⟨w₁.role, w₂.role, w₃.role⟩).2 hroles
    refine ⟨_, hvalue, ?_⟩
    simp only [List.mapIdx_cons, List.mapIdx_nil, Except.bind_eq_ok, readRole_eq_ok]
    refine ⟨_, hgiven₁.role, _, hgiven₂.role, _, hgiven₃.role, ?_⟩
    simp only [hplayed, Except.bind_eq_ok, Except.pure_eq_ok]
    exact ⟨w₁, (readVoice_eq_ok hgiven₁.role).2 ⟨rfl, hgiven₁, hwell₁⟩,
      w₂, (readVoice_eq_ok hgiven₂.role).2 ⟨rfl, hgiven₂, hwell₂⟩,
      w₃, (readVoice_eq_ok hgiven₃.role).2 ⟨rfl, hgiven₃, hwell₃⟩, rfl⟩

end Readers

/-! ### Songs -/

theorem readMetadata_eq_ok {root : Members} {name text : String} :
    readMetadata root name = .ok text ↔ TextGivenBy (.object root.entries) name text := by
  cases hmember : root.entries.lookup name <;>
    simp [readMetadata, Members.optional, hmember, TextGivenBy, Cursor.text_eq_ok,
      eq_comm (a := "")]

/-- A document is read as a song exactly if it gives the song and the song is well formed. -/
theorem Song.ofJson_eq_ok {document : Json} {s : Song} :
    Song.ofJson document = .ok s ↔ s.GivenBy document ∧ s.WellFormed := by
  simp only [Song.ofJson, Except.bind_eq_ok, Cursor.members_eq_ok, Members.required_eq_ok,
    exists_exists_and_eq_and, Except.pure_eq_ok, Cursor.textIn_ofName?_eq_ok,
    Cursor.integerIn_tempo_eq_ok, readVoices_eq_ok, readMetadata_eq_ok]
  constructor
  · rintro ⟨entries, rfl, _, htempo, _, rfl, _, hkey, _, rfl, _, hscale, _, rfl, _, hmember, voices,
      ⟨hgiven, hroles, hwell⟩, _, htitle, _, hauthor, _, hreleased, rfl⟩
    exact ⟨⟨htempo, hkey, hscale, ⟨_, hmember, hgiven⟩, htitle, hauthor, hreleased⟩, hroles, hwell⟩
  · rintro ⟨⟨htempo, hkey, hscale, ⟨v, hmember, hgiven⟩, htitle, hauthor, hreleased⟩, hroles, hwell⟩
    obtain ⟨entries, rfl, htempo⟩ := Json.member?_eq_some.1 htempo
    exact ⟨entries, rfl, _, htempo, _, rfl, _, hkey, _, rfl, _, hscale, _, rfl, _, hmember, _,
      ⟨hgiven, hroles, hwell⟩, _, htitle, _, hauthor, _, hreleased, rfl⟩

/-! ### Accepted songs -/

/-- The song of a document is well formed. -/
theorem Song.wellFormed_of_ofJson {document : Json} {s : Song} (h : Song.ofJson document = .ok s) :
    s.WellFormed :=
  (Song.ofJson_eq_ok.1 h).2

/-! ### A song -/

/-- The nibble in the middle. -/
def middleNibble : Nibble :=
  ⟨8, Nat.le_of_ble_eq_true rfl⟩

/-- A voice that rests for one step and then repeats one note. -/
def sampleVoice (role : Role) (waveform : Waveform) (pulseWidth : Option UInt16) : Voice where
  role := role
  waveform := waveform
  envelope := ⟨middleNibble, middleNibble, middleNibble, middleNibble⟩
  pulseWidth := pulseWidth
  filter := ⟨.lowPass, 1024, middleNibble⟩
  pattern := .flat (⟨none, .quarter⟩ ::
    List.replicate 63 ⟨some ⟨.a, ⟨4, Nat.le_add_right 2 2, Nat.le_add_right 4 1⟩⟩, .eighth⟩)

/-- A song that is accepted. -/
def sampleSong : Song where
  tempo := .bpm160
  key := .a
  scale := .minor
  voices := ⟨sampleVoice .lead .pulse (some 2048), sampleVoice .bass .triangle none,
    sampleVoice .arpOrDrums .noise none⟩
  title := ""
  author := ""
  released := ""

theorem ofJson_sampleSong : Song.ofJson sampleSong.toJson = .ok sampleSong := by
  have hcomputed : (Song.ofJson sampleSong.toJson).toOption = some sampleSong := by
    decide +kernel
  cases h : Song.ofJson sampleSong.toJson with
  | error rejection =>
    rw [h] at hcomputed
    cases hcomputed
  | ok s =>
    rw [h] at hcomputed
    exact congrArg Except.ok (Option.some.inj hcomputed)

end SidTune
