import Mathlib.Data.List.Perm.Subperm
import SidTune.Proofs.Song.Given

/-!
# The grammar of song documents

What a song document looks like, told about JSON values alone: which members each object has to
have, which names and numbers they may hold, and how long the arrays are. Only objects have members
and only arrays have items, so whatever has to have a member is an object. A document is read as a
song exactly if it has this form, and the song says in every field what the document says.

## Main definitions

* `SidTune.Json.Has`: a member that is there and has a property.
* `SidTune.Json.IsStep`, `SidTune.Json.IsVoice`, `SidTune.Json.IsSong`: the grammar.

## Main results

* `SidTune.Json.isStep_iff`, `SidTune.Json.isVoice_iff`, `SidTune.Json.isSong_iff`: what has the
  form of a part gives such a part, and a well-formed one.
* `SidTune.Song.ofJson_accepts`: the reader accepts what the grammar describes.
-/

namespace SidTune

namespace Json

/-! ### The grammar -/

/-- An object with a member that has a property. -/
def Has (v : Json) (name : String) (P : Json → Prop) : Prop :=
  ∃ c, v.member? name = some c ∧ P c

/-- A text of a list. -/
def IsNameOf (names : List String) (v : Json) : Prop :=
  ∃ text ∈ names, v = .string text

/-- The names of the pitch classes. -/
def pitchClassNames : List String :=
  ["C", "C#", "D", "D#", "E", "F", "F#", "G", "G#", "A", "A#", "B"]

/-- An integer of a list. -/
def IsOneOf (numbers : List Nat) (v : Json) : Prop :=
  ∃ n ∈ numbers, v = .ofNat n

/-- An integer from one bound to another. -/
def IsBetween (least most : Nat) (v : Json) : Prop :=
  ∃ n, least ≤ n ∧ n ≤ most ∧ v = .ofNat n

/-- A step is a rest in octave zero, or a pitch class in one of the octaves from two to five. -/
structure IsStep (v : Json) : Prop where
  note : v.Has "note" (· = .string "REST") ∧ v.Has "octave" (· = .ofNat 0) ∨
    v.Has "note" (IsNameOf pitchClassNames) ∧ v.Has "octave" (IsBetween 2 5)
  duration : v.Has "duration" (IsOneOf [4, 8, 16])

/-- An array of steps, so many of them. -/
def IsStepList (least most : Nat) (v : Json) : Prop :=
  ∃ items, v = .array items ∧ least ≤ items.length ∧ items.length ≤ most ∧
    ∀ item ∈ items, item.IsStep

/-- An envelope has four stages. -/
def IsEnvelope (v : Json) : Prop :=
  ∀ stage ∈ ["attack", "decay", "sustain", "release"], v.Has stage (IsBetween 0 15)

/-- A wish for the filter. -/
structure IsFilterWish (v : Json) : Prop where
  type : v.Has "type" (IsNameOf ["NONE", "LP", "BP", "HP", "LP+BP", "HP+BP"])
  cutoff : v.Has "cutoff" (IsBetween 0 2047)
  resonance : v.Has "resonance" (IsBetween 0 15)

/-- A pattern has three sections of sixteen steps each. -/
def IsSectionList (v : Json) : Prop :=
  ∀ part ∈ ["intro", "development", "cadence"], v.Has part (IsStepList 16 16)

/-- A voice has a pulse width exactly if its waveform is the pulse, and its pattern in exactly one
of the two shapes. -/
structure IsVoice (v : Json) : Prop where
  role : v.Has "role" (IsNameOf ["LEAD", "BASS", "ARP_OR_DRUMS"])
  waveform : v.Has "waveform" (IsNameOf ["TRI", "SAW", "PULSE", "NOISE"])
  adsr : v.Has "adsr" IsEnvelope
  pulseWidth : v.Has "waveform" (· = .string "PULSE") ∧ v.Has "pulseWidth" (IsBetween 0 4095) ∨
    ¬ v.Has "waveform" (· = .string "PULSE") ∧ v.member? "pulseWidth" = none
  filter : v.Has "filter" IsFilterWish
  pattern : v.Has "pattern" (IsStepList 64 192) ∧ v.member? "patternSections" = none ∨
    v.member? "pattern" = none ∧ v.Has "patternSections" IsSectionList

/-- Three voices whose roles are the three roles in some order. -/
def IsVoiceList (v : Json) : Prop :=
  ∃ items, v = .array items ∧ items.length = 3 ∧ (∀ item ∈ items, item.IsVoice) ∧
    (items.map fun item => item.member? "role").Perm
      (["LEAD", "BASS", "ARP_OR_DRUMS"].map fun role => some (.string role))

/-- A song has a tempo, a key, a scale and three voices; a title, an author and a date of release
may be absent. -/
structure IsSong (v : Json) : Prop where
  bpm : v.Has "bpm" (IsOneOf [60, 80, 90, 100, 120, 140, 160])
  key : v.Has "key" (IsNameOf pitchClassNames)
  scale : v.Has "scale"
    (IsNameOf ["major", "minor", "dorian", "phrygian", "mixolydian", "pentatonic"])
  voices : v.Has "voices" IsVoiceList
  texts : ∀ name ∈ ["title", "author", "released"],
    v.member? name = none ∨ v.Has name fun c => ∃ text, c = .string text

/-! ### Names and numbers -/

section

variable {v : Json} {name : String}

theorem has_eq {c : Json} : v.Has name (· = c) ↔ v.member? name = some c := by
  simp [Has]

/-- A name of a list is the name of a member of a set that has those names. -/
theorem has_isNameOf (α : Type) [Named α] [LawfulNamed α] {names : List String}
    (hall : (Named.all : List α).map Named.name = names) :
    v.Has name (IsNameOf names) ↔ ∃ a : α, v.member? name = some (Named.toJson a) := by
  subst hall
  constructor
  · rintro ⟨_, hmember, _, hmem, rfl⟩
    obtain ⟨a, -, rfl⟩ := List.mem_map.1 hmem
    exact ⟨a, hmember⟩
  · rintro ⟨a, hmember⟩
    have hmem : a ∈ Named.all := List.mem_of_find?_eq_some (LawfulNamed.ofName?_name a)
    exact ⟨_, hmember, _, List.mem_map_of_mem hmem, rfl⟩

theorem has_isBetween_nibble :
    v.Has name (IsBetween 0 15) ↔ ∃ n : Nibble, v.member? name = some (.ofNat n) := by
  constructor
  · rintro ⟨_, hmember, n, -, hle, rfl⟩
    exact ⟨⟨n, by omega⟩, hmember⟩
  · rintro ⟨n, hmember⟩
    exact ⟨_, hmember, n, Nat.zero_le _, by omega, rfl⟩

theorem has_isBetween_word {most : Nat} (hfits : most < 65536) :
    v.Has name (IsBetween 0 most) ↔
      ∃ w : UInt16, v.member? name = some (.ofNat w.toNat) ∧ w.toNat ≤ most := by
  constructor
  · rintro ⟨_, hmember, n, -, hle, rfl⟩
    have hsame : (UInt16.ofNat n).toNat = n := by
      rw [UInt16.toNat_ofNat', Nat.mod_eq_of_lt (by omega)]
    exact ⟨UInt16.ofNat n, by rw [hsame]; exact ⟨hmember, hle⟩⟩
  · rintro ⟨w, hmember, hle⟩
    exact ⟨_, hmember, w.toNat, Nat.zero_le _, hle, rfl⟩

private theorem has_isOneOf_bpm : v.Has name (IsOneOf [60, 80, 90, 100, 120, 140, 160]) ↔
    ∃ tempo : Tempo, v.member? name = some (.ofNat tempo.bpm) := by
  constructor
  · rintro ⟨_, hmember, n, hmem, rfl⟩
    obtain ⟨tempo, -, rfl⟩ : ∃ tempo ∈ Tempo.all, tempo.bpm = n := List.mem_map.1 hmem
    exact ⟨tempo, hmember⟩
  · rintro ⟨tempo, hmember⟩
    exact ⟨_, hmember, _, by cases tempo <;> decide, rfl⟩

private theorem has_isOneOf_denominator : v.Has name (IsOneOf [4, 8, 16]) ↔
    ∃ length : NoteValue, v.member? name = some (.ofNat length.denominator) := by
  constructor
  · rintro ⟨_, hmember, n, hmem, rfl⟩
    obtain ⟨length, -, rfl⟩ : ∃ length ∈ NoteValue.all, length.denominator = n :=
      List.mem_map.1 hmem
    exact ⟨length, hmember⟩
  · rintro ⟨length, hmember⟩
    exact ⟨_, hmember, _, by cases length <;> decide, rfl⟩

end

/-! ### Steps and patterns -/

/-- What has the form of a step gives one. -/
theorem isStep_iff {v : Json} : v.IsStep ↔ ∃ s : Step, s.GivenBy v := by
  constructor
  · rintro ⟨hnote, hduration⟩
    obtain ⟨length, hlength⟩ := has_isOneOf_denominator.1 hduration
    rcases hnote with ⟨hrest, hoctave⟩ | ⟨hpitched, hoctave⟩
    · exact ⟨⟨none, length⟩, has_eq.1 hrest, has_eq.1 hoctave, hlength⟩
    · obtain ⟨pitchClass, hpitch⟩ := (has_isNameOf PitchClass rfl).1 hpitched
      obtain ⟨_, hmember, n, hlow, hhigh, rfl⟩ := hoctave
      exact ⟨⟨some ⟨pitchClass, n, hlow, hhigh⟩, length⟩, hpitch, hmember, hlength⟩
  · rintro ⟨⟨pitch?, length⟩, hnote, hoctave, hlength⟩
    refine ⟨?_, has_isOneOf_denominator.2 ⟨length, hlength⟩⟩
    cases pitch? with
    | none => exact .inl ⟨has_eq.2 hnote, has_eq.2 hoctave⟩
    | some p => exact .inr ⟨(has_isNameOf PitchClass rfl).2 ⟨p.pitchClass, hnote⟩,
        ⟨_, hoctave, p.octave.number, p.octave.two_le, p.octave.le_five, rfl⟩⟩

/-- Each of a list of values gives something exactly if some list is given by them in turn. -/
theorem exists_forall₂_iff {α β : Type} {R : α → β → Prop} {as : List α} :
    (∃ bs, List.Forall₂ R as bs) ↔ ∀ a ∈ as, ∃ b, R a b := by
  induction as with
  | nil => simp
  | cons a as ih => simp only [List.forall₂_cons_left_iff, List.forall_mem_cons, ← ih]; grind

private theorem forall₂_and_right {α β : Type} {R : α → β → Prop} {Q : β → Prop} {as : List α}
    {bs : List β} :
    List.Forall₂ (fun a b => R a b ∧ Q b) as bs ↔ List.Forall₂ R as bs ∧ ∀ b ∈ bs, Q b := by
  induction as generalizing bs with
  | nil => cases bs <;> simp
  | cons a as ih =>
    cases bs with
    | nil => simp
    | cons b bs => simp only [List.forall₂_cons, ih, List.forall_mem_cons]; grind

theorem isStepList_iff {least most : Nat} {v : Json} : v.IsStepList least most ↔
    ∃ steps, StepsGivenBy steps v ∧ least ≤ steps.length ∧ steps.length ≤ most := by
  simp only [IsStepList, StepsGivenBy, isStep_iff, ← exists_forall₂_iff]
  constructor
  · rintro ⟨items, hvalue, hlow, hhigh, steps, hgiven⟩
    rw [hgiven.length_eq] at hlow hhigh
    exact ⟨steps, ⟨items, hvalue, hgiven⟩, hlow, hhigh⟩
  · rintro ⟨steps, ⟨items, hvalue, hgiven⟩, hlow, hhigh⟩
    rw [← hgiven.length_eq] at hlow hhigh
    exact ⟨items, hvalue, hlow, hhigh, steps, hgiven⟩

theorem has_section_iff {v : Json} {name : String} : v.Has name (IsStepList 16 16) ↔
    ∃ steps, (∃ c, v.member? name = some c ∧ StepsGivenBy steps c) ∧
      steps.length = Pattern.sectionSize := by
  constructor
  · rintro ⟨c, hmember, hform⟩
    obtain ⟨steps, hgiven, hlow, hhigh⟩ := isStepList_iff.1 hform
    exact ⟨steps, ⟨c, hmember, hgiven⟩, Nat.le_antisymm hhigh hlow⟩
  · rintro ⟨steps, ⟨c, hmember, hgiven⟩, hsize⟩
    exact ⟨c, hmember, isStepList_iff.2 ⟨steps, hgiven, Nat.le_of_eq hsize.symm,
      Nat.le_of_eq hsize⟩⟩

theorem isPattern_iff {v : Json} :
    (v.Has "pattern" (IsStepList 64 192) ∧ v.member? "patternSections" = none ∨
      v.member? "pattern" = none ∧ v.Has "patternSections" IsSectionList) ↔
      ∃ p : Pattern, p.GivenBy v ∧ p.WellFormed := by
  constructor
  · rintro (⟨⟨c, hmember, hform⟩, hother⟩ | ⟨hother, ⟨c, hmember, hform⟩⟩)
    · obtain ⟨steps, hgiven, hbounds⟩ := isStepList_iff.1 hform
      exact ⟨.flat steps, ⟨⟨c, hmember, hgiven⟩, hother⟩, hbounds⟩
    · simp only [IsSectionList, List.forall_mem_cons, has_section_iff] at hform
      obtain ⟨⟨intro, hi, hsi⟩, ⟨development, hd, hsd⟩, ⟨cadence, hc, hsc⟩, -⟩ := hform
      exact ⟨.sections intro development cadence, ⟨hother, c, hmember, hi, hd, hc⟩, hsi, hsd, hsc⟩
  · rintro ⟨steps | ⟨intro, development, cadence⟩, hgiven, hwell⟩
    · obtain ⟨⟨c, hmember, hgiven⟩, hother⟩ := hgiven
      exact .inl ⟨⟨c, hmember, isStepList_iff.2 ⟨steps, hgiven, hwell⟩⟩, hother⟩
    · obtain ⟨hother, c, hmember, hi, hd, hc⟩ := hgiven
      obtain ⟨hsi, hsd, hsc⟩ := hwell
      refine .inr ⟨hother, c, hmember, ?_⟩
      simp only [IsSectionList, List.forall_mem_cons, has_section_iff, List.not_mem_nil,
        false_implies, implies_true, and_true]
      exact ⟨⟨intro, hi, hsi⟩, ⟨development, hd, hsd⟩, cadence, hc, hsc⟩

/-! ### Voices -/

theorem isEnvelope_iff {v : Json} : v.IsEnvelope ↔ ∃ e : Envelope, e.GivenBy v := by
  simp only [IsEnvelope, List.forall_mem_cons, has_isBetween_nibble, List.not_mem_nil,
    false_implies, implies_true, and_true]
  constructor
  · rintro ⟨⟨a, hattack⟩, ⟨d, hdecay⟩, ⟨s, hsustain⟩, r, hrelease⟩
    exact ⟨⟨a, d, s, r⟩, hattack, hdecay, hsustain, hrelease⟩
  · rintro ⟨e, hattack, hdecay, hsustain, hrelease⟩
    exact ⟨⟨_, hattack⟩, ⟨_, hdecay⟩, ⟨_, hsustain⟩, _, hrelease⟩

theorem isFilterWish_iff {v : Json} :
    v.IsFilterWish ↔ ∃ w : FilterWish, w.GivenBy v ∧ w.cutoff.toNat ≤ cutoffLimit := by
  constructor
  · rintro ⟨htype, hcutoff, hresonance⟩
    obtain ⟨kind, hkind⟩ := (has_isNameOf FilterKind rfl).1 htype
    obtain ⟨c, hc, hle⟩ := (has_isBetween_word (by decide)).1 hcutoff
    obtain ⟨r, hr⟩ := has_isBetween_nibble.1 hresonance
    exact ⟨⟨kind, c, r⟩, ⟨hkind, hc, hr⟩, hle⟩
  · rintro ⟨w, ⟨hkind', hcutoff, hresonance⟩, hle⟩
    exact ⟨(has_isNameOf FilterKind rfl).2 ⟨_, hkind'⟩,
      (has_isBetween_word (by decide)).2 ⟨_, hcutoff, hle⟩, has_isBetween_nibble.2 ⟨_, hresonance⟩⟩

private theorem has_pulse_iff {v : Json} {waveform : Waveform}
    (h : v.member? "waveform" = some (Named.toJson waveform)) :
    v.Has "waveform" (· = .string "PULSE") ↔ waveform = .pulse := by
  rw [has_eq, h, Option.some_inj]
  cases waveform <;> simp [Named.toJson, Named.name]

/-- What has the form of a voice gives a well-formed one. -/
theorem isVoice_iff {v : Json} :
    v.IsVoice ↔ ∃ voice : Voice, voice.GivenBy v ∧ voice.WellFormed := by
  constructor
  · rintro ⟨hrole, hwaveform, ⟨c, hadsr, henvelope⟩, hpulseWidth, ⟨c', hfilter, hwish⟩, hpattern⟩
    obtain ⟨r, hr⟩ := (has_isNameOf Role rfl).1 hrole
    obtain ⟨w, hw⟩ := (has_isNameOf Waveform rfl).1 hwaveform
    obtain ⟨e, he⟩ := isEnvelope_iff.1 henvelope
    obtain ⟨f, hf, hcutoff⟩ := isFilterWish_iff.1 hwish
    obtain ⟨p, hp, hwell⟩ := isPattern_iff.1 hpattern
    rw [has_pulse_iff hw] at hpulseWidth
    rcases hpulseWidth with ⟨hpulse, hwidth'⟩ | ⟨hother, habsent⟩
    · obtain ⟨width, hwidth, hle⟩ := (has_isBetween_word (by decide)).1 hwidth'
      exact ⟨⟨r, w, e, some width, f, p⟩, ⟨hr, hw, ⟨c, hadsr, he⟩, hwidth, ⟨c', hfilter, hf⟩, hp⟩,
        ⟨by simp [hpulse], fun w hw => Option.some_inj.1 hw ▸ hle, hcutoff, hwell⟩⟩
    · exact ⟨⟨r, w, e, none, f, p⟩, ⟨hr, hw, ⟨c, hadsr, he⟩, habsent, ⟨c', hfilter, hf⟩, hp⟩,
        ⟨by simp [hother], by simp, hcutoff, hwell⟩⟩
  · rintro ⟨voice,
      ⟨hrole, hwaveform, ⟨c, hadsr, henvelope⟩, hpulseWidth, ⟨c', hfilter, hwish⟩, hpattern⟩,
      ⟨hisSome, hle, hcutoff, hwell⟩⟩
    refine ⟨(has_isNameOf Role rfl).2 ⟨_, hrole⟩, (has_isNameOf Waveform rfl).2 ⟨_, hwaveform⟩,
      ⟨c, hadsr, isEnvelope_iff.2 ⟨_, henvelope⟩⟩, ?_,
      ⟨c', hfilter, isFilterWish_iff.2 ⟨_, hwish, hcutoff⟩⟩, isPattern_iff.2 ⟨_, hpattern, hwell⟩⟩
    rw [has_pulse_iff hwaveform, ← hisSome]
    cases hwidth' : voice.pulseWidth with
    | none => exact .inr ⟨by simp, by rw [hpulseWidth, hwidth']; rfl⟩
    | some w =>
      rw [hwidth'] at hpulseWidth
      exact .inl ⟨rfl, (has_isBetween_word (by decide)).2 ⟨w, hpulseWidth, hle w hwidth'⟩⟩

/-- Three roles are all roles exactly if they are the three in some order. -/
theorem perm_roles_iff {roles : List Role} (hthree : roles.length = 3) :
    roles.Perm Named.all ↔ ∀ role : Role, role ∈ roles := by
  constructor
  · intro hperm role
    exact hperm.mem_iff.2 (by cases role <;> decide)
  · intro hall
    have hdistinct : (Named.all : List Role).Nodup := by decide
    exact ((List.subperm_of_subset hdistinct fun role _ => hall role).perm_of_length_le
      (Nat.le_of_eq hthree)).symm

private theorem perm_names_iff {roles : List Role} (hthree : roles.length = 3) :
    (roles.map fun role => some (Named.toJson role)).Perm
        (["LEAD", "BASS", "ARP_OR_DRUMS"].map fun role => some (.string role)) ↔
      ∀ role : Role, role ∈ roles := by
  have hinjective : Function.Injective fun role : Role => some (Named.toJson role) := by
    intro a b h
    cases a <;> cases b <;> simp_all [Named.toJson, Named.name]
  have hall : (["LEAD", "BASS", "ARP_OR_DRUMS"].map fun role => some (Json.string role)) =
      Named.all.map fun role : Role => some (Named.toJson role) := rfl
  rw [hall, List.map_perm_map_iff hinjective, perm_roles_iff hthree]

private theorem map_role_eq {items : List Json} {voices : List Voice}
    (hgiven : List.Forall₂ (fun item voice => voice.GivenBy item) items voices) :
    (items.map fun item => item.member? "role") =
      (voices.map Voice.role).map fun role => some (Named.toJson role) := by
  induction hgiven with
  | nil => rfl
  | cons hfirst _ ih => simp only [List.map_cons, hfirst.role, ih]

/-- Values have the form of voices exactly if they give voices that are well formed. -/
theorem forall_isVoice_iff {items : List Json} : (∀ item ∈ items, item.IsVoice) ↔
    ∃ voices, List.Forall₂ (fun item (voice : Voice) => voice.GivenBy item) items voices ∧
      ∀ voice ∈ voices, voice.WellFormed := by
  simp only [isVoice_iff, ← exists_forall₂_iff, forall₂_and_right]

theorem isVoiceList_iff {v : Json} : v.IsVoiceList ↔
    ∃ voices : Trio Voice, VoicesGivenBy voices v ∧
      (∀ role : Role, role ∈ voices.toList.map Voice.role) ∧
      ∀ voice ∈ voices.toList, voice.WellFormed := by
  simp only [IsVoiceList, VoicesGivenBy, forall_isVoice_iff]
  constructor
  · rintro ⟨items, hvalue, hthree, ⟨voices, hgiven, hwell⟩, hperm⟩
    have hlength : voices.length = 3 := hgiven.length_eq.symm.trans hthree
    rw [map_role_eq hgiven, perm_names_iff (by simpa using hlength)] at hperm
    obtain ⟨v₁, v₂, v₃, rfl⟩ := List.length_eq_three.1 hlength
    exact ⟨⟨v₁, v₂, v₃⟩, ⟨items, hvalue, hgiven⟩, hperm, hwell⟩
  · rintro ⟨voices, ⟨items, hvalue, hgiven⟩, hroles, hwell⟩
    refine ⟨items, hvalue, by simp [hgiven.length_eq], ⟨_, hgiven, hwell⟩, ?_⟩
    rw [map_role_eq hgiven]
    exact (perm_names_iff (by simp)).2 hroles

/-! ### Songs -/

/-- A text that may be absent. -/
theorem isText_iff {v : Json} {name : String} :
    (v.member? name = none ∨ v.Has name fun c => ∃ text, c = .string text) ↔
      ∃ text, TextGivenBy v name text := by
  constructor
  · rintro (habsent | ⟨_, hmember, text, rfl⟩)
    · exact ⟨"", .inr ⟨habsent, rfl⟩⟩
    · exact ⟨text, .inl hmember⟩
  · rintro ⟨text, hmember | ⟨habsent, -⟩⟩
    · exact .inr ⟨_, hmember, text, rfl⟩
    · exact .inl habsent

/-- What has the form of a song gives a well-formed one. -/
theorem isSong_iff {v : Json} : v.IsSong ↔ ∃ s : Song, s.GivenBy v ∧ s.WellFormed := by
  have htexts : (∀ name ∈ ["title", "author", "released"], v.member? name = none ∨
      v.Has name fun c => ∃ text, c = .string text) ↔ (∃ text, TextGivenBy v "title" text) ∧
        (∃ text, TextGivenBy v "author" text) ∧ ∃ text, TextGivenBy v "released" text := by
    simp only [List.forall_mem_cons, isText_iff, List.not_mem_nil, false_implies, implies_true,
      and_true]
  constructor
  · rintro ⟨hbpm, hkey, hscale, ⟨c, hmember, hform⟩, hoptional⟩
    obtain ⟨tempo, htempo⟩ := has_isOneOf_bpm.1 hbpm
    obtain ⟨k, hk⟩ := (has_isNameOf PitchClass rfl).1 hkey
    obtain ⟨sc, hsc⟩ := (has_isNameOf Scale rfl).1 hscale
    obtain ⟨voices, hgiven, hroles, hwell⟩ := isVoiceList_iff.1 hform
    obtain ⟨⟨title, ht⟩, ⟨author, ha⟩, released, hr⟩ := htexts.1 hoptional
    exact ⟨⟨tempo, k, sc, voices, title, author, released⟩,
      ⟨htempo, hk, hsc, ⟨c, hmember, hgiven⟩, ht, ha, hr⟩, hroles, hwell⟩
  · rintro ⟨s, ⟨htempo', hkey, hscale, ⟨c, hmember, hgiven⟩, ht, ha, hr⟩, hroles, hwell⟩
    exact ⟨has_isOneOf_bpm.2 ⟨_, htempo'⟩, (has_isNameOf PitchClass rfl).2 ⟨_, hkey⟩,
      (has_isNameOf Scale rfl).2 ⟨_, hscale⟩,
      ⟨c, hmember, isVoiceList_iff.2 ⟨_, hgiven, hroles, hwell⟩⟩,
      htexts.2 ⟨⟨_, ht⟩, ⟨_, ha⟩, _, hr⟩⟩

end Json

/-- A value is read as a song exactly if it has the form of a song document, and the song that is
read is the well-formed one that the document gives, field by field. -/
theorem Song.ofJson_accepts (document : Json) :
    ((∃ s, Song.ofJson document = .ok s) ↔ document.IsSong) ∧
      ∀ s, Song.ofJson document = .ok s ↔ s.GivenBy document ∧ s.WellFormed := by
  refine ⟨?_, fun s => Song.ofJson_eq_ok⟩
  simp only [Song.ofJson_eq_ok, Json.isSong_iff]

end SidTune
