import SidTune.Song.Document

/-!
# Members that the format does not know

Every object of a song document may have members that the format does not define. Such a member is
passed over: it is not looked up, and no object that may have one is ever quoted in a rejection. So
a document may be cleaned of all of them without a difference to its song, or to how it is rejected.

A document is cleaned along the format: of an object the members are kept that the format knows,
each cleaned in its turn, and of an array all items. A value of another type is left as it is, and
so are the members that hold no objects of the format.

## Main definitions

* `SidTune.Json.restrict`, `SidTune.Json.eachItem`: an object with no other members than those
  listed, and an array with every item changed.
* `SidTune.Json.cleanSong`: a document without unknown members.

## Main results

* `SidTune.Json.lookup_knownMembers`: known members are found as before.
* `SidTune.readStep_clean`, `SidTune.readPattern_clean`, `SidTune.readVoice_clean`: the readers of
  the parts do not see unknown members.
* `SidTune.Song.ofJson_cleanSong`: neither does the reader of songs.
-/

namespace SidTune

/-! ### Documents without unknown members -/

namespace Json

/-- The names that an object of the format may have, with what is done to the value of each. -/
abbrev Parts := List (String × (Json → Json))

/-- Names whose values are left as they are. -/
def asIs (names : List String) : Parts :=
  names.map (·, id)

/-- Of some members those that are known. -/
def knownMembers (parts : Parts) (members : List (String × Json)) : List (String × Json) :=
  members.filterMap fun member =>
    (parts.lookup member.1).map fun clean => (member.1, clean member.2)

/-- An object with its known members alone. -/
def restrict (parts : Parts) : Json → Json
  | .object members => .object (knownMembers parts members)
  | v => v

/-- An array with the same done to every item. -/
def eachItem (clean : Json → Json) : Json → Json
  | .array items => .array (items.map clean)
  | v => v

/-- What the format knows of a step. -/
def stepParts : Parts :=
  asIs ["note", "octave", "duration"]

/-- An array of steps without unknown members. -/
def cleanSteps : Json → Json :=
  eachItem (restrict stepParts)

/-- What the format knows of three sections. -/
def sectionParts : Parts :=
  ["intro", "development", "cadence"].map (·, cleanSteps)

/-- What the format knows of an envelope. -/
def envelopeParts : Parts :=
  asIs ["attack", "decay", "sustain", "release"]

/-- What the format knows of a wish for the filter. -/
def filterParts : Parts :=
  asIs ["type", "cutoff", "resonance"]

/-- What the format knows of a voice. -/
def voiceParts : Parts :=
  asIs ["role", "waveform", "pulseWidth"] ++
    [("adsr", restrict envelopeParts), ("filter", restrict filterParts), ("pattern", cleanSteps),
      ("patternSections", restrict sectionParts)]

/-- What the format knows of a song. -/
def songParts : Parts :=
  asIs ["bpm", "key", "scale", "title", "author", "released"] ++
    [("voices", eachItem (restrict voiceParts))]

/-- A document without unknown members. -/
def cleanSong : Json → Json :=
  restrict songParts

/-- A known member is found as before and cleaned; others are not found. -/
theorem lookup_knownMembers (parts : Parts) (members : List (String × Json)) (name : String) :
    (knownMembers parts members).lookup name =
      (parts.lookup name).bind fun clean => (members.lookup name).map clean := by
  induction members with
  | nil => cases parts.lookup name <;> rfl
  | cons member rest ih =>
    obtain ⟨key, v⟩ := member
    rw [knownMembers, List.filterMap_cons, ← knownMembers, List.lookup_cons]
    by_cases hsame : name = key
    · subst hsame
      cases hknown : parts.lookup name with
      | none => simpa [hknown] using ih
      | some clean => simp
    · rw [beq_false_of_ne hsame]
      cases hknown : parts.lookup key <;> simp [ih, List.lookup_cons, beq_false_of_ne hsame]

example : cleanSong (.object [("mood", .null), ("voices", .array [.object [("role", .null),
      ("adsr", .object [("hold", .null), ("decay", .null)])], .null])]) =
    .object [("voices", .array [.object [("role", .null), ("adsr", .object [("decay", .null)])],
      .null])] := rfl

end Json

open Json

/-! ### Objects and arrays -/

/-- A cursor to what is made of a value. -/
def Cursor.map (clean : Json → Json) (c : Cursor) : Cursor :=
  ⟨clean c.value, c.location⟩

/-- Of the members of an object those that are known. -/
def Members.restrict (parts : Parts) (o : Members) : Members :=
  ⟨knownMembers parts o.entries, o.location⟩

section

variable {c : Cursor} {o : Members} {name : String} {parts : Parts} {clean : Json → Json}

@[simp] theorem Cursor.map_id : Cursor.map id = id := rfl

@[simp] theorem Cursor.reject_map {α : Type} {w : Violation} :
    (c.map clean).reject w = (c.reject w : Checked α) := rfl

/-- The members of a clean object are the known ones. What is no object is quoted as it was. -/
theorem Cursor.members_restrict (c : Cursor) (parts : Parts) :
    (c.map (Json.restrict parts)).members = Members.restrict parts <$> c.members := by
  obtain ⟨v, l⟩ := c
  cases v <;> rfl

/-- The items of a clean array are the clean items. What is no array is quoted as it was. -/
theorem Cursor.items_eachItem {expected : Expected} :
    (c.map (eachItem clean)).items expected = List.map (Cursor.map clean) <$> c.items expected := by
  obtain ⟨v, l⟩ := c
  cases v with
  | array items =>
    refine congrArg Except.ok ?_
    apply List.ext_getElem <;> simp [Cursor.map]
  | _ => rfl

theorem Members.optional_restrict (hknown : parts.lookup name = some clean) :
    (o.restrict parts).optional name = (o.optional name).map (Cursor.map clean) := by
  rw [optional, restrict, lookup_knownMembers, hknown, Option.bind_some, optional]
  cases o.entries.lookup name <;> rfl

theorem Members.optional_restrict_id (hknown : parts.lookup name = some id) :
    (o.restrict parts).optional name = o.optional name := by
  rw [optional_restrict hknown, Cursor.map_id, Option.map_id, id]

theorem Members.required_restrict (hknown : parts.lookup name = some clean) :
    (o.restrict parts).required name = Cursor.map clean <$> o.required name := by
  rw [required, optional_restrict hknown, required]
  cases o.optional name <;> rfl

theorem Members.required_restrict_id (hknown : parts.lookup name = some id) :
    (o.restrict parts).required name = o.required name := by
  rw [required_restrict hknown, Cursor.map_id, id_map]

end

/-! ### Steps and patterns -/

section

variable {c : Cursor} {o : Members}

/-- Of a step nothing but its note, octave and duration is read. -/
theorem readStep_clean : readStep (c.map (Json.restrict stepParts)) = readStep c := by
  simp (disch := simp [stepParts, asIs, List.lookup_cons]) only [readStep,
    Cursor.members_restrict, bind_map_left, Members.required_restrict_id]

theorem readSteps_clean : readSteps (c.map cleanSteps) = readSteps c := by
  have heach (cs : List Cursor) :
      (cs.map (Cursor.map (Json.restrict stepParts))).mapM readStep = cs.mapM readStep := by
    rw [List.mapM_map]
    exact congrArg (List.mapM · cs) (funext fun _ => readStep_clean)
  simp only [readSteps, cleanSteps, Cursor.items_eachItem, bind_map_left, heach]

theorem readFlat_clean : readFlat (c.map cleanSteps) = readFlat c := by
  simp only [readFlat, readSteps_clean, Cursor.reject_map]

theorem readSection_clean {name : String} (hknown : sectionParts.lookup name = some cleanSteps) :
    readSection (o.restrict sectionParts) name = readSection o name := by
  simp only [readSection, Members.required_restrict hknown, bind_map_left, readSteps_clean,
    Cursor.reject_map]

/-- Of a pattern nothing but its steps or its three sections is read. -/
theorem readPattern_clean : readPattern (o.restrict voiceParts) = readPattern o := by
  have hflat : (o.restrict voiceParts).optional "pattern" =
      (o.optional "pattern").map (Cursor.map cleanSteps) := Members.optional_restrict rfl
  have hparts : (o.restrict voiceParts).optional "patternSections" =
      (o.optional "patternSections").map (Cursor.map (Json.restrict sectionParts)) :=
    Members.optional_restrict rfl
  rw [readPattern, hflat, hparts, readPattern]
  cases o.optional "pattern" <;> cases o.optional "patternSections" <;>
    simp (disch := simp [sectionParts, List.lookup_cons]) only [Option.map_none,
      Option.map_some, readFlat_clean, Cursor.members_restrict, bind_map_left,
      readSection_clean] <;> rfl

/-! ### Voices -/

theorem readRole_clean : readRole (c.map (Json.restrict voiceParts)) = readRole c := by
  simp (disch := simp [voiceParts, asIs, List.lookup_cons]) only [readRole,
    Cursor.members_restrict, bind_map_left, Members.required_restrict_id]

theorem readEnvelope_clean :
    readEnvelope (c.map (Json.restrict envelopeParts)) = readEnvelope c := by
  simp (disch := simp [envelopeParts, asIs, List.lookup_cons]) only [readEnvelope,
    Cursor.members_restrict, bind_map_left, Members.required_restrict_id]

theorem readFilter_clean : readFilter (c.map (Json.restrict filterParts)) = readFilter c := by
  simp (disch := simp [filterParts, asIs, List.lookup_cons]) only [readFilter,
    Cursor.members_restrict, bind_map_left, Members.required_restrict_id]

theorem readPulseWidth_clean {waveform : Waveform} :
    readPulseWidth (o.restrict voiceParts) waveform = readPulseWidth o waveform := by
  rw [readPulseWidth, Members.optional_restrict_id rfl, readPulseWidth]
  rfl

theorem readVoice_clean {role : Role} :
    readVoice role (c.map (Json.restrict voiceParts)) = readVoice role c := by
  have hadsr {o : Members} : (o.restrict voiceParts).required "adsr" =
      Cursor.map (Json.restrict envelopeParts) <$> o.required "adsr" :=
    Members.required_restrict rfl
  have hfilter {o : Members} : (o.restrict voiceParts).required "filter" =
      Cursor.map (Json.restrict filterParts) <$> o.required "filter" :=
    Members.required_restrict rfl
  simp (disch := simp [voiceParts, asIs, List.lookup_cons]) only [readVoice,
    Cursor.members_restrict, bind_map_left, hadsr, hfilter, Members.required_restrict_id,
    readEnvelope_clean, readPulseWidth_clean, readFilter_clean, readPattern_clean]

/-- The voices are as many as before. -/
theorem readVoices_clean :
    readVoices (c.map (eachItem (Json.restrict voiceParts))) = readVoices c := by
  rw [readVoices, Cursor.items_eachItem, bind_map_left, readVoices]
  refine congrArg (c.items .voices >>= ·) (funext fun voices => ?_)
  rcases voices with _ | ⟨first, _ | ⟨second, _ | ⟨third, _ | ⟨fourth, more⟩⟩⟩⟩
  case cons.cons.cons.nil =>
    simp only [List.map_cons, List.map_nil, readRole_clean, readVoice_clean, Cursor.reject_map]
  all_goals simp only [List.map_cons, List.map_nil, List.length_cons, List.length_map,
    Cursor.reject_map]

end

/-! ### Songs -/

theorem readMetadata_clean {root : Members} {name : String}
    (hknown : songParts.lookup name = some id) :
    readMetadata (root.restrict songParts) name = readMetadata root name := by
  rw [readMetadata, Members.optional_restrict_id hknown, readMetadata]

/-- **Unknown members.** A document without the members that the format does not know gives the same
song, or is rejected for the same violation at the same place. -/
theorem Song.ofJson_cleanSong (d : Json) : Song.ofJson d.cleanSong = Song.ofJson d := by
  have hroot : Cursor.members ⟨d.cleanSong, []⟩ =
      Members.restrict songParts <$> Cursor.members ⟨d, []⟩ :=
    Cursor.members_restrict ⟨d, []⟩ songParts
  have hvoices {o : Members} : (o.restrict songParts).required "voices" =
      Cursor.map (eachItem (Json.restrict voiceParts)) <$> o.required "voices" :=
    Members.required_restrict rfl
  simp (disch := simp [songParts, asIs, List.lookup_cons]) only [Song.ofJson, hroot, bind_map_left,
    hvoices, Members.required_restrict_id, readVoices_clean, readMetadata_clean]

end SidTune
