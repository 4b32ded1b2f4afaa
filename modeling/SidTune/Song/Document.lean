import SidTune.Json.Printer
import SidTune.Json.Reader
import SidTune.Song.Basic
import SidTune.Song.Violation

/-!
# Songs as documents

The document of a song is its JSON value with the members in their customary order, and the compact
text of that value. A rest is written as the note `REST` in octave zero, and a pulse width is left
out when there is none.

A song is read from a JSON value by walking it in a fixed order and stopping at the first rule that
is broken. Nothing is filled in or converted, except that absent texts are empty; members that the
format does not know are passed over. The walk carries a cursor, a value together with its location,
so that every rejection names the place it is about. Reading a text fails if it is not JSON, or if
the value it holds is no song.

## Main definitions

* `SidTune.Step.toJson`, `SidTune.Pattern.members`, `SidTune.Voice.toJson`, `SidTune.Song.toJson`:
  values of documents.
* `SidTune.Song.text`: the text of a document.
* `SidTune.Cursor`, `SidTune.Members`: a value, or the members of an object, at a location.
* `SidTune.readStep`, `SidTune.readPattern`, `SidTune.readVoice`: the parts of a song.
* `SidTune.Song.ofJson`: the song of a document.
* `SidTune.DocumentError`: why a text is no song, with `DocumentError.text`.
* `SidTune.Song.parse`: the song of a text.
-/

namespace SidTune

/-! ### Writing -/

/-- The name of a rest. -/
def restName : String := "REST"

/-- A member of a named set, by its name. -/
def Named.toJson {α : Type} [Named α] (a : α) : Json :=
  .string (Named.name a)

/-- The document of a step. -/
def Step.toJson (s : Step) : Json :=
  let (name, octave) := match s.pitch? with
    | none => (restName, 0)
    | some p => (Named.name p.pitchClass, p.octave.number)
  .object [("note", .string name), ("octave", .ofNat octave),
    ("duration", .ofNat s.length.denominator)]

/-- The document of a list of steps. -/
def stepsJson (steps : List Step) : Json :=
  .array (steps.map Step.toJson)

/-- The member of a voice that holds its pattern. -/
def Pattern.members : Pattern → List (String × Json)
  | flat steps => [("pattern", stepsJson steps)]
  | sections intro development cadence =>
    [("patternSections", .object [("intro", stepsJson intro),
      ("development", stepsJson development), ("cadence", stepsJson cadence)])]

/-- The document of an envelope. -/
def Envelope.toJson (e : Envelope) : Json :=
  .object [("attack", .ofNat e.attack), ("decay", .ofNat e.decay), ("sustain", .ofNat e.sustain),
    ("release", .ofNat e.release)]

/-- The document of a wish for the filter. -/
def FilterWish.toJson (w : FilterWish) : Json :=
  .object [("type", Named.toJson w.kind), ("cutoff", .ofNat w.cutoff.toNat),
    ("resonance", .ofNat w.resonance)]

/-- The document of a voice. -/
def Voice.toJson (v : Voice) : Json :=
  .object
    ([("role", Named.toJson v.role), ("waveform", Named.toJson v.waveform),
        ("adsr", v.envelope.toJson)]
      ++ (v.pulseWidth.map fun w => ("pulseWidth", Json.ofNat w.toNat)).toList
      ++ ("filter", v.filter.toJson) :: v.pattern.members)

/-- The document of a song. -/
def Song.toJson (s : Song) : Json :=
  .object [("bpm", .ofNat s.tempo.bpm), ("key", Named.toJson s.key),
    ("scale", Named.toJson s.scale), ("voices", .array (s.voices.toList.map Voice.toJson)),
    ("title", .string s.title), ("author", .string s.author), ("released", .string s.released)]

/-- The text of a song's document. -/
def Song.text (s : Song) : String :=
  s.toJson.compact

/-- The outcome of reading part of a document. -/
abbrev Checked (α : Type) := Except Rejection α

/-! ### Cursors -/

/-- A value at a location of the document. -/
structure Cursor where
  value : Json
  location : Json.Location

/-- The members of an object at a location of the document. -/
structure Members where
  entries : List (String × Json)
  location : Json.Location

namespace Members

/-- The location of a member. -/
def locate (o : Members) (name : String) : Json.Location :=
  o.location ++ [.member name]

/-- The member of the given name, if there is one. -/
def optional (o : Members) (name : String) : Option Cursor :=
  (o.entries.lookup name).map fun value => ⟨value, o.locate name⟩

/-- The member of the given name, which has to be there. -/
def required (o : Members) (name : String) : Checked Cursor :=
  match o.optional name with
  | some c => .ok c
  | none => .error ⟨.missingMember name, o.locate name⟩

end Members

namespace Cursor

/-- Rejects the document for a violation by the value at the cursor. -/
def reject {α : Type} (c : Cursor) (violation : Violation) : Checked α :=
  .error ⟨violation, c.location⟩

/-- The members of an object. -/
def members (c : Cursor) : Checked Members :=
  match c.value.members? with
  | some entries => .ok ⟨entries, c.location⟩
  | none => c.reject (if c.location = [] then .rootNotAnObject c.value else .notAnObject c.value)

/-- The items of an array of what is expected. -/
def items (expected : Expected) (c : Cursor) : Checked (List Cursor) :=
  match c.value.items? with
  | some items => .ok (items.mapIdx fun i value => ⟨value, c.location ++ [.element i]⟩)
  | none => c.reject (.mistyped expected c.value)

/-- A text. -/
def text (c : Cursor) : Checked String :=
  match c.value.text? with
  | some s => .ok s
  | none => c.reject (.mistyped .text c.value)

/-- An integer. -/
def integer (c : Cursor) : Checked Int :=
  match c.value.int? with
  | some n => .ok n
  | none => c.reject (.mistyped .integer c.value)

/-- A text that `choose` knows. -/
def textIn {α : Type} (choose : String → Option α) (violation : Json → Violation) (c : Cursor) :
    Checked α := do
  match choose (← c.text) with
  | some a => .ok a
  | none => c.reject (violation c.value)

/-- An integer that `choose` knows. -/
def integerIn {α : Type} (choose : Int → Option α) (violation : Json → Violation) (c : Cursor) :
    Checked α := do
  match choose (← c.integer) with
  | some a => .ok a
  | none => c.reject (violation c.value)

end Cursor

/-! ### Steps and patterns -/

/-- What a note name stands for: a rest, or a pitch class. -/
def noteOfName? (name : String) : Option (Option PitchClass) :=
  if name = restName then some none else (Named.ofName? name).map some

/-- The octave of a step: zero for a rest, two to five for a pitch class. -/
def readOctave (note : Option PitchClass) (c : Cursor) : Checked (Option Pitch) :=
  match note with
  | none => c.integerIn (fun n => if n = 0 then some none else none) .octaveOfRest
  | some p => c.integerIn (fun n => (Octave.ofInt? n).map fun o => some ⟨p, o⟩) .octaveOfPitch

/-- A step. -/
def readStep (c : Cursor) : Checked Step := do
  let o ← c.members
  let note ← (← o.required "note").textIn noteOfName? .unknownNote
  let pitch? ← readOctave note (← o.required "octave")
  let length ← (← o.required "duration").integerIn NoteValue.ofDenominator? .unknownNoteValue
  return ⟨pitch?, length⟩

/-- A list of steps. -/
def readSteps (c : Cursor) : Checked (List Step) := do
  (← c.items .steps).mapM readStep

/-- A flat list of steps of the right length. -/
def readFlat (c : Cursor) : Checked (List Step) := do
  let steps ← readSteps c
  if Pattern.minSteps ≤ steps.length ∧ steps.length ≤ Pattern.maxSteps then return steps
  else c.reject (.wrongPatternLength steps.length)

/-- A section of the right length. -/
def readSection (o : Members) (name : String) : Checked (List Step) := do
  let c ← o.required name
  let steps ← readSteps c
  if steps.length = Pattern.sectionSize then return steps
  else c.reject (.wrongSectionLength name steps.length)

/-- The pattern of a voice, in exactly one of its two shapes. -/
def readPattern (voice : Members) : Checked Pattern :=
  match voice.optional "pattern", voice.optional "patternSections" with
  | some c, none => .flat <$> readFlat c
  | none, some c => do
    let o ← c.members
    return .sections (← readSection o "intro") (← readSection o "development")
      (← readSection o "cadence")
  | some _, some _ => .error ⟨.twoPatterns, voice.location⟩
  | none, none => .error ⟨.noPattern, voice.location⟩

/-! ### Voices -/

/-- The role of a voice. -/
def readRole (c : Cursor) : Checked Role := do
  (← (← c.members).required "role").textIn Named.ofName? .unknownRole

/-- An envelope. -/
def readEnvelope (c : Cursor) : Checked Envelope := do
  let o ← c.members
  let stage (name : String) : Checked Nibble := do
    (← o.required name).integerIn Nibble.ofInt? .stageOutOfRange
  return ⟨← stage "attack", ← stage "decay", ← stage "sustain", ← stage "release"⟩

/-- The pulse width of a voice, which is there exactly when the waveform is the pulse. -/
def readPulseWidth (voice : Members) (waveform : Waveform) : Checked (Option UInt16) :=
  match voice.optional "pulseWidth" with
  | none =>
    if waveform = .pulse then .error ⟨.noPulseWidth, voice.locate "pulseWidth"⟩
    else .ok none
  | some c =>
    if waveform = .pulse then some <$> c.integerIn (wordUpTo? pulseWidthLimit) .pulseWidthOutOfRange
    else c.reject (.unwantedPulseWidth waveform c.value)

/-- What a voice wishes of the filter. -/
def readFilter (c : Cursor) : Checked FilterWish := do
  let o ← c.members
  let kind ← (← o.required "type").textIn Named.ofName? .unknownFilterKind
  let cutoff ← (← o.required "cutoff").integerIn (wordUpTo? cutoffLimit) .cutoffOutOfRange
  let resonance ← (← o.required "resonance").integerIn Nibble.ofInt? .resonanceOutOfRange
  return ⟨kind, cutoff, resonance⟩

/-- A voice whose role is known. -/
def readVoice (role : Role) (c : Cursor) : Checked Voice := do
  let o ← c.members
  let waveform ← (← o.required "waveform").textIn Named.ofName? .unknownWaveform
  let envelope ← readEnvelope (← o.required "adsr")
  let pulseWidth ← readPulseWidth o waveform
  let filter ← readFilter (← o.required "filter")
  let pattern ← readPattern o
  return ⟨role, waveform, envelope, pulseWidth, filter, pattern⟩

/-- The three voices. All their roles are read, and held against the roles to be played, before
anything else of a voice is. -/
def readVoices (c : Cursor) : Checked (Trio Voice) := do
  let items ← c.items .voices
  match items with
  | [first, second, third] =>
    let roles : Trio Role := ⟨← readRole first, ← readRole second, ← readRole third⟩
    match (Named.all : List Role).find? fun role => role ∉ roles.toList with
    | some role => c.reject (.unplayedRole role)
    | none =>
      return ⟨← readVoice roles.first first, ← readVoice roles.second second,
        ← readVoice roles.third third⟩
  | _ => c.reject (.wrongVoiceCount items.length)

/-! ### Songs -/

/-- A text of the root object, empty if it is absent. -/
def readMetadata (root : Members) (name : String) : Checked String :=
  match root.optional name with
  | none => .ok ""
  | some c => c.text

/-- The song of a document, or the first rule that the document breaks. -/
def Song.ofJson (document : Json) : Checked Song := do
  let root ← Cursor.members ⟨document, []⟩
  let tempo ← (← root.required "bpm").integerIn Tempo.ofBpm? .unknownTempo
  let key ← (← root.required "key").textIn Named.ofName? .unknownKey
  let scale ← (← root.required "scale").textIn Named.ofName? .unknownScale
  let voices ← readVoices (← root.required "voices")
  let title ← readMetadata root "title"
  let author ← readMetadata root "author"
  let released ← readMetadata root "released"
  return ⟨tempo, key, scale, voices, title, author, released⟩

/-! ### Texts -/

/-- Why a text is no song. -/
inductive DocumentError where
  /-- The text is not JSON. -/
  | malformed (problem : Json.Malformed)
  /-- The value breaks a rule. -/
  | rejected (rejection : Rejection)
  deriving Repr

/-- The message that a report becomes for a whole document. -/
def Report.documentText (r : Report) : String :=
  "song validation failed: " ++ r.text

/-- The message about a text that is no song. -/
def DocumentError.text : DocumentError → String
  | .malformed problem => "JSON parse error: " ++ problem.text
  | .rejected rejection => rejection.report.documentText

/-- The song of a text. -/
def Song.parse (text : String) : Except DocumentError Song :=
  match Json.parse text with
  | .error problem => .error (.malformed problem)
  | .ok document =>
    match Song.ofJson document with
    | .error rejection => .error (.rejected rejection)
    | .ok song => .ok song

end SidTune
