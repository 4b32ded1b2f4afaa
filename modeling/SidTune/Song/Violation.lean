import SidTune.Json.Printer
import SidTune.Song.Basic

/-!
# Violations of the rules for song documents

A document that is JSON but no song breaks a rule at a location. The rules have stable codes in
three groups: the shape of the document, the song and its voices, and the steps. A violation carries
what its message tells: the name that is missing, or the value that was met.

## Main definitions

* `SidTune.Rule`: the rules, with `Rule.code`.
* `SidTune.Violation`: what breaks a rule, with `Violation.rule` and `Violation.message`.
* `SidTune.Rejection`: a violation at a location.
* `SidTune.Report`: the code, message and path of a rejection, with `Report.text`.
-/

namespace SidTune

/-! ### Rules -/

/-- The rules for song documents. -/
inductive Rule where
  /-- A required member is present. -/
  | memberPresent
  /-- A value has the right type. -/
  | typeFits
  /-- The root is an object. -/
  | rootIsObject
  /-- The tempo is supported. -/
  | tempoKnown
  /-- The key is a pitch class. -/
  | keyKnown
  /-- The scale is a named scale. -/
  | scaleKnown
  /-- There are three voices. -/
  | threeVoices
  /-- Every role is played. -/
  | rolesCovered
  /-- The role of a voice is known. -/
  | roleKnown
  /-- The waveform is known. -/
  | waveformKnown
  /-- An envelope stage is a nibble. -/
  | envelopeInRange
  /-- A pulse width is in range, and given exactly for the pulse waveform. -/
  | pulseWidthFits
  /-- The kind of filter is known. -/
  | filterKindKnown
  /-- Cutoff and resonance are in range. -/
  | filterInRange
  /-- A voice has a pattern in exactly one shape. -/
  | onePattern
  /-- A pattern or section has the right number of steps. -/
  | patternLengthFits
  /-- The note of a step is known. -/
  | noteKnown
  /-- The octave fits the note. -/
  | octaveFits
  /-- The note value is known. -/
  | noteValueKnown
  deriving DecidableEq, Repr

/-- The stable code of a rule. -/
def Rule.code : Rule → String
  | .memberPresent => "E001"
  | .typeFits => "E002"
  | .rootIsObject => "E003"
  | .tempoKnown => "E010"
  | .keyKnown => "E011"
  | .scaleKnown => "E012"
  | .threeVoices => "E013"
  | .rolesCovered => "E014"
  | .roleKnown => "E020"
  | .waveformKnown => "E021"
  | .envelopeInRange => "E022"
  | .pulseWidthFits => "E023"
  | .filterKindKnown => "E024"
  | .filterInRange => "E025"
  | .onePattern => "E026"
  | .patternLengthFits => "E027"
  | .noteKnown => "E030"
  | .octaveFits => "E031"
  | .noteValueKnown => "E032"

/-! ### Violations -/

/-- What a value was expected to be. -/
inductive Expected where
  | voices
  | steps
  | text
  | integer
  deriving DecidableEq, Repr

/-- The wording of an expectation. -/
def Expected.words : Expected → String
  | .voices => "an array of voices"
  | .steps => "an array of steps"
  | .text => "a string"
  | .integer => "an integer"

/-- What breaks a rule. -/
inductive Violation where
  | missingMember (name : String)
  | mistyped (expected : Expected) (got : Json)
  | notAnObject (got : Json)
  | rootNotAnObject (got : Json)
  | unknownTempo (got : Json)
  | unknownKey (got : Json)
  | unknownScale (got : Json)
  | wrongVoiceCount (got : Nat)
  | unplayedRole (role : Role)
  | unknownRole (got : Json)
  | unknownWaveform (got : Json)
  | stageOutOfRange (got : Json)
  | noPulseWidth
  | pulseWidthOutOfRange (got : Json)
  | unwantedPulseWidth (waveform : Waveform) (got : Json)
  | unknownFilterKind (got : Json)
  | cutoffOutOfRange (got : Json)
  | resonanceOutOfRange (got : Json)
  | noPattern
  | twoPatterns
  | wrongPatternLength (got : Nat)
  | wrongSectionLength (name : String) (got : Nat)
  | unknownNote (got : Json)
  | octaveOfRest (got : Json)
  | octaveOfPitch (got : Json)
  | unknownNoteValue (got : Json)
  deriving Repr

namespace Violation

/-- The rule that is broken. -/
def rule : Violation → Rule
  | missingMember _ => .memberPresent
  | mistyped .. => .typeFits
  | notAnObject _ => .typeFits
  | rootNotAnObject _ => .rootIsObject
  | unknownTempo _ => .tempoKnown
  | unknownKey _ => .keyKnown
  | unknownScale _ => .scaleKnown
  | wrongVoiceCount _ => .threeVoices
  | unplayedRole _ => .rolesCovered
  | unknownRole _ => .roleKnown
  | unknownWaveform _ => .waveformKnown
  | stageOutOfRange _ => .envelopeInRange
  | noPulseWidth => .pulseWidthFits
  | pulseWidthOutOfRange _ => .pulseWidthFits
  | unwantedPulseWidth .. => .pulseWidthFits
  | unknownFilterKind _ => .filterKindKnown
  | cutoffOutOfRange _ => .filterInRange
  | resonanceOutOfRange _ => .filterInRange
  | noPattern => .onePattern
  | twoPatterns => .onePattern
  | wrongPatternLength _ => .patternLengthFits
  | wrongSectionLength .. => .patternLengthFits
  | unknownNote _ => .noteKnown
  | octaveOfRest _ => .octaveFits
  | octaveOfPitch _ => .octaveFits
  | unknownNoteValue _ => .noteValueKnown

/-- What the message says before it tells what was met; `path` is the text of the location. -/
def demand (path : String) : Violation → String
  | missingMember name => "missing required field '" ++ name ++ "'"
  | mistyped expected _ => path ++ " must be " ++ expected.words
  | notAnObject _ | rootNotAnObject _ => "expected an object"
  | unknownTempo _ =>
    "bpm must be one of " ++ String.intercalate ", " (Tempo.all.map fun t => t.bpm.repr)
  | unknownKey _ => "key must be a pitch class (C, C#, D, ... B)"
  | unknownScale _ => "scale must be one of " ++ Named.listing Scale
  | wrongVoiceCount _ => "expected exactly 3 voices"
  | unplayedRole role =>
    "voices must cover roles " ++ Named.listing Role ++ ", but no voice has role "
      ++ Named.name role
  | unknownRole _ => "role must be one of " ++ Named.listing Role
  | unknownWaveform _ => "waveform must be one of " ++ Named.listing Waveform
  | stageOutOfRange _ | resonanceOutOfRange _ => path ++ " must be an integer 0-15"
  | noPulseWidth => "pulseWidth is required when waveform is PULSE"
  | pulseWidthOutOfRange _ => "pulseWidth must be an integer 0-" ++ pulseWidthLimit.repr
  | unwantedPulseWidth .. => "pulseWidth is only allowed when waveform is PULSE"
  | unknownFilterKind _ => "filter type must be one of " ++ Named.listing FilterKind
  | cutoffOutOfRange _ => "filter cutoff must be an integer 0-" ++ cutoffLimit.repr
  | noPattern => "voice must give a pattern or patternSections"
  | twoPatterns => "voice must give either pattern or patternSections, not both"
  | wrongPatternLength _ => "pattern must have 64-192 steps"
  | wrongSectionLength name _ => "section " ++ name ++ " must have exactly 16 steps"
  | unknownNote _ => "note must be REST or a pitch class"
  | octaveOfRest _ => "octave must be 0 for a REST step"
  | octaveOfPitch _ => "octave must be 2, 3, 4 or 5 for a pitched note"
  | unknownNoteValue _ => "duration must be 4, 8 or 16"

/-- The text of what was met instead: a value, or a number of voices or steps. -/
def met? : Violation → Option String
  | missingMember _ | unplayedRole _ | noPulseWidth | noPattern | twoPatterns => none
  | wrongVoiceCount got | wrongPatternLength got | wrongSectionLength _ got => some got.repr
  | unwantedPulseWidth waveform got =>
    some (got.compact ++ " with waveform " ++ Named.name waveform)
  | mistyped _ got | notAnObject got | rootNotAnObject got | unknownTempo got
  | unknownKey got | unknownScale got | unknownRole got | unknownWaveform got
  | stageOutOfRange got | pulseWidthOutOfRange got | unknownFilterKind got
  | cutoffOutOfRange got | resonanceOutOfRange got | unknownNote got | octaveOfRest got
  | octaveOfPitch got | unknownNoteValue got => some got.compact

/-- The message about a violation; `path` is the text of its location. -/
def message (path : String) (v : Violation) : String :=
  match v.met? with
  | none => v.demand path
  | some met => v.demand path ++ ", got " ++ met

end Violation

/-! ### Rejections and their reports -/

/-- A violation at a location of the document. -/
structure Rejection where
  violation : Violation
  location : Json.Location
  deriving Repr

/-- What is told about a rejection. -/
structure Report where
  rule : Rule
  message : String
  path? : Option String
  deriving DecidableEq, Repr

/-- What is told about a rejection. -/
def Rejection.report (r : Rejection) : Report :=
  ⟨r.violation.rule, r.violation.message r.location.text, some r.location.text⟩

/-- A report on one line. -/
def Report.text (r : Report) : String :=
  r.rule.code ++ ": " ++ r.message ++
    match r.path? with
    | none => ""
    | some path => " (at " ++ path ++ ")"

end SidTune
