import SidTune.Song.Values

/-!
# Songs

A song has a tempo and three voices. Each voice has a waveform, an envelope, a wish for the filter
that all voices share, and a pattern of steps that is repeated for ever. A song is *well formed*
when it obeys the rules that a document is held to; the type itself allows more.

## Main definitions

* `SidTune.Trio`: one thing for each of the three voices.
* `SidTune.Step`, `SidTune.Pattern`: what a voice plays, with `Pattern.WellFormed`.
* `SidTune.Role`, `SidTune.Voice`: the part and the settings of a voice, with `Voice.WellFormed`.
* `SidTune.Song`, `SidTune.Song.WellFormed`: songs and the rules they obey.

## Main results

* `SidTune.Pattern.WellFormed.length_steps`: a well-formed pattern is as long as it says.
-/

namespace SidTune

/-! ### Three of a kind -/

/-- One thing for each of the three voices. -/
structure Trio (α : Type) where
  first : α
  second : α
  third : α
  deriving DecidableEq, Repr, Inhabited

namespace Trio

variable {α β : Type}

/-- The three things in voice order. -/
def toList (t : Trio α) : List α :=
  [t.first, t.second, t.third]

/-- Does the same to all three. -/
def map (f : α → β) (t : Trio α) : Trio β :=
  ⟨f t.first, f t.second, f t.third⟩

/-- The thing of the voice with the given index. -/
def get? (t : Trio α) (voice : Nat) : Option α :=
  t.toList[voice]?

@[simp] theorem length_toList (t : Trio α) : t.toList.length = 3 := rfl

@[simp] theorem toList_map (f : α → β) (t : Trio α) : (t.map f).toList = t.toList.map f := rfl

end Trio

/-! ### Steps and patterns -/

/-- One entry of a pattern: a pitch or, with no pitch, a rest. -/
structure Step where
  pitch? : Option Pitch
  length : NoteValue
  deriving DecidableEq, Repr

/-- The two shapes of a pattern. -/
inductive Pattern where
  /-- One list of steps. -/
  | flat (steps : List Step)
  /-- Three sections, played one after the other. -/
  | sections (intro development cadence : List Step)
  deriving DecidableEq, Repr

namespace Pattern

/-- The steps of each section of a well-formed pattern. -/
def sectionSize : Nat := 16

/-- The fewest steps of a well-formed flat pattern. -/
def minSteps : Nat := 64

/-- The most steps of a well-formed flat pattern. -/
def maxSteps : Nat := 192

/-- All steps in the order they are played. -/
def steps : Pattern → List Step
  | flat steps => steps
  | sections intro development cadence => intro ++ development ++ cadence

/-- The nominal length: of a flat pattern its number of steps, of sections that of three full
ones. -/
def nominalLength : Pattern → Nat
  | flat steps => steps.length
  | sections .. => 3 * sectionSize

/-- A flat pattern has 64 to 192 steps, a section 16. -/
def WellFormed : Pattern → Prop
  | flat steps => minSteps ≤ steps.length ∧ steps.length ≤ maxSteps
  | sections intro development cadence =>
    intro.length = sectionSize ∧ development.length = sectionSize ∧ cadence.length = sectionSize

instance : DecidablePred WellFormed
  | flat _ => inferInstanceAs (Decidable (_ ∧ _))
  | sections .. => inferInstanceAs (Decidable (_ ∧ _))

/-- A well-formed pattern has as many steps as its nominal length says. -/
theorem WellFormed.length_steps {p : Pattern} (h : p.WellFormed) :
    p.steps.length = p.nominalLength := by
  cases p with
  | flat steps => rfl
  | sections intro development cadence =>
    obtain ⟨hi, hd, hc⟩ := h
    simp [steps, nominalLength, hi, hd, hc, sectionSize]

end Pattern

/-! ### Voices -/

/-- The part that a voice plays. -/
inductive Role where
  | lead | bass | arpOrDrums
  deriving DecidableEq, Repr, Inhabited

instance : Named Role where
  all := [.lead, .bass, .arpOrDrums]
  name
    | .lead => "LEAD"
    | .bass => "BASS"
    | .arpOrDrums => "ARP_OR_DRUMS"

/-- One of the three voices. -/
structure Voice where
  role : Role
  waveform : Waveform
  envelope : Envelope
  pulseWidth : Option UInt16
  filter : FilterWish
  pattern : Pattern
  deriving DecidableEq, Repr

/-- The steps of a voice in the order they are played. -/
def Voice.steps (v : Voice) : List Step :=
  v.pattern.steps

/-- A voice has a pulse width exactly when its waveform is the pulse; widths and cutoffs are in
range and the pattern has the right length. -/
structure Voice.WellFormed (v : Voice) : Prop where
  pulseWidth_isSome : v.pulseWidth.isSome ↔ v.waveform = .pulse
  pulseWidth_le : ∀ w ∈ v.pulseWidth, w.toNat ≤ pulseWidthLimit
  cutoff_le : v.filter.cutoff.toNat ≤ cutoffLimit
  pattern : v.pattern.WellFormed

/-! ### Songs -/

/-- A song. -/
structure Song where
  tempo : Tempo
  key : PitchClass
  scale : Scale
  voices : Trio Voice
  title : String
  author : String
  released : String
  deriving DecidableEq, Repr

/-- Every role is played and every voice is well formed. -/
structure Song.WellFormed (s : Song) : Prop where
  roles : ∀ role : Role, role ∈ s.voices.toList.map Voice.role
  voices : ∀ v ∈ s.voices.toList, v.WellFormed

end SidTune
