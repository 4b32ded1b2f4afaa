import SidTune.Proofs.Song.Grammar

/-!
# The checks of song documents

The rules for song documents as one list of checks. A check demands something of one place of the
document: that a member is there, that a value has a type, that it is one of the values allowed,
that an array has the right size. The list stands in the order in which a song is read, and how long
it is depends on the document only through the numbers of steps.

A check reads little of a document. Whether a member is there, for instance, does not depend on its
value; the type of an array does not depend on its items. Two documents that look the same to a
check pass it together, and if they look the same in all that the check reads, they are rejected for
the same violation.

## Main definitions

* `SidTune.Json.Kind`, `SidTune.Json.face`: the type of a value, and the value without its inside.
* `SidTune.Look`, `SidTune.Look.Same`: what is read of a place, and that two documents agree on it.
* `SidTune.Demand`, `SidTune.Check`: demands and where they are made, with `Check.rejection?` and
  `Check.reads` and `Check.SameFor`.
* `SidTune.songChecks`: the checks of a song document, in order.

## Main results

* `SidTune.Check.rejection?_congr`: a check depends on nothing but what it reads.
-/

namespace SidTune

/-! ### Types and faces of values -/

namespace Json

/-- The types of values, as the format tells them apart. Its integers are those of a signed 64-bit
word; larger ones, like fractions, are of another type. -/
inductive Kind where
  | null | truth | integer | otherNumber | text | array | object
  deriving DecidableEq, Repr

/-- The type of a value. -/
def kind : Json → Kind
  | .null => .null
  | .bool _ => .truth
  | .number (.integer n) => if n < 0x8000000000000000 then .integer else .otherNumber
  | .number (.binary _) => .otherNumber
  | .string _ => .text
  | .array _ => .array
  | .object _ => .object

/-- A value without its inside: an array keeps the number of its items, an object nothing. -/
def face : Json → Json
  | .array items => .array (items.map fun _ => .null)
  | .object _ => .object []
  | v => v

/-- The number of items of a value, if it is an array. -/
def size? (v : Json) : Option Nat :=
  v.items?.map List.length

variable {v : Json}

theorem kind_eq_text : v.kind = .text ↔ v.text?.isSome := by
  fun_cases kind v <;> simp [text?]

theorem kind_eq_integer : v.kind = .integer ↔ v.int?.isSome := by
  fun_cases kind v <;> simp [int?, *]

theorem kind_eq_array : v.kind = .array ↔ v.items?.isSome := by
  fun_cases kind v <;> simp [items?]

theorem kind_eq_object : v.kind = .object ↔ v.members?.isSome := by
  fun_cases kind v <;> simp [members?]

@[simp] theorem text?_face : v.face.text? = v.text? := by
  cases v <;> rfl

@[simp] theorem size?_face : v.face.size? = v.size? := by
  cases v <;> simp [face, size?, items?]

private theorem face_eq_string {s : String} : v.face = .string s ↔ v = .string s := by
  cases v <;> simp [face]

private theorem face_eq_number {n : Number} : v.face = .number n ↔ v = .number n := by
  cases v <;> simp [face]

/-! ### Places -/

/-- The location of a member. -/
def Location.child (l : Location) (name : String) : Location :=
  l ++ [.member name]

/-- The location of an item. -/
def Location.item (l : Location) (i : Nat) : Location :=
  l ++ [.element i]

theorem at?_append {d : Json} {l l' : Location} : d.at? (l ++ l') = (d.at? l).bind (·.at? l') := by
  induction l generalizing d with
  | nil => rfl
  | cons segment l ih =>
    cases segment with
    | member name => simp [at?, ih, Option.bind_assoc]
    | element i => simp [at?, ih, Option.bind_assoc]

theorem at?_child {d : Json} {l : Location} {name : String} :
    d.at? (l.child name) = (d.at? l).bind (·.member? name) := by
  simp [Location.child, at?_append, at?]

theorem at?_item {d : Json} {l : Location} {i : Nat} :
    d.at? (l.item i) = ((d.at? l).bind items?).bind (·[i]?) := by
  simp [Location.item, at?_append, at?, Option.bind_assoc]

/-- The text that stands at a place. -/
def textAt? (d : Json) (l : Location) : Option String :=
  (d.at? l).bind text?

/-- The number of items that stand at a place. -/
def itemCount (d : Json) (l : Location) : Nat :=
  ((d.at? l).bind size?).getD 0

theorem isSome_at?_item {d : Json} {l : Location} {i : Nat} :
    (d.at? (l.item i)).isSome ↔ i < d.itemCount l := by
  rw [at?_item, itemCount]
  cases h : (d.at? l).bind items? <;> cases h' : d.at? l <;> simp_all [size?]

end Json

/-! ### What is read -/

/-- How much is read of a place: whether something is there, its type, its face, or all of it. -/
inductive Depth where
  | presence | kind | face | whole

/-- A look at a place of a document. -/
structure Look where
  place : Json.Location
  depth : Depth

/-- Two documents look the same. -/
def Look.Same (d d' : Json) (look : Look) : Prop :=
  match look.depth with
  | .presence => (d.at? look.place).isSome = (d'.at? look.place).isSome
  | .kind => (d.at? look.place).map Json.kind = (d'.at? look.place).map Json.kind
  | .face => (d.at? look.place).map Json.face = (d'.at? look.place).map Json.face
  | .whole => d.at? look.place = d'.at? look.place

/-! ### Demands -/

/-- The values allowed of a type: names, numbers, or a range. -/
inductive Choice where
  | names (names : List String)
  | numbers (numbers : List Nat)
  | between (least most : Nat)

/-- A value is allowed. -/
def Choice.Admits : Choice → Json → Prop
  | names ns, v => v.IsNameOf ns
  | numbers ns, v => v.IsOneOf ns
  | between least most, v => v.IsBetween least most

instance (v : Json) (s : String) : Decidable (v = .string s) :=
  match v with
  | .string t => decidable_of_iff (t = s) (by simp)
  | .null | .bool _ | .number _ | .array _ | .object _ => isFalse (by simp)

instance (v : Json) (n : Nat) : Decidable (v = .ofNat n) :=
  match v with
  | .number (.integer m) => decidable_of_iff (m = n) (by simp [Json.ofNat])
  | .number (.binary _) | .null | .bool _ | .string _ | .array _ | .object _ =>
    isFalse (by simp [Json.ofNat])

theorem Json.isBetween_integer {least most : Nat} {n : Int} :
    (Json.number (.integer n)).IsBetween least most ↔ least ≤ n ∧ n ≤ most := by
  constructor
  · rintro ⟨m, hlow, hhigh, h⟩
    obtain rfl : n = m := by simpa [Json.ofNat] using h
    omega
  · rintro ⟨hlow, hhigh⟩
    exact ⟨n.toNat, by omega, by omega, by simp [Json.ofNat]; omega⟩

instance (least most : Nat) (v : Json) : Decidable (v.IsBetween least most) :=
  match v with
  | .number (.integer n) => decidable_of_iff _ Json.isBetween_integer.symm
  | .number (.binary _) | .null | .bool _ | .string _ | .array _ | .object _ =>
    isFalse (by simp [Json.IsBetween, Json.ofNat])

instance : (c : Choice) → (v : Json) → Decidable (c.Admits v)
  | .names ns, v => inferInstanceAs (Decidable (∃ s ∈ ns, v = .string s))
  | .numbers ns, v => inferInstanceAs (Decidable (∃ n ∈ ns, v = .ofNat n))
  | .between least most, v => inferInstanceAs (Decidable (v.IsBetween least most))

/-- Whether a value is allowed can be told by its face. -/
@[simp] theorem Choice.admits_face {c : Choice} {v : Json} : c.Admits v.face ↔ c.Admits v := by
  cases c <;> simp [Admits, Json.IsNameOf, Json.IsOneOf, Json.IsBetween, Json.ofNat,
    Json.face_eq_string, Json.face_eq_number]

/-- What is demanded of a place, and the violation otherwise. Where the value, or the object that a
member has to be of, is absent, nothing is violated. -/
inductive Demand where
  /-- Something is there, provided that the parent is an object. -/
  | present (otherwise : Violation)
  /-- Nothing is there. -/
  | absent (otherwise : Json → Violation)
  /-- A value has a type. -/
  | kind (kind : Json.Kind) (otherwise : Json → Violation)
  /-- A value is allowed. -/
  | choice (choice : Choice) (otherwise : Json → Violation)
  /-- An array has so many items. -/
  | size (least most : Nat) (otherwise : Nat → Violation)
  /-- In an array one of some places holds a text. -/
  | held (text : String) (places : List Json.Location) (otherwise : Violation)
  /-- Of two members of an object exactly one is there. -/
  | oneMember (first second : String) (both neither : Violation)

namespace Demand

/-- What violates a demand that is made of a place. -/
def violation? (d : Json) (l : Json.Location) : Demand → Option Violation
  | present otherwise =>
    if d.at? l = none ∧ (d.at? l.dropLast).map Json.kind = some .object
    then some otherwise else none
  | absent otherwise => (d.at? l).map otherwise
  | kind k otherwise => ((d.at? l).filter fun v => v.kind ≠ k).map otherwise
  | choice c otherwise => ((d.at? l).filter fun v => ¬ c.Admits v).map otherwise
  | size least most otherwise =>
    (((d.at? l).bind Json.size?).filter fun n => ¬ (least ≤ n ∧ n ≤ most)).map otherwise
  | held text places otherwise =>
    if (d.at? l).map Json.kind = some .array ∧ ¬ ∃ place ∈ places, d.textAt? place = some text
    then some otherwise else none
  | oneMember first second both neither =>
    if (d.at? l).map Json.kind = some .object then
      match (d.at? (l.child first)).isSome, (d.at? (l.child second)).isSome with
      | true, true => some both
      | false, false => some neither
      | _, _ => none
    else none

/-- What is read to see whether a demand that is made of a place is met. -/
def looks (l : Json.Location) : Demand → List Look
  | present _ => [⟨l.dropLast, .kind⟩, ⟨l, .presence⟩]
  | absent _ => [⟨l, .presence⟩]
  | kind .. => [⟨l, .kind⟩]
  | choice .. => [⟨l, .face⟩]
  | size .. => [⟨l, .face⟩]
  | held _ places _ => ⟨l, .kind⟩ :: places.map (⟨·, .face⟩)
  | oneMember first second _ _ =>
    [⟨l, .kind⟩, ⟨l.child first, .presence⟩, ⟨l.child second, .presence⟩]

/-- What is quoted of a place if a demand is not met: the value that is there instead. -/
def quotes (l : Json.Location) : Demand → List Look
  | absent _ | kind .. | choice .. => [⟨l, .whole⟩]
  | present _ | size .. | held .. | oneMember .. => []

end Demand

/-! ### Checks -/

/-- A demand made of a place, for some checks only if one of some names stands at another place. -/
structure Check where
  place : Json.Location
  demand : Demand
  only? : Option (Json.Location × List String)

namespace Check

/-- A check is made of a document. -/
def Applies (d : Json) (c : Check) : Prop :=
  ∀ only ∈ c.only?, ∃ name ∈ only.2, d.textAt? only.1 = some name

instance (d : Json) (c : Check) : Decidable (c.Applies d) :=
  inferInstanceAs (Decidable (∀ only ∈ c.only?, _))

/-- The rejection of a document by a check. -/
def rejection? (d : Json) (c : Check) : Option Rejection :=
  if c.Applies d then (c.demand.violation? d c.place).map (⟨·, c.place⟩) else none

/-- What a check reads of a document. If it rejects the document, it also reads what it quotes. -/
def reads (d : Json) (c : Check) : List Look :=
  c.only?.toList.map (⟨·.1, .face⟩) ++ c.demand.looks c.place ++
    if (c.rejection? d).isSome then c.demand.quotes c.place else []

end Check

/-! ### The list of checks -/

/-- The type of what is expected. -/
def Expected.kind : Expected → Json.Kind
  | .voices | .steps => .array
  | .text => .text
  | .integer => .integer

/-- A value is an object. -/
def isObject (l : Json.Location) : Check :=
  ⟨l, .kind .object (if l = [] then .rootNotAnObject else .notAnObject), none⟩

/-- A value is what is expected. -/
def isExpected (expected : Expected) (l : Json.Location) : Check :=
  ⟨l, .kind expected.kind (.mistyped expected), none⟩

/-- An object has a member. -/
def hasMember (l : Json.Location) (name : String) : Check :=
  ⟨l.child name, .present (.missingMember name), none⟩

/-- A value is allowed. -/
def isChoice (l : Json.Location) (choice : Choice) (otherwise : Json → Violation) : Check :=
  ⟨l, .choice choice otherwise, none⟩

/-- An object has a member of a type, and its value is allowed. -/
def memberChecks (l : Json.Location) (name : String) (expected : Expected) (choice : Choice)
    (otherwise : Json → Violation) : List Check :=
  [hasMember l name, isExpected expected (l.child name), isChoice (l.child name) choice otherwise]

/-- The octave of a rest is zero, that of a pitch class from two to five. -/
def octaveChecks (l : Json.Location) : List Check :=
  [hasMember l "octave", isExpected .integer (l.child "octave"),
    ⟨l.child "octave", .choice (.numbers [0]) .octaveOfRest, some (l.child "note", ["REST"])⟩,
    ⟨l.child "octave", .choice (.between 2 5) .octaveOfPitch,
      some (l.child "note", Json.pitchClassNames)⟩]

/-- The checks of a step. -/
def stepChecks (l : Json.Location) : List Check :=
  isObject l ::
    (memberChecks l "note" .text (.names ("REST" :: Json.pitchClassNames)) .unknownNote ++
      octaveChecks l ++
      memberChecks l "duration" .integer (.numbers [4, 8, 16]) .unknownNoteValue)

/-- The checks of an array of steps: the steps in order, then how many they are. -/
def stepListChecks (d : Json) (l : Json.Location) (least most : Nat) (otherwise : Nat → Violation) :
    List Check :=
  isExpected .steps l ::
    ((List.range (d.itemCount l)).flatMap (fun i => stepChecks (l.item i)) ++
      [⟨l, .size least most otherwise, none⟩])

/-- The checks of a section. -/
def sectionChecks (d : Json) (l : Json.Location) (name : String) : List Check :=
  hasMember l name :: stepListChecks d (l.child name) 16 16 (.wrongSectionLength name)

/-- The checks of the three sections of a pattern. -/
def sectionListChecks (d : Json) (l : Json.Location) : List Check :=
  isObject l :: ["intro", "development", "cadence"].flatMap (sectionChecks d l)

/-- A voice has its pattern in exactly one of the two shapes. -/
def hasOneShape (l : Json.Location) : Check :=
  ⟨l, .oneMember "pattern" "patternSections" .twoPatterns .noPattern, none⟩

/-- The checks of the pattern of a voice, in whichever shape it is. -/
def patternChecks (d : Json) (l : Json.Location) : List Check :=
  hasOneShape l ::
    (stepListChecks d (l.child "pattern") 64 192 .wrongPatternLength ++
      sectionListChecks d (l.child "patternSections"))

/-- The checks of an envelope. -/
def envelopeChecks (l : Json.Location) : List Check :=
  isObject l ::
    ["attack", "decay", "sustain", "release"].flatMap fun stage =>
      memberChecks l stage .integer (.between 0 15) .stageOutOfRange

/-- A pulse has a pulse width. -/
def needsPulseWidth (l : Json.Location) : Check :=
  ⟨l.child "pulseWidth", .present .noPulseWidth, some (l.child "waveform", ["PULSE"])⟩

/-- A waveform that is not the pulse has no pulse width. -/
def wantsNoPulseWidth (l : Json.Location) (w : Waveform) : Check :=
  ⟨l.child "pulseWidth", .absent (.unwantedPulseWidth w),
    some (l.child "waveform", [Named.name w])⟩

/-- The checks of the pulse width of a voice: it is there exactly for the pulse, and in range. -/
def pulseWidthChecks (l : Json.Location) : List Check :=
  needsPulseWidth l :: [Waveform.triangle, .sawtooth, .noise].map (wantsNoPulseWidth l) ++
    [isExpected .integer (l.child "pulseWidth"),
      isChoice (l.child "pulseWidth") (.between 0 4095) .pulseWidthOutOfRange]

/-- The checks of a wish for the filter. -/
def filterChecks (l : Json.Location) : List Check :=
  isObject l ::
    (memberChecks l "type" .text (.names ["NONE", "LP", "BP", "HP", "LP+BP", "HP+BP"])
        .unknownFilterKind ++
      memberChecks l "cutoff" .integer (.between 0 2047) .cutoffOutOfRange ++
      memberChecks l "resonance" .integer (.between 0 15) .resonanceOutOfRange)

/-- The checks of the role of a voice. -/
def roleChecks (l : Json.Location) : List Check :=
  isObject l :: memberChecks l "role" .text (.names ["LEAD", "BASS", "ARP_OR_DRUMS"]) .unknownRole

/-- The checks of everything else of a voice. -/
def voiceChecks (d : Json) (l : Json.Location) : List Check :=
  memberChecks l "waveform" .text (.names ["TRI", "SAW", "PULSE", "NOISE"]) .unknownWaveform ++
    hasMember l "adsr" :: envelopeChecks (l.child "adsr") ++
    pulseWidthChecks l ++
    hasMember l "filter" :: filterChecks (l.child "filter") ++
    patternChecks d l

/-- One of the voices plays a role. -/
def isPlayed (l : Json.Location) (role : Role) : Check :=
  ⟨l, .held (Named.name role) ([0, 1, 2].map fun i => (l.item i).child "role")
    (.unplayedRole role), none⟩

/-- There are three voices. -/
def hasThree (l : Json.Location) : Check :=
  ⟨l, .size 3 3 .wrongVoiceCount, none⟩

/-- The checks of the voices: their number, all their roles, and then each voice in turn. -/
def voicesChecks (d : Json) (l : Json.Location) : List Check :=
  isExpected .voices l :: hasThree l ::
    ([0, 1, 2].flatMap (fun i => roleChecks (l.item i)) ++
      [Role.lead, .bass, .arpOrDrums].map (isPlayed l) ++
      [0, 1, 2].flatMap fun i => voiceChecks d (l.item i))

/-- The checks of a song document, in the order in which they are made. -/
def songChecks (d : Json) : List Check :=
  isObject [] ::
    (memberChecks [] "bpm" .integer (.numbers [60, 80, 90, 100, 120, 140, 160]) .unknownTempo ++
      memberChecks [] "key" .text (.names Json.pitchClassNames) .unknownKey ++
      memberChecks [] "scale" .text
        (.names ["major", "minor", "dorian", "phrygian", "mixolydian", "pentatonic"])
        .unknownScale ++
      hasMember [] "voices" :: voicesChecks d (.child [] "voices") ++
      ["title", "author", "released"].map fun name => isExpected .text (.child [] name))

/-! ### Documents that look the same -/

variable {d d' : Json} {l : Json.Location}

/-- What can be told by the face of a value is the same at places with one face. -/
theorem Json.bind_at?_congr {α : Type} {f : Json → Option α} (htold : ∀ v, f v.face = f v)
    (hsame : Look.Same d d' ⟨l, .face⟩) : (d'.at? l).bind f = (d.at? l).bind f := by
  have hfaces (d : Json) : (d.at? l).bind f = ((d.at? l).map face).bind f := by
    rw [Option.bind_map]
    exact congrArg _ (funext fun v => (htold v).symm)
  rw [hfaces, hfaces, hsame]

theorem Json.textAt?_congr (hsame : Look.Same d d' ⟨l, .face⟩) : d'.textAt? l = d.textAt? l :=
  bind_at?_congr (fun _ => text?_face) hsame

theorem Json.size?_congr (hsame : Look.Same d d' ⟨l, .face⟩) :
    (d'.at? l).bind size? = (d.at? l).bind size? :=
  bind_at?_congr (fun _ => size?_face) hsame

/-- Values of which a test sees nothing but the view on which documents agree pass it together, and
where they fail it the values are the same. -/
theorem filter_congr {α β : Type} {a b : Option α} {view : α → β} {test : α → Bool}
    (hsame : a.map view = b.map view)
    (hsees : ∀ {x y}, view x = view y → test x = test y)
    (hwhole : (a.filter test).isSome → a = b) : b.filter test = a.filter test := by
  rcases a with _ | x <;> rcases b with _ | y
  · rfl
  · cases hsame
  · cases hsame
  · have htests := hsees (Option.some.inj hsame)
    cases hfails : test x with
    | false => simp [Option.filter, hfails, ← htests]
    | true => rw [hwhole (by simp [Option.filter, hfails])]

/-- A demand depends on nothing but what is read to see whether it is met, and what is quoted if it
is not. -/
theorem Demand.violation?_congr {demand : Demand}
    (hlooks : ∀ look ∈ demand.looks l, look.Same d d')
    (hquotes : (demand.violation? d l).isSome → ∀ look ∈ demand.quotes l, look.Same d d') :
    demand.violation? d' l = demand.violation? d l := by
  cases demand with
  | present otherwise =>
    simp only [Demand.looks, List.forall_mem_cons, Look.Same] at hlooks
    obtain ⟨hparent, hpresence, -⟩ := hlooks
    simp only [violation?, ← Option.not_isSome_iff_eq_none, hparent, hpresence]
  | absent otherwise =>
    simp only [Demand.looks, List.forall_mem_cons, Look.Same] at hlooks
    simp only [violation?, Demand.quotes, List.forall_mem_cons, Look.Same, Option.isSome_map] at *
    cases hhere : d.at? l with
    | none => simpa [hhere] using hlooks.1
    | some v => rw [← (hquotes (by simp [hhere])).1, hhere]
  | kind k otherwise =>
    simp only [Demand.looks, List.forall_mem_cons, Look.Same] at hlooks
    simp only [violation?, Demand.quotes, List.forall_mem_cons, Look.Same, Option.isSome_map] at *
    rw [filter_congr hlooks.1 (by simp +contextual) fun hfails => (hquotes hfails).1]
  | choice c otherwise =>
    simp only [Demand.looks, List.forall_mem_cons, Look.Same] at hlooks
    simp only [violation?, Demand.quotes, List.forall_mem_cons, Look.Same, Option.isSome_map] at *
    rw [filter_congr hlooks.1 (fun hfaces => ?_) fun hfails => (hquotes hfails).1]
    rw [decide_eq_decide, ← Choice.admits_face, hfaces, Choice.admits_face]
  | size least most otherwise =>
    simp only [Demand.looks, List.forall_mem_cons] at hlooks
    simp only [violation?, Json.size?_congr hlooks.1]
  | held text places otherwise =>
    simp only [Demand.looks, List.forall_mem_cons, List.forall_mem_map, Look.Same] at hlooks
    obtain ⟨harray, hlooks⟩ := hlooks
    have htexts : (∃ place ∈ places, d'.textAt? place = some text) ↔
        ∃ place ∈ places, d.textAt? place = some text :=
      exists_congr fun place => and_congr_right fun hmem => by
        rw [Json.textAt?_congr (hlooks place hmem)]
    simp only [violation?, htexts, harray]
  | oneMember first second both neither =>
    simp only [Demand.looks, List.forall_mem_cons, Look.Same] at hlooks
    obtain ⟨hobject, hhere, hthere, -⟩ := hlooks
    simp only [violation?, hobject, hhere, hthere]

/-- A check reads the same of two documents. -/
def Check.SameFor (d d' : Json) (c : Check) : Prop :=
  ∀ look ∈ c.reads d, look.Same d d'

/-- A check depends on nothing but what it reads. -/
theorem Check.rejection?_congr {c : Check} (hsame : c.SameFor d d') :
    c.rejection? d' = c.rejection? d := by
  simp only [SameFor, reads, List.forall_mem_append, List.forall_mem_map] at hsame
  obtain ⟨⟨honly, hlooks⟩, hquotes⟩ := hsame
  have happlies : c.Applies d' ↔ c.Applies d :=
    forall₂_congr fun other hmem => exists_congr fun name => and_congr_right fun _ => by
      rw [Json.textAt?_congr (honly other (Option.mem_toList.2 hmem))]
  simp only [rejection?, happlies]
  split
  · next hmade =>
    rw [Demand.violation?_congr hlooks fun hfails => ?_]
    simpa [rejection?, hmade, hfails] using hquotes
  · rfl

end SidTune
