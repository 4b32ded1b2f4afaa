import SidTune.Proofs.Json.LocationText
import SidTune.Proofs.Song.Following

/-!
# Reports point at the culprit

A document that is rejected is reported with a path and a message. The path, read from the root,
leads to what breaks the rule that the report names: to the value that is wrong, to an array of the
wrong size, or to the place of a member that is missing. The message quotes the value, or the size.

Every check of a song document makes its report so. What it takes for this is a table of the members
that the parts of a document have, and of the values that the rules allow them.

## Main definitions

* `SidTune.Part`: the objects of a song document, with `Part.At` and `Part.members`.
* `SidTune.Rule.allowed`, `SidTune.Rule.Bounds`: the values and the sizes that a rule allows.
* `SidTune.Violates`: a value of a document violates a rule.
* `SidTune.Culprit`: a report is about what is found at a location.

## Main results

* `SidTune.songChecks_point`: every check of a song document points at the culprit.
* `SidTune.Song.ofJson_error_culprit`: the path of a report leads to the culprit.
-/

namespace SidTune

/-! ### The parts of a document -/

/-- The objects that a song document consists of. -/
inductive Part where
  | root | voice | envelope | filter | sections | step

/-- The location of a voice. -/
def voiceAt (i : Nat) : Json.Location :=
  (Json.Location.child [] "voices").item i

/-- The names of the sections of a pattern. -/
def sectionNames : List String :=
  ["intro", "development", "cadence"]

/-- Where the arrays of steps stand, and how many steps they have. -/
inductive StepListAt : Json.Location → Nat → Nat → Prop where
  | flat (i : Nat) : StepListAt ((voiceAt i).child "pattern") 64 192
  | ofSection (i : Nat) (name : String) (mem : name ∈ sectionNames) :
    StepListAt (((voiceAt i).child "patternSections").child name) 16 16

/-- Where a part of a song document stands. -/
inductive Part.At : Part → Json.Location → Prop where
  | root : Part.root.At []
  | voice (i : Nat) : Part.voice.At (voiceAt i)
  | envelope (i : Nat) : Part.envelope.At ((voiceAt i).child "adsr")
  | filter (i : Nat) : Part.filter.At ((voiceAt i).child "filter")
  | sections (i : Nat) : Part.sections.At ((voiceAt i).child "patternSections")
  | step {l : Json.Location} {least most : Nat} (list : StepListAt l least most) (k : Nat) :
    Part.step.At (l.item k)

/-- The members of a part, and their types. -/
def Part.members : Part → List (String × Json.Kind)
  | .root => [("bpm", .integer), ("key", .text), ("scale", .text), ("voices", .array),
      ("title", .text), ("author", .text), ("released", .text)]
  | .voice => [("role", .text), ("waveform", .text), ("adsr", .object), ("pulseWidth", .integer),
      ("filter", .object), ("pattern", .array), ("patternSections", .object)]
  | .envelope => [("attack", .integer), ("decay", .integer), ("sustain", .integer),
      ("release", .integer)]
  | .filter => [("type", .text), ("cutoff", .integer), ("resonance", .integer)]
  | .sections => sectionNames.map (·, .array)
  | .step => [("note", .text), ("octave", .integer), ("duration", .integer)]

/-! ### What breaks a rule -/

/-- The members that a rule is about, and the values that it allows them. -/
def Rule.allowed : Rule → List (Part × String × Choice)
  | .tempoKnown => [(.root, "bpm", .numbers [60, 80, 90, 100, 120, 140, 160])]
  | .keyKnown => [(.root, "key", .names Json.pitchClassNames)]
  | .scaleKnown => [(.root, "scale",
      .names ["major", "minor", "dorian", "phrygian", "mixolydian", "pentatonic"])]
  | .roleKnown => [(.voice, "role", .names ["LEAD", "BASS", "ARP_OR_DRUMS"])]
  | .waveformKnown => [(.voice, "waveform", .names ["TRI", "SAW", "PULSE", "NOISE"])]
  | .envelopeInRange => ["attack", "decay", "sustain", "release"].map fun stage =>
      (.envelope, stage, .between 0 15)
  | .filterKindKnown => [(.filter, "type",
      .names ["NONE", "LP", "BP", "HP", "LP+BP", "HP+BP"])]
  | .filterInRange => [(.filter, "cutoff", .between 0 2047), (.filter, "resonance", .between 0 15)]
  | .noteKnown => [(.step, "note", .names ("REST" :: Json.pitchClassNames))]
  | .noteValueKnown => [(.step, "duration", .numbers [4, 8, 16])]
  | _ => []

/-- A rule bounds the size of an array. -/
def Rule.Bounds (l : Json.Location) (least most : Nat) : Rule → Prop
  | .threeVoices => l = .child [] "voices" ∧ least = 3 ∧ most = 3
  | .patternLengthFits => StepListAt l least most
  | _ => False

/-- A value at a location of a document violates a rule. -/
def Violates (d : Json) (l : Json.Location) (v : Json) : Rule → Prop
  | .rootIsObject => l = [] ∧ v.kind ≠ .object
  | .typeFits =>
    (Part.voice.At l ∨ Part.step.At l) ∧ v.kind ≠ .object ∨
      ∃ part parent name kind, Part.At part parent ∧ (name, kind) ∈ part.members ∧
        l = parent.child name ∧ v.kind ≠ kind
  | .pulseWidthFits => ∃ voice, Part.voice.At voice ∧ l = voice.child "pulseWidth" ∧
      ¬ (d.textAt? (voice.child "waveform") = some "PULSE" ∧ v.IsBetween 0 4095)
  | .octaveFits => ∃ step, Part.step.At step ∧ l = step.child "octave" ∧
      ¬ (d.textAt? (step.child "note") = some "REST" ∧ v = .ofNat 0 ∨
        (∃ name ∈ Json.pitchClassNames, d.textAt? (step.child "note") = some name) ∧
          v.IsBetween 2 5)
  | rule => ∃ part parent name choice, (part, name, choice) ∈ rule.allowed ∧ Part.At part parent ∧
      l = parent.child name ∧ ¬ choice.Admits v

/-- What comes after the last occurrence of a mark. -/
def afterLast (mark : List Char) : List Char → Option (List Char)
  | [] => none
  | c :: cs => (afterLast mark cs).or
      (if mark.isPrefixOf (c :: cs) then some ((c :: cs).drop mark.length) else none)

/-- A report quotes the value at a location, which violates its rule. -/
def Quotes (d : Json) (report : Report) (l : Json.Location) : Prop :=
  ∃ v, d.at? l = some v ∧ Violates d l v report.rule ∧
    ∃ before after, report.message = before ++ "got " ++ v.compact ++ after

/-- A report is about what is found at a location.

* A member that is missing: the parent is an object that lacks it.
* A pulse width that is missing: the waveform of the voice is the pulse.
* An array of the wrong size: the number after the last `got ` is its size and out of bounds.
* Roles and shapes of patterns: the location is that of the voices, or of a voice.
* Everything else: the value violates the rule and is quoted. -/
def Culprit (d : Json) (report : Report) (l : Json.Location) : Prop :=
  match report.rule with
  | .memberPresent => ∃ parent name entries, l = .child parent name ∧
      d.at? parent = some (.object entries) ∧ entries.lookup name = none
  | .pulseWidthFits =>
    (d.at? l = none ∧ ∃ voice, Part.voice.At voice ∧ l = voice.child "pulseWidth" ∧
      d.textAt? (voice.child "waveform") = some "PULSE") ∨ Quotes d report l
  | .threeVoices | .patternLengthFits => ∃ items least most, d.at? l = some (.array items) ∧
      report.rule.Bounds l least most ∧ ¬ (least ≤ items.length ∧ items.length ≤ most) ∧
      afterLast "got ".toList report.message.toList = some items.length.repr.toList
  | .rolesCovered => l = .child [] "voices" ∧ ∃ items, d.at? l = some (.array items)
  | .onePattern => Part.voice.At l ∧ ∃ entries, d.at? l = some (.object entries)
  | _ => Quotes d report l

/-! ### Messages -/

/-- A message ends with what was met. -/
theorem Violation.message_of_met? {w : Violation} {path met : String} (h : w.met? = some met) :
    w.message path = w.demand path ++ ", " ++ "got " ++ met := by
  rw [message, h]
  simp [String.append_assoc]

private theorem afterLast_eq_none {c : Char} {mark text : List Char} (habsent : c ∉ text) :
    afterLast (c :: mark) text = none := by
  induction text with
  | nil => rfl
  | cons c' text ih =>
    rw [List.mem_cons, not_or] at habsent
    rw [afterLast, ih habsent.2]
    simp [List.isPrefixOf, habsent.1]

private theorem afterLast_append {mark before text rest : List Char}
    (hfound : afterLast mark text = some rest) : afterLast mark (before ++ text) = some rest := by
  induction before with
  | nil => exact hfound
  | cons c before ih => rw [List.cons_append, afterLast, ih, Option.some_or]

/-- The number that a message ends with comes after the last mark. -/
theorem afterLast_got {before : String} {n : Nat} :
    afterLast "got ".toList (before ++ "got " ++ n.repr).toList = some n.repr.toList := by
  have habsent : 'g' ∉ 'o' :: 't' :: ' ' :: n.repr.toList := by
    intro hmem
    have hdigit : 'g' ∈ n.repr.toList := by simpa using hmem
    rw [Nat.toList_repr] at hdigit
    exact absurd (Nat.isDigit_of_mem_toDigits (by decide) (by decide) hdigit) (by decide)
  have htext : (before ++ "got " ++ n.repr).toList =
      before.toList ++ ('g' :: 'o' :: 't' :: ' ' :: n.repr.toList) := by
    simp
  have hmark : "got ".toList = 'g' :: ['o', 't', ' '] := rfl
  rw [htext, hmark]
  refine afterLast_append ?_
  rw [afterLast, afterLast_eq_none habsent]
  rfl

/-! ### Paths -/

theorem Json.Location.Plain.child {l : Json.Location} (hplain : l = [] ∨ l.Plain) {name : String}
    (hletters : Json.IsPlainName name) : (l.child name).Plain := by
  obtain rfl | ⟨⟨first, rest, rfl⟩, hall⟩ := hplain
  · exact ⟨⟨name, [], rfl⟩, List.forall_mem_singleton.2 hletters⟩
  · exact ⟨⟨first, _, rfl⟩, List.forall_mem_append.2 ⟨hall, List.forall_mem_singleton.2 hletters⟩⟩

theorem Json.Location.Plain.item {l : Json.Location} (hplain : l.Plain) (i : Nat) :
    (l.item i).Plain := by
  obtain ⟨⟨first, rest, rfl⟩, hall⟩ := hplain
  exact ⟨⟨first, _, rfl⟩, List.forall_mem_append.2 ⟨hall, List.forall_mem_singleton.2 trivial⟩⟩

theorem plain_voiceAt (i : Nat) : (voiceAt i).Plain :=
  Json.Location.Plain.item (.child (.inl rfl) (by decide)) i

theorem StepListAt.plain {l : Json.Location} {least most : Nat} (hlist : StepListAt l least most) :
    l.Plain := by
  cases hlist with
  | flat i => exact .child (.inr (plain_voiceAt i)) (by decide)
  | ofSection i name hmem =>
    have hletters : ∀ name ∈ sectionNames, Json.IsPlainName name := by decide
    exact .child (.inr (.child (.inr (plain_voiceAt i)) (by decide))) (hletters name hmem)

/-- Every part but the root has a plain location. -/
theorem Part.At.plain {part : Part} {l : Json.Location} (hstands : part.At l) :
    l = [] ∨ l.Plain := by
  cases hstands with
  | root => exact .inl rfl
  | voice i => exact .inr (plain_voiceAt i)
  | envelope i | filter i | sections i => exact .inr (.child (.inr (plain_voiceAt i)) (by decide))
  | step hlist k => exact .inr (hlist.plain.item k)

theorem Part.plain_members {part : Part} : ∀ m ∈ part.members, Json.IsPlainName m.1 := by
  cases part <;> decide

/-! ### Checks that point at the culprit -/

/-- The path of a check can be read back, and its report is about what is found there. -/
structure Check.Points (d : Json) (c : Check) : Prop where
  path : Json.Location.ofText? c.place.text = some c.place
  culprit : ∀ r, c.rejection? d = some r → Culprit d r.report c.place

variable {d : Json} {part : Part} {l : Json.Location} {name : String} {kind : Json.Kind}

/-- What a rejection by a check is made of. -/
theorem Check.of_rejection? {c : Check} {r : Rejection} (hrejected : c.rejection? d = some r) :
    c.Applies d ∧ ∃ w, c.demand.violation? d c.place = some w ∧ r = ⟨w, c.place⟩ := by
  rw [rejection?] at hrejected
  split at hrejected
  · next happlies =>
    obtain ⟨w, hviolated, rfl⟩ := Option.map_eq_some_iff.1 hrejected
    exact ⟨happlies, w, hviolated, rfl⟩
  · cases hrejected

/-- A check points at the culprit if each violation of its demand does. -/
theorem Check.Points.intro {c : Check} (hplain : c.place = [] ∨ c.place.Plain)
    (hculprit : ∀ w, c.Applies d → c.demand.violation? d c.place = some w →
      Culprit d (Rejection.report ⟨w, c.place⟩) c.place) : c.Points d where
  path := by
    obtain hroot | hplain := hplain
    · rw [hroot]
      rfl
    · exact Json.Location.ofText?_text hplain
  culprit r hrejected := by
    obtain ⟨happlies, w, hviolated, rfl⟩ := of_rejection? hrejected
    exact hculprit w happlies hviolated

/-- A report quotes the value that was met, whatever it says of it. -/
theorem quotes_of_met?_append {v : Json} {w : Violation} (after : String) (hhere : d.at? l = some v)
    (hviolates : Violates d l v w.rule) (hmet : w.met? = some (v.compact ++ after)) :
    Quotes d (Rejection.report ⟨w, l⟩) l := by
  refine ⟨v, hhere, hviolates, w.demand l.text ++ ", ", after, ?_⟩
  simp only [Rejection.report, Violation.message_of_met? hmet, String.append_assoc]

theorem quotes_of_met? {v : Json} {w : Violation} (hhere : d.at? l = some v)
    (hviolates : Violates d l v w.rule) (hmet : w.met? = some v.compact) :
    Quotes d (Rejection.report ⟨w, l⟩) l :=
  quotes_of_met?_append "" hhere hviolates (by rw [hmet, String.append_empty])

theorem exists_object (h : (d.at? l).map Json.kind = some .object) :
    ∃ entries, d.at? l = some (.object entries) := by
  obtain ⟨v, hhere, hobject⟩ := Option.map_eq_some_iff.1 h
  obtain ⟨entries, hmembers⟩ := Option.isSome_iff_exists.1 (Json.kind_eq_object.1 hobject)
  cases v <;> cases hmembers
  exact ⟨_, hhere⟩

private theorem exists_array (h : (d.at? l).map Json.kind = some .array) :
    ∃ items, d.at? l = some (.array items) := by
  obtain ⟨v, hhere, harray⟩ := Option.map_eq_some_iff.1 h
  obtain ⟨items, hmembers⟩ := Option.isSome_iff_exists.1 (Json.kind_eq_array.1 harray)
  cases v <;> cases hmembers
  exact ⟨_, hhere⟩

/-- A required member that is missing is the culprit. -/
theorem hasMember_points (hstands : part.At l) (hmember : (name, kind) ∈ part.members) :
    (hasMember l name).Points d := by
  refine .intro (.inr (.child hstands.plain (Part.plain_members _ hmember))) fun w _ hviolated => ?_
  rw [hasMember, Demand.violation?, Option.ite_none_right_eq_some] at hviolated
  obtain ⟨⟨hmissing, hobject⟩, hsame⟩ := hviolated
  cases hsame
  rw [Json.Location.child, List.dropLast_concat] at hobject
  obtain ⟨entries, hhere⟩ := exists_object hobject
  refine ⟨l, name, entries, rfl, hhere, ?_⟩
  rwa [Json.at?_child, hhere, Option.bind_some, Json.member?_object] at hmissing

/-- What a check of a type complains about. -/
theorem Demand.of_kind {k : Json.Kind} {otherwise : Json → Violation} {w : Violation}
    (hviolated : (Demand.kind k otherwise).violation? d l = some w) :
    ∃ v, d.at? l = some v ∧ v.kind ≠ k ∧ w = otherwise v := by
  obtain ⟨v, hfound, rfl⟩ := Option.map_eq_some_iff.1 hviolated
  obtain ⟨hhere, hwrong⟩ := Option.filter_eq_some_iff.1 hfound
  exact ⟨v, hhere, by simpa using hwrong, rfl⟩

theorem Demand.of_choice {c : Choice} {otherwise : Json → Violation} {w : Violation}
    (hviolated : (Demand.choice c otherwise).violation? d l = some w) :
    ∃ v, d.at? l = some v ∧ ¬ c.Admits v ∧ w = otherwise v := by
  obtain ⟨v, hfound, rfl⟩ := Option.map_eq_some_iff.1 hviolated
  obtain ⟨hhere, hwrong⟩ := Option.filter_eq_some_iff.1 hfound
  exact ⟨v, hhere, by simpa using hwrong, rfl⟩

theorem isExpected_points (hstands : part.At l) {expected : Expected}
    (hmember : (name, expected.kind) ∈ part.members) :
    (isExpected expected (l.child name)).Points d := by
  refine .intro (.inr (.child hstands.plain (Part.plain_members _ hmember))) fun w _ hviolated => ?_
  obtain ⟨v, hhere, hwrong, rfl⟩ := Demand.of_kind hviolated
  have hviolates : Violates d (l.child name) v .typeFits :=
    .inr ⟨part, l, name, _, hstands, hmember, rfl, hwrong⟩
  exact quotes_of_met? hhere hviolates rfl

theorem isObject_points_root : (isObject []).Points d := by
  refine .intro (.inl rfl) fun w _ hviolated => ?_
  obtain ⟨v, hhere, hwrong, rfl⟩ := Demand.of_kind hviolated
  exact quotes_of_met? hhere ⟨rfl, hwrong⟩ rfl

theorem isObject_points (hplain : l.Plain)
    (htyped : ∀ v : Json, v.kind ≠ .object → Violates d l v .typeFits) : (isObject l).Points d := by
  have hinside : l ≠ [] := by
    rintro rfl
    obtain ⟨⟨_, _, hempty⟩, -⟩ := hplain
    cases hempty
  refine .intro (.inr hplain) fun w _ hviolated => ?_
  rw [isObject, if_neg hinside] at hviolated
  obtain ⟨v, hhere, hwrong, rfl⟩ := Demand.of_kind hviolated
  exact quotes_of_met? hhere (htyped v hwrong) rfl

theorem isObject_points_child (hstands : part.At l) (hmember : (name, .object) ∈ part.members) :
    (isObject (l.child name)).Points d :=
  isObject_points (.child hstands.plain (Part.plain_members _ hmember)) fun _ hwrong =>
    .inr ⟨part, l, name, .object, hstands, hmember, rfl, hwrong⟩

theorem isChoice_points (rule : Rule) (hstands : part.At l) {choice : Choice}
    (hallowed : (part, name, choice) ∈ rule.allowed) {otherwise : Json → Violation}
    (hbroken : ∀ v, (otherwise v).rule = rule) (hmet : ∀ v, (otherwise v).met? = some v.compact)
    (hplain : Json.IsPlainName name) : (isChoice (l.child name) choice otherwise).Points d := by
  refine .intro (.inr (.child hstands.plain hplain)) fun w _ hviolated => ?_
  obtain ⟨v, hhere, hwrong, rfl⟩ := Demand.of_choice hviolated
  have hquotes (hviolates : Violates d (l.child name) v rule) :
      Quotes d (Rejection.report ⟨otherwise v, l.child name⟩) (l.child name) :=
    quotes_of_met? hhere (by rwa [hbroken]) (hmet v)
  have his : ∃ part parent name' choice, (part, name', choice) ∈ rule.allowed ∧
      Part.At part parent ∧ l.child name = parent.child name' ∧ ¬ choice.Admits v :=
    ⟨part, l, name, choice, hallowed, hstands, rfl, hwrong⟩
  have hsame : (Rejection.report ⟨otherwise v, l.child name⟩).rule = rule := hbroken v
  rw [Culprit, isChoice, hsame]
  cases rule <;> first | exact hquotes his | cases hallowed

theorem memberChecks_points (rule : Rule) (hstands : part.At l) {expected : Expected}
    (hmember : (name, expected.kind) ∈ part.members) {choice : Choice}
    (hallowed : (part, name, choice) ∈ rule.allowed) {otherwise : Json → Violation}
    (hbroken : ∀ v, (otherwise v).rule = rule) (hmet : ∀ v, (otherwise v).met? = some v.compact) :
    ∀ c ∈ memberChecks l name expected choice otherwise, c.Points d :=
  List.forall_mem_cons.2 ⟨hasMember_points hstands hmember,
    List.forall_mem_cons.2 ⟨isExpected_points hstands hmember, List.forall_mem_singleton.2
      (isChoice_points rule hstands hallowed hbroken hmet (Part.plain_members _ hmember))⟩⟩

/-- What a check that is made for some names says of where they stand. -/
theorem Check.Applies.stands {demand : Demand} {place : Json.Location} {names : List String}
    (happlies : Check.Applies d ⟨l, demand, some (place, names)⟩) :
    ∃ name ∈ names, d.textAt? place = some name :=
  happlies _ rfl

/-- An octave that does not fit the note is the culprit. -/
theorem octaveChecks_points (hstands : Part.step.At l) : ∀ c ∈ octaveChecks l, c.Points d := by
  have hmember : ("octave", Json.Kind.integer) ∈ Part.step.members := by decide
  have hplain := Json.Location.Plain.child hstands.plain (Part.plain_members _ hmember)
  have hunpitched : "REST" ∉ Json.pitchClassNames := by decide
  simp only [octaveChecks, List.forall_mem_cons]
  refine ⟨hasMember_points hstands hmember, isExpected_points hstands hmember, ?_, ?_, by simp⟩
  · refine .intro (.inr hplain) fun w happlies hviolated => ?_
    obtain ⟨v, hhere, hwrong, rfl⟩ := Demand.of_choice hviolated
    obtain ⟨name, hrest, hnote⟩ := happlies.stands
    obtain rfl := List.mem_singleton.1 hrest
    refine quotes_of_met? hhere ⟨l, hstands, rfl, ?_⟩ rfl
    rintro (⟨-, hzero⟩ | ⟨⟨name, hpitch, hsame⟩, -⟩)
    · exact hwrong ⟨0, List.mem_singleton_self 0, hzero⟩
    · obtain rfl := Option.some.inj (hnote.symm.trans hsame)
      exact hunpitched hpitch
  · refine .intro (.inr hplain) fun w happlies hviolated => ?_
    obtain ⟨v, hhere, hwrong, rfl⟩ := Demand.of_choice hviolated
    obtain ⟨name, hpitch, hnote⟩ := happlies.stands
    refine quotes_of_met? hhere ⟨l, hstands, rfl, ?_⟩ rfl
    rintro (⟨hsame, -⟩ | ⟨-, hfits⟩)
    · obtain rfl := Option.some.inj (hnote.symm.trans hsame)
      exact hunpitched hpitch
    · exact hwrong hfits

theorem stepChecks_points {least most : Nat} (hlist : StepListAt l least most) (k : Nat) :
    ∀ c ∈ stepChecks (l.item k), c.Points d := by
  have hstands : Part.step.At (l.item k) := .step hlist k
  simp only [stepChecks, List.forall_mem_cons, List.forall_mem_append]
  refine ⟨isObject_points (hlist.plain.item k) fun _ hwrong => .inl ⟨.inr hstands, hwrong⟩,
    ⟨?_, octaveChecks_points hstands⟩, ?_⟩
  · exact memberChecks_points .noteKnown hstands (by decide) (by simp [Rule.allowed])
      (fun _ => rfl) fun _ => rfl
  · exact memberChecks_points .noteValueKnown hstands (by decide) (by simp [Rule.allowed])
      (fun _ => rfl) fun _ => rfl

/-! ### Arrays -/

/-- An array of the wrong size is the culprit. -/
theorem size_points (rule : Rule) (hplain : l.Plain) {least most : Nat}
    {otherwise : Nat → Violation}
    (hbroken : ∀ n, (otherwise n).rule = rule) (hmet : ∀ n, (otherwise n).met? = some n.repr)
    (hbounds : rule.Bounds l least most) :
    Check.Points d ⟨l, .size least most otherwise, none⟩ := by
  refine .intro (.inr hplain) fun w _ hviolated => ?_
  obtain ⟨n, hfound, rfl⟩ := Option.map_eq_some_iff.1 hviolated
  obtain ⟨hcounted, hwrong⟩ := Option.filter_eq_some_iff.1 hfound
  obtain ⟨v, hhere, hsize⟩ := Option.bind_eq_some_iff.1 hcounted
  obtain ⟨items, harray, rfl⟩ := Option.map_eq_some_iff.1 hsize
  have hvalue : v = .array items := by
    cases v <;> cases harray
    rfl
  have hmessage : afterLast "got ".toList
      (Rejection.report ⟨otherwise items.length, l⟩).message.toList =
        some items.length.repr.toList := by
    rw [Rejection.report, Violation.message_of_met? (hmet _)]
    exact afterLast_got
  have hsame : (Rejection.report ⟨otherwise items.length, l⟩).rule = rule := hbroken _
  have hsized : ∃ its least most, d.at? l = some (.array its) ∧ rule.Bounds l least most ∧
      ¬ (least ≤ its.length ∧ its.length ≤ most) ∧ afterLast "got ".toList
        (Rejection.report ⟨otherwise items.length, l⟩).message.toList =
          some its.length.repr.toList :=
    ⟨items, least, most, hhere.trans (congrArg some hvalue), hbounds, of_decide_eq_true hwrong,
    hmessage⟩
  rw [Culprit, hsame]
  cases rule <;> first | exact hsized | exact False.elim hbounds

theorem stepListChecks_points {least most : Nat} (hlist : StepListAt l least most)
    {otherwise : Nat → Violation} (hbroken : ∀ n, (otherwise n).rule = .patternLengthFits)
    (hmet : ∀ n, (otherwise n).met? = some n.repr) :
    ∀ c ∈ stepListChecks d l least most otherwise, c.Points d := by
  have harray : (isExpected .steps l).Points d := by
    cases hlist with
    | flat i => exact isExpected_points (.voice i) (by decide)
    | ofSection i name hmem =>
      have hmember : (name, Json.Kind.array) ∈ Part.sections.members := List.mem_map_of_mem hmem
      exact isExpected_points (.sections i) hmember
  have hsteps : ∀ c ∈ (List.range (d.itemCount l)).flatMap fun i => stepChecks (l.item i),
      c.Points d := by
    intro c hmem
    obtain ⟨k, -, hmem⟩ := List.mem_flatMap.1 hmem
    exact stepChecks_points hlist k c hmem
  exact List.forall_mem_cons.2 ⟨harray, List.forall_mem_append.2 ⟨hsteps,
    List.forall_mem_singleton.2
      (size_points .patternLengthFits hlist.plain hbroken hmet hlist)⟩⟩

theorem patternChecks_points (i : Nat) : ∀ c ∈ patternChecks d (voiceAt i), c.Points d := by
  have hshape : (hasOneShape (voiceAt i)).Points d := by
    refine .intro (.inr (plain_voiceAt i)) fun w _ hviolated => ?_
    rw [hasOneShape, Demand.violation?] at hviolated
    split at hviolated
    · next hobject =>
      have hvoice : Part.voice.At (voiceAt i) ∧
          ∃ entries, d.at? (voiceAt i) = some (.object entries) :=
        ⟨.voice i, exists_object hobject⟩
      split at hviolated <;> cases hviolated <;> exact hvoice
    · cases hviolated
  have hsections : ∀ c ∈ sectionListChecks d ((voiceAt i).child "patternSections"), c.Points d := by
    refine List.forall_mem_cons.2 ⟨isObject_points_child (.voice i) (by decide), fun c hmem => ?_⟩
    obtain ⟨name, hknown, hmem⟩ := List.mem_flatMap.1 hmem
    have hmember : (name, Json.Kind.array) ∈ Part.sections.members := List.mem_map_of_mem hknown
    have hpoints : ∀ c ∈ sectionChecks d ((voiceAt i).child "patternSections") name, c.Points d :=
      List.forall_mem_cons.2 ⟨hasMember_points (.sections i) hmember,
        stepListChecks_points (.ofSection i name hknown) (fun _ => rfl) fun _ => rfl⟩
    exact hpoints c hmem
  exact List.forall_mem_cons.2 ⟨hshape, List.forall_mem_append.2
    ⟨stepListChecks_points (.flat i) (fun _ => rfl) fun _ => rfl, hsections⟩⟩

/-! ### Voices -/

theorem envelopeChecks_points (i : Nat) :
    ∀ c ∈ envelopeChecks ((voiceAt i).child "adsr"), c.Points d := by
  refine List.forall_mem_cons.2 ⟨isObject_points_child (.voice i) (by decide), fun c hmem => ?_⟩
  obtain ⟨stage, hknown, hmem⟩ := List.mem_flatMap.1 hmem
  have hstages : ∀ stage ∈ ["attack", "decay", "sustain", "release"],
      (stage, Json.Kind.integer) ∈ Part.envelope.members := by decide
  exact memberChecks_points .envelopeInRange (.envelope i) (hstages stage hknown)
    (List.mem_map_of_mem hknown)
    (fun _ => rfl) (fun _ => rfl) c hmem

/-- The checks of a pulse width point at the culprit. -/
theorem pulseWidthChecks_points (i : Nat) : ∀ c ∈ pulseWidthChecks (voiceAt i), c.Points d := by
  have hmember : ("pulseWidth", Json.Kind.integer) ∈ Part.voice.members := by decide
  have hplain := Json.Location.Plain.child (.inr (plain_voiceAt i)) (Part.plain_members _ hmember)
  have hneeded : (needsPulseWidth (voiceAt i)).Points d := by
    refine .intro (.inr hplain) fun w happlies hviolated => ?_
    obtain ⟨name, hpulse, hwaveform⟩ := happlies.stands
    obtain rfl := List.mem_singleton.1 hpulse
    rw [needsPulseWidth, Demand.violation?, Option.ite_none_right_eq_some] at hviolated
    obtain ⟨⟨hmissing, -⟩, hsame⟩ := hviolated
    cases hsame
    exact .inl ⟨hmissing, voiceAt i, .voice i, rfl, hwaveform⟩
  have hunwanted (w' : Waveform) (hother : w' ≠ .pulse) :
      (wantsNoPulseWidth (voiceAt i) w').Points d := by
    refine .intro (.inr hplain) fun w happlies hviolated => ?_
    obtain ⟨name, hknown, hwaveform⟩ := happlies.stands
    obtain rfl := List.mem_singleton.1 hknown
    obtain ⟨v, hhere, rfl⟩ := Option.map_eq_some_iff.1 hviolated
    have hviolates : Violates d ((voiceAt i).child "pulseWidth") v .pulseWidthFits := by
      refine ⟨voiceAt i, .voice i, rfl, ?_⟩
      rintro ⟨hpulse, -⟩
      have hsame : Named.name w' = "PULSE" := Option.some.inj (hwaveform.symm.trans hpulse)
      cases w' <;> first | exact hother rfl | exact absurd hsame (by decide)
    exact .inr (quotes_of_met?_append (" with waveform " ++ Named.name w') hhere hviolates
      (by rw [← String.append_assoc]; rfl))
  have hranged : (isChoice ((voiceAt i).child "pulseWidth") (.between 0 4095)
      .pulseWidthOutOfRange).Points d := by
    refine .intro (.inr hplain) fun w _ hviolated => ?_
    obtain ⟨v, hhere, hwrong, rfl⟩ := Demand.of_choice hviolated
    exact .inr (quotes_of_met? hhere ⟨voiceAt i, .voice i, rfl, fun hfits => hwrong hfits.2⟩ rfl)
  simp only [pulseWidthChecks, List.map_cons, List.map_nil, List.cons_append, List.nil_append,
    List.forall_mem_cons]
  exact ⟨hneeded, hunwanted _ (by decide), hunwanted _ (by decide), hunwanted _ (by decide),
    isExpected_points (.voice i) hmember, hranged, by simp⟩

theorem filterChecks_points (i : Nat) :
    ∀ c ∈ filterChecks ((voiceAt i).child "filter"), c.Points d := by
  have hstands : Part.filter.At ((voiceAt i).child "filter") := .filter i
  simp only [filterChecks, List.forall_mem_cons, List.forall_mem_append]
  refine ⟨isObject_points_child (.voice i) (by decide), ⟨?_, ?_⟩, ?_⟩
  · exact memberChecks_points .filterKindKnown hstands (by decide) (by simp [Rule.allowed])
      (fun _ => rfl) fun _ => rfl
  · exact memberChecks_points .filterInRange hstands (by decide) (by simp [Rule.allowed])
      (fun _ => rfl) fun _ => rfl
  · exact memberChecks_points .filterInRange hstands (by decide) (by simp [Rule.allowed])
      (fun _ => rfl) fun _ => rfl

theorem roleChecks_points (i : Nat) : ∀ c ∈ roleChecks (voiceAt i), c.Points d :=
  List.forall_mem_cons.2
    ⟨isObject_points (plain_voiceAt i) fun _ hwrong => .inl ⟨.inl (.voice i), hwrong⟩,
      memberChecks_points .roleKnown (.voice i) (by decide) (by simp [Rule.allowed])
        (fun _ => rfl) fun _ => rfl⟩

/-- The checks of what a voice holds besides its role point at the culprit. -/
theorem voiceChecks_points (i : Nat) : ∀ c ∈ voiceChecks d (voiceAt i), c.Points d := by
  have hstands : Part.voice.At (voiceAt i) := .voice i
  have hwaveform : ∀ c ∈ memberChecks (voiceAt i) "waveform" .text
      (.names ["TRI", "SAW", "PULSE", "NOISE"]) .unknownWaveform, c.Points d :=
    memberChecks_points .waveformKnown hstands (by decide) (by simp [Rule.allowed])
      (fun _ => rfl) fun _ => rfl
  have hadsr : ("adsr", Json.Kind.object) ∈ Part.voice.members := by decide
  have hfilter : ("filter", Json.Kind.object) ∈ Part.voice.members := by decide
  simp only [voiceChecks, List.forall_mem_cons, List.forall_mem_append]
  exact ⟨⟨⟨⟨hwaveform, hasMember_points hstands hadsr, envelopeChecks_points i⟩,
    pulseWidthChecks_points i⟩, hasMember_points hstands hfilter, filterChecks_points i⟩,
    patternChecks_points i⟩

/-- A role that is not played makes the voices the culprit. -/
theorem isPlayed_points (role : Role) : (isPlayed (.child [] "voices") role).Points d := by
  have hplain : Json.Location.Plain (.child [] "voices") := .child (.inl rfl) (by decide)
  refine .intro (.inr hplain) fun w _ hviolated => ?_
  rw [isPlayed, Demand.violation?, Option.ite_none_right_eq_some] at hviolated
  obtain ⟨⟨harray, -⟩, hsame⟩ := hviolated
  cases hsame
  exact ⟨rfl, exists_array harray⟩

/-! ### Songs -/

theorem voicesChecks_points : ∀ c ∈ voicesChecks d (.child [] "voices"), c.Points d := by
  have hplain : Json.Location.Plain (.child [] "voices") := .child (.inl rfl) (by decide)
  have hthree : (hasThree (.child [] "voices")).Points d :=
    size_points .threeVoices hplain (fun _ => rfl) (fun _ => rfl) ⟨rfl, rfl, rfl⟩
  have hroles : ∀ c ∈ [0, 1, 2].flatMap fun i => roleChecks (.item (.child [] "voices") i),
      c.Points d := by
    intro c hmem
    obtain ⟨i, -, hmem⟩ := List.mem_flatMap.1 hmem
    exact roleChecks_points i c hmem
  have hvoices : ∀ c ∈ [0, 1, 2].flatMap fun i => voiceChecks d (.item (.child [] "voices") i),
      c.Points d := by
    intro c hmem
    obtain ⟨i, -, hmem⟩ := List.mem_flatMap.1 hmem
    exact voiceChecks_points i c hmem
  have hplayed : ∀ c ∈ [Role.lead, .bass, .arpOrDrums].map (isPlayed (.child [] "voices")),
      c.Points d := List.forall_mem_map.2 fun role _ => isPlayed_points role
  exact List.forall_mem_cons.2 ⟨isExpected_points .root (by decide), List.forall_mem_cons.2 ⟨hthree,
    List.forall_mem_append.2 ⟨List.forall_mem_append.2 ⟨hroles, hplayed⟩, hvoices⟩⟩⟩

/-- Every check of a song document points at the culprit. -/
theorem songChecks_point : ∀ c ∈ songChecks d, c.Points d := by
  have hvoices : ("voices", Json.Kind.array) ∈ Part.root.members := by decide
  have htexts : ∀ name ∈ ["title", "author", "released"],
      (name, Json.Kind.text) ∈ Part.root.members := by decide
  have hmetadata : ∀ c ∈ ["title", "author", "released"].map fun name =>
      isExpected .text (.child [] name), c.Points d :=
    List.forall_mem_map.2 fun name hmem => isExpected_points .root (htexts name hmem)
  refine List.forall_mem_cons.2 ⟨isObject_points_root, List.forall_mem_append.2 ⟨?_, hmetadata⟩⟩
  simp only [List.forall_mem_cons, List.forall_mem_append]
  refine ⟨⟨⟨?_, ?_⟩, ?_⟩, hasMember_points .root hvoices, voicesChecks_points⟩
  · exact memberChecks_points .tempoKnown .root (by decide) (by simp [Rule.allowed])
      (fun _ => rfl) fun _ => rfl
  · exact memberChecks_points .keyKnown .root (by decide) (by simp [Rule.allowed])
      (fun _ => rfl) fun _ => rfl
  · exact memberChecks_points .scaleKnown .root (by decide) (by simp [Rule.allowed])
      (fun _ => rfl) fun _ => rfl

/-- A document that is rejected is reported with a path that leads from the root to the culprit. -/
theorem Song.ofJson_error_culprit {r : Rejection} (hrejected : Song.ofJson d = .error r) :
    ∃ path l, r.report.path? = some path ∧ Json.Location.ofText? path = some l ∧
      Culprit d r.report l := by
  obtain ⟨before, c, after, hchecks, hfailed, -⟩ := (Song.ofJson_follows d).eq_error_iff.1 hrejected
  have hpoints : c.Points d := songChecks_point c (by simp [hchecks])
  obtain ⟨-, w, -, rfl⟩ := Check.of_rejection? hfailed
  exact ⟨_, c.place, rfl, hpoints.path, hpoints.culprit _ hfailed⟩

/-- A tempo of 121 is quoted, at its place. -/
theorem ofJson_error_culprit_tempo : ∃ path l,
    (Rejection.report ⟨.unknownTempo (.ofNat 121), [.member "bpm"]⟩).path? = some path ∧
      Json.Location.ofText? path = some l ∧ Culprit (.object [("bpm", .ofNat 121)])
        (Rejection.report ⟨.unknownTempo (.ofNat 121), [.member "bpm"]⟩) l :=
  Song.ofJson_error_culprit rfl

end SidTune
