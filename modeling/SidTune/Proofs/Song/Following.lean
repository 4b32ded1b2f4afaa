import SidTune.Proofs.Song.Checks

/-!
# Readers follow their checks

Reading a song follows the list of checks: it succeeds if the document passes all of them, and
otherwise it gives the rejection by the first check that the document does not pass. This is shown
for every reader and its part of the list, along the way from the cursor to the document. The checks
of what is absent, as those of the shape that a pattern does not have, are passed.

## Main definitions

* `SidTune.Follows`: a reader succeeds or fails as a list of checks says.
* `SidTune.Cursor.In`, `SidTune.Members.In`: a cursor, or the members of an object, inside a
  document.

## Main results

* `SidTune.Follows.bind`, `SidTune.Follows.mapM`: readers in sequence follow lists in sequence.
* `SidTune.readStep_follows`, `SidTune.readPattern_follows`, `SidTune.readVoice_follows`: the
  readers of the parts follow their checks.
* `SidTune.Song.ofJson_follows`: reading a song follows the checks of song documents.
-/

namespace SidTune

/-! ### Following a list of checks -/

/-- The rejection that a reader gives. -/
def Checked.rejection? {α : Type} : Checked α → Option Rejection
  | .ok _ => none
  | .error r => some r

/-- A reader gives the rejection by the first check that a document does not pass, and none if it
passes all. -/
def Follows {α : Type} (d : Json) (x : Checked α) (cs : List Check) : Prop :=
  x.rejection? = cs.findSome? (·.rejection? d)

namespace Follows

variable {α β : Type} {d : Json} {x : Checked α} {f : α → Checked β} {c : Check}
  {cs cs' : List Check}

theorem ok {a : α} : Follows d (.ok a) [] := rfl

/-- A reader that goes on after another goes on with the list. -/
theorem bind (hfirst : Follows d x cs) (hnext : ∀ a, x = .ok a → Follows d (f a) cs') :
    Follows d (x >>= f) (cs ++ cs') := by
  rw [Follows, List.findSome?_append, ← hfirst]
  cases x with
  | error r => rfl
  | ok a => exact hnext a rfl

theorem cons (hfirst : Follows d x [c]) (hnext : ∀ a, x = .ok a → Follows d (f a) cs) :
    Follows d (x >>= f) (c :: cs) :=
  hfirst.bind hnext

theorem map (hfirst : Follows d x cs) {make : α → β} : Follows d (make <$> x) cs := by
  rw [Follows, ← hfirst]
  cases x <;> rfl

theorem bind_pure (hfirst : Follows d x cs) {make : α → β} :
    Follows d (x >>= fun a => pure (make a)) cs := by
  have hpadded : Follows d (x >>= fun a => pure (make a)) (cs ++ []) := hfirst.bind fun a _ => ok
  rwa [List.append_nil] at hpadded

/-- Reading each of a list follows the lists of all. -/
theorem mapM {as : List α} {checks : α → List Check}
    (heach : ∀ a ∈ as, Follows d (f a) (checks a)) :
    Follows d (as.mapM f) (as.flatMap checks) := by
  induction as with
  | nil => exact ok
  | cons a as ih =>
    rw [List.forall_mem_cons] at heach
    rw [List.mapM_cons, List.flatMap_cons]
    exact heach.1.bind fun b _ => (ih heach.2).bind_pure

/-- A reader that fails reads no further. -/
theorem fail_append {r : Rejection} (hrejected : cs.findSome? (·.rejection? d) = some r) :
    Follows d (.error r : Checked α) (cs ++ cs') := by
  rw [Follows, List.findSome?_append, hrejected]
  rfl

theorem fail {r : Rejection} (hrejected : c.rejection? d = some r) :
    Follows d (.error r : Checked α) (c :: cs) := by
  rw [Follows, List.findSome?_cons, hrejected]
  rfl

/-- Nothing is read along checks that the document passes. -/
theorem passing (hpassed : ∀ c ∈ cs, c.rejection? d = none) (hrest : Follows d x cs') :
    Follows d x (cs ++ cs') := by
  rw [Follows, List.findSome?_append, List.findSome?_eq_none_iff.2 hpassed]
  exact hrest

theorem pass (hpassed : c.rejection? d = none) (hrest : Follows d x cs) :
    Follows d x (c :: cs) := by
  rw [Follows, List.findSome?_cons, hpassed]
  exact hrest

theorem append_passing (hrest : Follows d x cs) (hpassed : ∀ c ∈ cs', c.rejection? d = none) :
    Follows d x (cs ++ cs') := by
  rw [Follows, List.findSome?_append, List.findSome?_eq_none_iff.2 hpassed, Option.or_none]
  exact hrest

/-- A document is rejected by the first check that it does not pass. -/
theorem eq_error_iff (hfollows : Follows d x cs) {r : Rejection} : x = .error r ↔
    ∃ before c after, cs = before ++ c :: after ∧ c.rejection? d = some r ∧
      ∀ b ∈ before, b.rejection? d = none := by
  rw [← List.findSome?_eq_some_iff, ← hfollows]
  cases x <;> simp [Checked.rejection?]

theorem exists_eq_ok_iff (hfollows : Follows d x cs) :
    (∃ a, x = .ok a) ↔ ∀ c ∈ cs, c.rejection? d = none := by
  rw [← List.findSome?_eq_none_iff, ← hfollows]
  cases x <;> simp [Checked.rejection?]

end Follows

/-! ### Single checks -/

section

variable {d : Json} {l : Json.Location} {v : Json}

theorem Demand.violation?_kind (hhere : d.at? l = some v) {k : Json.Kind} {w : Json → Violation} :
    (kind k w).violation? d l = if v.kind = k then none else some (w v) := by
  by_cases hfits : v.kind = k <;> simp [violation?, hhere, hfits]

theorem Demand.violation?_choice (hhere : d.at? l = some v) {choice : Choice}
    {w : Json → Violation} :
    (Demand.choice choice w).violation? d l = if choice.Admits v then none else some (w v) := by
  by_cases hfits : choice.Admits v <;> simp [violation?, hhere, hfits]

theorem Demand.violation?_size (hhere : d.at? l = some v) {n : Nat} (hcounted : v.size? = some n)
    {least most : Nat} {w : Nat → Violation} : (size least most w).violation? d l =
      if least ≤ n ∧ n ≤ most then none else some (w n) := by
  by_cases hfits : least ≤ n ∧ n ≤ most <;> simp [violation?, hhere, hcounted, Option.filter, hfits]

theorem Check.rejection?_always {demand : Demand} :
    Check.rejection? d ⟨l, demand, none⟩ = (demand.violation? d l).map (⟨·, l⟩) := by
  simp [rejection?, Applies]

theorem Check.rejection?_only {demand : Demand} {place : Json.Location} {name : String}
    {names : List String} (hstands : d.textAt? place = some name) :
    Check.rejection? d ⟨l, demand, some (place, names)⟩ =
      if name ∈ names then (demand.violation? d l).map (⟨·, l⟩) else none := by
  simp [rejection?, Applies, hstands]

/-- A reader follows a check without a condition if it gives what violates the demand. -/
theorem follows_always {α : Type} {x : Checked α} {demand : Demand}
    (hsame : x.rejection? = (demand.violation? d l).map (⟨·, l⟩)) :
    Follows d x [⟨l, demand, none⟩] := by
  rw [Follows, hsame, List.findSome?_singleton, Check.rejection?_always]

end

/-! ### Cursors in a document -/

/-- A cursor points into a document. -/
def Cursor.In (d : Json) (c : Cursor) : Prop :=
  d.at? c.location = some c.value

/-- Members are those of an object inside a document. -/
def Members.In (d : Json) (o : Members) : Prop :=
  d.at? o.location = some (.object o.entries)

section

variable {d : Json} {c : Cursor} {o : Members} {name : String}

theorem Cursor.textAt?_eq (hhere : c.In d) {s : String} (hvalue : c.value = .string s) :
    d.textAt? c.location = some s := by
  rw [Json.textAt?, hhere, hvalue]
  rfl

theorem Cursor.members_in (hhere : c.In d) (hread : c.members = .ok o) :
    o.In d ∧ o.location = c.location := by
  obtain ⟨entries, hvalue, rfl⟩ := members_eq_ok.1 hread
  exact ⟨hhere.trans (congrArg some hvalue), rfl⟩

theorem Members.at?_child (hinside : o.In d) :
    d.at? (o.location.child name) = o.entries.lookup name := by
  rw [Json.at?_child, hinside]
  rfl

theorem Members.required_in (hinside : o.In d) (hread : o.required name = .ok c) :
    c.In d ∧ c.location = o.location.child name := by
  obtain ⟨v, hfound, rfl⟩ := required_eq_ok.1 hread
  exact ⟨(at?_child hinside).trans hfound, rfl⟩

/-! ### Readers of single values -/

@[simp] theorem Checked.rejection?_ok {α : Type} {a : α} :
    Checked.rejection? (.ok a) = none := rfl

@[simp] theorem Cursor.rejection?_reject {α : Type} {w : Violation} :
    Checked.rejection? (c.reject w : Checked α) = some ⟨w, c.location⟩ := rfl

theorem Cursor.members_follows (hhere : c.In d) : Follows d c.members [isObject c.location] := by
  refine follows_always ?_
  rw [Demand.violation?_kind hhere]
  cases hread : c.value.members? <;> simp [members, hread, Json.kind_eq_object, ite_apply]

theorem Cursor.items_follows (hhere : c.In d) {expected : Expected}
    (harray : expected.kind = .array) :
    Follows d (c.items expected) [isExpected expected c.location] := by
  refine follows_always ?_
  rw [Demand.violation?_kind hhere, harray]
  cases hread : c.value.items? <;> simp [items, hread, Json.kind_eq_array]

theorem Cursor.text_follows (hhere : c.In d) : Follows d c.text [isExpected .text c.location] := by
  refine follows_always ?_
  rw [Demand.violation?_kind hhere]
  cases hread : c.value.text? <;> simp [text, hread, Expected.kind, Json.kind_eq_text]

theorem Cursor.integer_follows (hhere : c.In d) :
    Follows d c.integer [isExpected .integer c.location] := by
  refine follows_always ?_
  rw [Demand.violation?_kind hhere]
  cases hread : c.value.int? <;> simp [integer, hread, Expected.kind, Json.kind_eq_integer]

/-- A text is read along the check of its type and the check for the names allowed. -/
theorem Cursor.textIn_follows (hhere : c.In d) {α : Type} {choose : String → Option α}
    {names : List String} (hknown : ∀ {s}, s ∈ names ↔ (choose s).isSome) {w : Json → Violation} :
    Follows d (c.textIn choose w)
      [isExpected .text c.location, isChoice c.location (.names names) w] := by
  refine (text_follows hhere).cons fun s hread => follows_always ?_
  have hadmits : (Choice.names names).Admits c.value ↔ (choose s).isSome := by
    simp [Choice.Admits, Json.IsNameOf, text_eq_ok.1 hread, hknown]
  rw [Demand.violation?_choice hhere]
  cases hchosen : choose s <;> simp [hadmits, hchosen]

/-- An integer is read along the check of its type and the check for the integers allowed. -/
theorem Cursor.integerIn_follows (hhere : c.In d) {α : Type} {choose : Int → Option α}
    {choice : Choice}
    (hknown : ∀ {n : Int}, choice.Admits (.number (.integer n)) ↔ (choose n).isSome)
    {w : Json → Violation} :
    Follows d (c.integerIn choose w)
      [isExpected .integer c.location, isChoice c.location choice w] := by
  refine (integer_follows hhere).cons fun n hread => follows_always ?_
  have hadmits : choice.Admits c.value ↔ (choose n).isSome := by
    rw [(integer_eq_ok.1 hread).1, hknown]
  rw [Demand.violation?_choice hhere]
  cases hchosen : choose n <;> simp [hadmits, hchosen]

theorem Members.kind_parent (hinside : o.In d) :
    (d.at? (o.location.child name).dropLast).map Json.kind = some .object := by
  rw [Json.Location.child, List.dropLast_concat, hinside]
  rfl

theorem Members.required_follows (hinside : o.In d) :
    Follows d (o.required name) [hasMember o.location name] := by
  refine follows_always ?_
  rw [Demand.violation?, at?_child hinside, kind_parent hinside]
  cases hmember : o.entries.lookup name <;> simp [required, optional, hmember]
  rfl

/-- A required member is read along the check that it is there, and then stands at its place. -/
theorem Members.member_follows (hinside : o.In d) {α : Type} {f : Cursor → Checked α}
    {cs : List Check}
    (hnext : ∀ c, c.In d → c.location = o.location.child name → Follows d (f c) cs) :
    Follows d (o.required name >>= f) (hasMember o.location name :: cs) :=
  (required_follows hinside).cons fun c hread =>
    have ⟨hhere, hlocation⟩ := required_in hinside hread
    hnext c hhere hlocation

theorem Cursor.object_follows (hhere : c.In d) {α : Type} {f : Members → Checked α}
    {cs : List Check} (hnext : ∀ o, o.In d → o.location = c.location → Follows d (f o) cs) :
    Follows d (c.members >>= f) (isObject c.location :: cs) :=
  (members_follows hhere).cons fun o hread =>
    have ⟨hinside, hlocation⟩ := members_in hhere hread
    hnext o hinside hlocation

theorem Cursor.exists_of_textIn (hhere : c.In d) {α : Type} {choose : String → Option α}
    {w : Json → Violation} {a : α} (hread : c.textIn choose w = .ok a) :
    ∃ s, d.textAt? c.location = some s ∧ choose s = some a := by
  obtain ⟨s, hvalue, hchosen⟩ := Except.bind_eq_ok.1 hread
  refine ⟨s, textAt?_eq hhere (text_eq_ok.1 hvalue), ?_⟩
  cases hknown : choose s with
  | none => simp [hknown] at hchosen
  | some b => simpa [hknown] using hchosen

/-- A required member that is a text allowed is read along its checks. -/
theorem Members.textIn_follows (hinside : o.In d) {α β : Type} {choose : String → Option α}
    {names : List String} (hknown : ∀ {s}, s ∈ names ↔ (choose s).isSome) {w : Json → Violation}
    {f : α → Checked β} {cs : List Check}
    (hnext : ∀ a s, d.textAt? (o.location.child name) = some s → choose s = some a →
      Follows d (f a) cs) :
    Follows d (o.required name >>= fun c => c.textIn choose w >>= f)
      (memberChecks o.location name .text (.names names) w ++ cs) := by
  refine member_follows hinside fun c hhere hlocation => ?_
  rw [← hlocation] at hnext ⊢
  refine (Cursor.textIn_follows hhere hknown).bind fun a hread => ?_
  obtain ⟨s, hstands, hchosen⟩ := Cursor.exists_of_textIn hhere hread
  exact hnext a s hstands hchosen

theorem Members.integerIn_follows (hinside : o.In d) {α : Type} {choose : Int → Option α}
    {choice : Choice}
    (hknown : ∀ {n : Int}, choice.Admits (.number (.integer n)) ↔ (choose n).isSome)
    {w : Json → Violation} :
    Follows d (o.required name >>= fun c => c.integerIn choose w)
      (memberChecks o.location name .integer choice w) := by
  refine member_follows hinside fun c hhere hlocation => ?_
  rw [← hlocation]
  exact Cursor.integerIn_follows hhere hknown

theorem Members.integerIn_bind_follows (hinside : o.In d) {α β : Type} {choose : Int → Option α}
    {choice : Choice}
    (hknown : ∀ {n : Int}, choice.Admits (.number (.integer n)) ↔ (choose n).isSome)
    {w : Json → Violation} {f : α → Checked β} {cs : List Check}
    (hnext : ∀ a, Follows d (f a) cs) :
    Follows d (o.required name >>= fun c => c.integerIn choose w >>= f)
      (memberChecks o.location name .integer choice w ++ cs) := by
  rw [← bind_assoc]
  exact (integerIn_follows hinside hknown).bind fun a _ => hnext a

end

/-! ### What is allowed -/

theorem Named.mem_iff_isSome (α : Type) [Named α] {names : List String}
    (hall : (Named.all : List α).map Named.name = names) {s : String} :
    s ∈ names ↔ (Named.ofName? s : Option α).isSome := by
  simp [← hall, Named.ofName?, List.find?_isSome]

private theorem mem_iff_isSome_note {s : String} :
    s ∈ "REST" :: Json.pitchClassNames ↔ (noteOfName? s).isSome := by
  have hclasses : s ∈ Json.pitchClassNames ↔ (Named.ofName? s : Option PitchClass).isSome :=
    Named.mem_iff_isSome PitchClass rfl
  by_cases hrest : s = restName
  · simp [noteOfName?, hrest, restName]
  · rw [List.mem_cons, ← restName, or_iff_right hrest, hclasses, noteOfName?, if_neg hrest,
      Option.isSome_map]

theorem admits_iff_find {α : Type} (all : List α) (number : α → Nat) {n : Int} :
    (Choice.numbers (all.map number)).Admits (.number (.integer n)) ↔
      (all.find? fun a => (number a : Int) == n).isSome := by
  simp only [Choice.Admits, Json.IsOneOf, List.mem_map, exists_exists_and_eq_and, Json.ofNat,
    Json.number.injEq, Json.Number.integer.injEq, List.find?_isSome, beq_iff_eq, @eq_comm _ n]

private theorem admits_iff_tempo {n : Int} :
    (Choice.numbers [60, 80, 90, 100, 120, 140, 160]).Admits (.number (.integer n)) ↔
      (Tempo.ofBpm? n).isSome :=
  admits_iff_find Tempo.all Tempo.bpm

private theorem admits_iff_noteValue {n : Int} :
    (Choice.numbers [4, 8, 16]).Admits (.number (.integer n)) ↔
      (NoteValue.ofDenominator? n).isSome :=
  admits_iff_find NoteValue.all NoteValue.denominator

theorem admits_iff_nibble {n : Int} :
    (Choice.between 0 15).Admits (.number (.integer n)) ↔ (Nibble.ofInt? n).isSome := by
  rw [Choice.Admits, Json.isBetween_integer, Nibble.ofInt?]
  split <;> simp <;> omega

theorem admits_iff_word {most : Nat} {n : Int} :
    (Choice.between 0 most).Admits (.number (.integer n)) ↔ (wordUpTo? most n).isSome := by
  rw [Choice.Admits, Json.isBetween_integer, wordUpTo?]
  split <;> simp <;> omega

private theorem admits_iff_octave {n : Int} :
    (Choice.between 2 5).Admits (.number (.integer n)) ↔ (Octave.ofInt? n).isSome := by
  rw [Choice.Admits, Json.isBetween_integer, Octave.ofInt?]
  split <;> simp <;> omega

/-! ### Steps -/

section

variable {d : Json} {c : Cursor} {o : Members}

/-- The octave of a step is read along the check that is made for its note. -/
theorem readOctave_follows (hhere : c.In d) {place : Json.Location} {note : Option PitchClass}
    (hstands : d.textAt? place = some (noteName note)) :
    Follows d (readOctave note c) [isExpected .integer c.location,
      ⟨c.location, .choice (.numbers [0]) .octaveOfRest, some (place, ["REST"])⟩,
      ⟨c.location, .choice (.between 2 5) .octaveOfPitch, some (place, Json.pitchClassNames)⟩] := by
  cases note with
  | none =>
    have hfollows : Follows d (readOctave none c)
        [isExpected .integer c.location, isChoice c.location (.numbers [0]) .octaveOfRest] := by
      refine Cursor.integerIn_follows hhere fun {n} => ?_
      by_cases hzero : n = 0 <;> simp [Choice.Admits, Json.IsOneOf, Json.ofNat, hzero]
    have hisRest : noteName none ∈ ["REST"] := by decide
    have hnotPitch : noteName none ∉ Json.pitchClassNames := by decide
    rw [Follows, hfollows]
    simp only [List.findSome?_cons, List.findSome?_nil, isChoice, Check.rejection?_always,
      Check.rejection?_only hstands, if_pos hisRest, if_neg hnotPitch]
  | some p =>
    have hfollows : Follows d (readOctave (some p) c)
        [isExpected .integer c.location, isChoice c.location (.between 2 5) .octaveOfPitch] :=
      Cursor.integerIn_follows hhere fun {n} => by rw [admits_iff_octave, Option.isSome_map]
    have hnotRest : noteName (some p) ∉ ["REST"] := by cases p <;> decide
    have hisPitch : noteName (some p) ∈ Json.pitchClassNames := by cases p <;> decide
    rw [Follows, hfollows]
    simp only [List.findSome?_cons, List.findSome?_nil, isChoice, Check.rejection?_always,
      Check.rejection?_only hstands, if_neg hnotRest, if_pos hisPitch]

/-- A step is read along its checks. -/
theorem readStep_follows (hhere : c.In d) : Follows d (readStep c) (stepChecks c.location) := by
  have hfollows : Follows d (readStep c) (isObject c.location ::
      (memberChecks c.location "note" .text (.names ("REST" :: Json.pitchClassNames))
          .unknownNote ++
        (octaveChecks c.location ++
          (memberChecks c.location "duration" .integer (.numbers [4, 8, 16]) .unknownNoteValue ++
            [])))) := by
    refine Cursor.object_follows hhere fun o hinside hlocation => ?_
    rw [← hlocation]
    refine Members.textIn_follows hinside mem_iff_isSome_note fun note s hstands hchosen => ?_
    refine Members.member_follows hinside fun octave hthere hplace => ?_
    rw [noteOfName?_eq_some.1 hchosen] at hstands
    rw [← hplace]
    refine (readOctave_follows hthere hstands).bind fun pitch? _ => ?_
    exact Members.integerIn_bind_follows hinside admits_iff_noteValue fun length => .ok
  simpa only [stepChecks, List.append_assoc, List.append_nil] using hfollows

/-- The items of an array in a document are in it, at the indices below their number. -/
theorem Cursor.items_in (hhere : c.In d) {expected : Expected} {cs : List Cursor}
    (hread : c.items expected = .ok cs) : (∀ item ∈ cs, item.In d) ∧
      cs.map Cursor.location = (List.range (d.itemCount c.location)).map c.location.item := by
  obtain ⟨items, hvalue, rfl⟩ := items_eq_ok.1 hread
  have harray : (d.at? c.location).bind Json.items? = some items := by
    rw [hhere, hvalue]
    rfl
  constructor
  · intro item hmem
    obtain ⟨i, hbound, rfl⟩ := List.mem_mapIdx.1 hmem
    rw [In, ← Json.Location.item, Json.at?_item, harray]
    exact List.getElem?_eq_getElem hbound
  · have hcount : d.itemCount c.location = items.length := by
      rw [Json.itemCount, hhere, hvalue]
      rfl
    rw [hcount]
    exact List.ext_getElem (by simp) (by simp [Json.Location.item])

theorem readSteps_follows (hhere : c.In d) : Follows d (readSteps c)
    (isExpected .steps c.location ::
      (List.range (d.itemCount c.location)).flatMap fun i => stepChecks (c.location.item i)) := by
  refine (Cursor.items_follows hhere rfl).cons fun cs hread => ?_
  obtain ⟨hinside, hlocations⟩ := Cursor.items_in hhere hread
  rw [← List.flatMap_map, ← hlocations, List.flatMap_map]
  exact Follows.mapM fun item hmem => readStep_follows (hinside item hmem)

private theorem size?_of_readSteps {steps : List Step} (hread : readSteps c = .ok steps) :
    c.value.size? = some steps.length := by
  obtain ⟨items, hvalue, hgiven⟩ := readSteps_eq_ok.1 hread
  rw [hvalue, ← hgiven.length_eq]
  rfl

/-- A list of steps whose number is judged in the end is read along its checks. -/
theorem stepList_follows (hhere : c.In d) {α : Type} {judge : List Step → Checked α}
    {least most : Nat} {w : Nat → Violation}
    (hjudged : ∀ steps, (judge steps).rejection? =
      if least ≤ steps.length ∧ steps.length ≤ most then none
      else some ⟨w steps.length, c.location⟩) :
    Follows d (readSteps c >>= judge) (stepListChecks d c.location least most w) := by
  refine (readSteps_follows hhere).bind fun steps hread => follows_always ?_
  rw [hjudged, Demand.violation?_size hhere (size?_of_readSteps hread)]
  split <;> rfl

theorem readFlat_follows (hhere : c.In d) :
    Follows d (readFlat c) (stepListChecks d c.location 64 192 .wrongPatternLength) :=
  stepList_follows hhere fun _ => apply_ite Checked.rejection? _ _ _

theorem readSection_follows (hinside : o.In d) {name : String} :
    Follows d (readSection o name) (sectionChecks d o.location name) := by
  refine Members.member_follows hinside fun c hhere hlocation => ?_
  rw [← hlocation]
  refine stepList_follows hhere fun steps => ?_
  rw [apply_ite Checked.rejection?]
  exact if_congr (by rw [Pattern.sectionSize]; omega) rfl rfl

theorem stepListChecks_pass {l : Json.Location} (habsent : d.at? l = none) {least most : Nat}
    {w : Nat → Violation} : ∀ c ∈ stepListChecks d l least most w, c.rejection? d = none := by
  simp [stepListChecks, isExpected, Check.rejection?_always, Demand.violation?, Json.itemCount,
    habsent]

theorem sectionListChecks_pass {l : Json.Location} (habsent : d.at? l = none) :
    ∀ c ∈ sectionListChecks d l, c.rejection? d = none := by
  have hobject : (isObject l).rejection? d = none := by
    simp [isObject, Check.rejection?_always, Demand.violation?, habsent]
  have hmembers (name : String) : ∀ c ∈ sectionChecks d l name, c.rejection? d = none := by
    have hinside : d.at? (l.child name) = none := by rw [Json.at?_child, habsent]; rfl
    have hrequired : (hasMember l name).rejection? d = none := by
      simp [hasMember, Check.rejection?_always, Demand.violation?, Json.Location.child, habsent]
    exact List.forall_mem_cons.2 ⟨hrequired, stepListChecks_pass hinside⟩
  refine List.forall_mem_cons.2 ⟨hobject, fun c hmem => ?_⟩
  obtain ⟨name, -, hmem⟩ := List.mem_flatMap.1 hmem
  exact hmembers name c hmem

theorem Members.optional_in (hinside : o.In d) {name : String} (hthere : o.optional name = some c) :
    c.In d ∧ c.location = o.location.child name := by
  obtain ⟨v, hfound, rfl⟩ := Option.map_eq_some_iff.1 hthere
  exact ⟨(at?_child hinside).trans hfound, rfl⟩

theorem Members.at?_child_eq_none (hinside : o.In d) {name : String}
    (habsent : o.optional name = none) : d.at? (o.location.child name) = none := by
  rw [at?_child hinside]
  exact Option.map_eq_none_iff.1 habsent

/-- Which members are there decides whether the shape is clear. -/
theorem rejection?_hasOneShape (hinside : o.In d) : (hasOneShape o.location).rejection? d =
    match (o.optional "pattern").isSome, (o.optional "patternSections").isSome with
    | true, true => some ⟨.twoPatterns, o.location⟩
    | false, false => some ⟨.noPattern, o.location⟩
    | _, _ => none := by
  have hthere (name : String) :
      (d.at? (o.location.child name)).isSome = (o.optional name).isSome := by
    rw [Members.at?_child hinside, Members.optional, Option.isSome_map]
  have hobject : (d.at? o.location).map Json.kind = some .object := congrArg _ hinside
  rw [hasOneShape, Check.rejection?_always, Demand.violation?, if_pos hobject, hthere, hthere]
  split <;> simp [*]

theorem readSections_follows (hhere : c.In d) :
    Follows d (do
      let o ← c.members
      return Pattern.sections (← readSection o "intro") (← readSection o "development")
        (← readSection o "cadence")) (sectionListChecks d c.location) := by
  refine Cursor.object_follows hhere fun o hinside hlocation => ?_
  rw [← hlocation, List.flatMap_cons, List.flatMap_cons, List.flatMap_cons]
  refine (readSection_follows hinside).bind fun intro _ => ?_
  refine (readSection_follows hinside).bind fun development _ => ?_
  exact (readSection_follows hinside).bind fun cadence _ => .ok

/-- A pattern is read along its checks. Those of the shape that is absent pass. -/
theorem readPattern_follows (hinside : o.In d) :
    Follows d (readPattern o) (patternChecks d o.location) := by
  have hshape := rejection?_hasOneShape hinside
  rw [readPattern, patternChecks]
  cases hflat : o.optional "pattern" with
  | none =>
    have hnoFlat := Members.at?_child_eq_none hinside hflat
    cases hparts : o.optional "patternSections" with
    | none => exact .fail (by rw [hshape, hflat, hparts]; rfl)
    | some c =>
      obtain ⟨hhere, hlocation⟩ := Members.optional_in hinside hparts
      refine .pass (by rw [hshape, hflat, hparts]; rfl) (.passing (stepListChecks_pass hnoFlat) ?_)
      rw [← hlocation]
      exact readSections_follows hhere
  | some c =>
    obtain ⟨hhere, hlocation⟩ := Members.optional_in hinside hflat
    cases hparts : o.optional "patternSections" with
    | none =>
      have hnoParts := Members.at?_child_eq_none hinside hparts
      refine .pass (by rw [hshape, hflat, hparts]; rfl)
        (.append_passing ?_ (sectionListChecks_pass hnoParts))
      rw [← hlocation]
      exact (readFlat_follows hhere).map
    | some c' => exact .fail (by rw [hshape, hflat, hparts]; rfl)

end

/-! ### Voices -/

section

variable {d : Json} {c : Cursor} {o : Members}

theorem readRole_follows (hhere : c.In d) : Follows d (readRole c) (roleChecks c.location) := by
  refine Cursor.object_follows hhere fun o hinside hlocation => ?_
  rw [← hlocation]
  refine Members.member_follows hinside fun c' hthere hplace => ?_
  rw [← hplace]
  exact Cursor.textIn_follows hthere (Named.mem_iff_isSome Role rfl)

theorem readEnvelope_follows (hhere : c.In d) :
    Follows d (readEnvelope c) (envelopeChecks c.location) := by
  refine Cursor.object_follows hhere fun o hinside hlocation => ?_
  have hstage (name : String) : Follows d
      (o.required name >>= fun c => c.integerIn Nibble.ofInt? .stageOutOfRange)
      (memberChecks o.location name .integer (.between 0 15) .stageOutOfRange) :=
    Members.integerIn_follows hinside admits_iff_nibble
  simp only [← hlocation, List.flatMap_cons, List.flatMap_nil]
  refine (hstage "attack").bind fun attack _ => ?_
  refine (hstage "decay").bind fun decay _ => ?_
  refine (hstage "sustain").bind fun sustain _ => ?_
  exact (hstage "release").bind fun release _ => .ok

theorem readFilter_follows (hhere : c.In d) :
    Follows d (readFilter c) (filterChecks c.location) := by
  refine Cursor.object_follows hhere fun o hinside hlocation => ?_
  rw [← hlocation, List.append_assoc]
  refine Members.textIn_follows hinside (Named.mem_iff_isSome FilterKind rfl) fun kind _ _ _ => ?_
  refine Members.integerIn_bind_follows hinside admits_iff_word fun cutoff => ?_
  rw [← List.append_nil (memberChecks ..)]
  exact Members.integerIn_bind_follows hinside admits_iff_nibble fun resonance => .ok

theorem rejection?_needsPulseWidth (hinside : o.In d) {w : Waveform}
    (hstands : d.textAt? (o.location.child "waveform") = some (Named.name w)) :
    (needsPulseWidth o.location).rejection? d =
      if w = .pulse ∧ o.optional "pulseWidth" = none
      then some ⟨.noPulseWidth, o.location.child "pulseWidth"⟩ else none := by
  have hpulse : Named.name w ∈ ["PULSE"] ↔ w = .pulse := by cases w <;> decide
  rw [needsPulseWidth, Check.rejection?_only hstands, Demand.violation?,
    Members.kind_parent hinside, Members.at?_child hinside]
  simp only [hpulse]
  by_cases hisPulse : w = .pulse <;> cases hmember : o.entries.lookup "pulseWidth" <;>
    simp [hisPulse, Members.optional, hmember]

theorem rejection?_wantsNoPulseWidth {l : Json.Location} {w w' : Waveform}
    (hstands : d.textAt? (l.child "waveform") = some (Named.name w)) :
    (wantsNoPulseWidth l w').rejection? d =
      if w = w' then (d.at? (l.child "pulseWidth")).map fun v =>
        ⟨.unwantedPulseWidth w' v, l.child "pulseWidth"⟩ else none := by
  have hsame : Named.name w ∈ [Named.name w'] ↔ w = w' := by cases w <;> cases w' <;> decide
  simp only [wantsNoPulseWidth, Check.rejection?_only hstands, hsame, Demand.violation?,
    Option.map_map, Function.comp_def]

/-- The pulse width of a voice is read along the checks that are made for its waveform. -/
theorem readPulseWidth_follows (hinside : o.In d) {w : Waveform}
    (hstands : d.textAt? (o.location.child "waveform") = some (Named.name w)) :
    Follows d (readPulseWidth o w) (pulseWidthChecks o.location) := by
  have hneeded := rejection?_needsPulseWidth hinside hstands
  have hunwanted (w' : Waveform) : (wantsNoPulseWidth o.location w').rejection? d =
      if w = w' then (d.at? (o.location.child "pulseWidth")).map fun v =>
        ⟨.unwantedPulseWidth w' v, o.location.child "pulseWidth"⟩ else none :=
    rejection?_wantsNoPulseWidth hstands
  rw [readPulseWidth]
  cases hwidth : o.optional "pulseWidth" with
  | none =>
    rw [Members.at?_child_eq_none hinside hwidth] at hunwanted
    by_cases hpulse : w = .pulse
    · rw [if_pos hpulse]
      exact .fail (hneeded.trans (if_pos ⟨hpulse, hwidth⟩))
    · have hpassed : ∀ c ∈ pulseWidthChecks o.location, c.rejection? d = none := by
        simp [pulseWidthChecks, hneeded, hunwanted, hpulse, isExpected, isChoice,
          Check.rejection?_always, Demand.violation?, Members.at?_child_eq_none hinside hwidth]
      rw [if_neg hpulse]
      exact Follows.ok.append_passing hpassed
  | some c =>
    obtain ⟨hhere, hlocation⟩ := Members.optional_in hinside hwidth
    rw [← hlocation, hhere] at hunwanted
    refine .pass (by rw [hneeded, hwidth]; simp) ?_
    by_cases hpulse : w = .pulse
    · simp only [if_pos hpulse, ← hlocation]
      refine .passing ?_ (Cursor.integerIn_follows hhere admits_iff_word).map
      simp [hunwanted, hpulse]
    · -- A width that is unwanted is reported for the waveform at hand, past the checks before it.
      rw [if_neg hpulse]
      cases w with
      | triangle => exact .fail (hunwanted .triangle)
      | sawtooth => exact .pass (hunwanted .triangle) (.fail (hunwanted .sawtooth))
      | pulse => exact absurd rfl hpulse
      | noise =>
        exact .pass (hunwanted .triangle) (.pass (hunwanted .sawtooth) (.fail (hunwanted .noise)))

/-- What a voice holds besides its role is read along its checks. -/
theorem readVoice_follows (hhere : c.In d) (hobject : ∃ entries, c.value = .object entries)
    {role : Role} : Follows d (readVoice role c) (voiceChecks d c.location) := by
  obtain ⟨entries, hvalue⟩ := hobject
  have hread : c.members = .ok ⟨entries, c.location⟩ :=
    Cursor.members_eq_ok.2 ⟨entries, hvalue, rfl⟩
  obtain ⟨hinside, -⟩ := Cursor.members_in hhere hread
  rw [readVoice, hread]
  simp only [voiceChecks, List.append_assoc]
  refine Members.textIn_follows hinside (Named.mem_iff_isSome Waveform rfl)
    fun waveform name hstands hchosen => ?_
  rw [Named.ofName?_eq_some.1 hchosen] at hstands
  refine Members.member_follows hinside fun adsr hhere' hlocation => ?_
  rw [← hlocation]
  refine (readEnvelope_follows hhere').bind fun envelope _ => ?_
  refine (readPulseWidth_follows hinside hstands).bind fun pulseWidth _ => ?_
  refine Members.member_follows hinside fun filter hhere' hlocation => ?_
  rw [← hlocation]
  refine (readFilter_follows hhere').bind fun wish _ => ?_
  exact (readPattern_follows hinside).bind_pure

private theorem Cursor.size?_of_items {expected : Expected} {cs : List Cursor}
    (hread : c.items expected = .ok cs) : c.value.size? = some cs.length := by
  obtain ⟨items, hvalue, rfl⟩ := items_eq_ok.1 hread
  rw [hvalue, List.length_mapIdx]
  rfl

/-- A voice whose role has been read is an object, and its role stands at its place. -/
theorem role_stands (hhere : c.In d) {role : Role} (hread : readRole c = .ok role) :
    (∃ entries, c.value = .object entries) ∧
      d.textAt? (c.location.child "role") = some (Named.name role) := by
  have hmember := readRole_eq_ok.1 hread
  obtain ⟨entries, hvalue, -⟩ := Json.member?_eq_some.1 hmember
  refine ⟨⟨entries, hvalue⟩, ?_⟩
  rw [Json.textAt?, Json.at?_child, hhere, Option.bind_some, hmember]
  rfl

/-- The first role that is not among those played is reported. -/
theorem findSome?_isPlayed {l : Json.Location} (harray : (d.at? l).map Json.kind = some .array)
    {played : List Role} (hstand : ([0, 1, 2].map fun i => d.textAt? ((l.item i).child "role")) =
      played.map fun role => some (Named.name role)) (roles : List Role) :
    (roles.map (isPlayed l)).findSome? (·.rejection? d) =
      (roles.find? fun role => role ∉ played).map fun role => ⟨.unplayedRole role, l⟩ := by
  have heach (role : Role) : (isPlayed l role).rejection? d =
      if role ∈ played then none else some ⟨.unplayedRole role, l⟩ := by
    have hapart (a : Role) : Named.name role = Named.name a ↔ role = a := by
      cases role <;> cases a <;> decide
    have hheld : (∃ place ∈ [0, 1, 2].map fun i => (l.item i).child "role",
        d.textAt? place = some (Named.name role)) ↔ role ∈ played := by
      calc _ ↔ some (Named.name role) ∈
            [0, 1, 2].map fun i => d.textAt? ((l.item i).child "role") := by simp [eq_comm]
        _ ↔ role ∈ played := by simp [hstand, hapart, eq_comm]
    rw [isPlayed, Check.rejection?_always, Demand.violation?]
    simp only [hheld, harray, true_and]
    by_cases hmem : role ∈ played <;> simp [hmem]
  induction roles with
  | nil => rfl
  | cons role roles ih =>
    rw [List.map_cons, List.findSome?_cons, heach, List.find?_cons, ih]
    by_cases hmem : role ∈ played <;> simp [hmem]

theorem readVoices_follows (hhere : c.In d) :
    Follows d (readVoices c) (voicesChecks d c.location) := by
  refine (Cursor.items_follows hhere rfl).cons fun cs hread => ?_
  have hcounted : (hasThree c.location).rejection? d =
      if 3 ≤ cs.length ∧ cs.length ≤ 3 then none
      else some ⟨.wrongVoiceCount cs.length, c.location⟩ := by
    rw [hasThree, Check.rejection?_always,
      Demand.violation?_size hhere (Cursor.size?_of_items hread)]
    split <;> rfl
  have harray : (d.at? c.location).map Json.kind = some .array := by
    obtain ⟨items, hvalue, -⟩ := Cursor.items_eq_ok.1 hread
    rw [hhere, hvalue]
    rfl
  obtain ⟨hinside, hlocations⟩ := Cursor.items_in hhere hread
  rcases cs with _ | ⟨v₁, _ | ⟨v₂, _ | ⟨v₃, _ | ⟨v₄, more⟩⟩⟩⟩
  case cons.cons.cons.nil =>
    refine .pass hcounted ?_
    have hcount : d.itemCount c.location = 3 := by
      simpa using (congrArg List.length hlocations).symm
    rw [hcount] at hlocations
    replace hlocations : [v₁.location, v₂.location, v₃.location] =
        [c.location.item 0, c.location.item 1, c.location.item 2] := hlocations
    simp only [List.cons.injEq] at hlocations
    obtain ⟨hat₁, hat₂, hat₃, -⟩ := hlocations
    simp only [List.forall_mem_cons] at hinside
    obtain ⟨hhere₁, hhere₂, hhere₃, -⟩ := hinside
    simp only [List.flatMap_cons, List.flatMap_nil, List.append_assoc, List.nil_append,
      ← hat₁, ← hat₂, ← hat₃]
    -- All three roles are read, and compared with those to be played, before the first voice.
    refine (readRole_follows hhere₁).bind fun role₁ hread₁ => ?_
    refine (readRole_follows hhere₂).bind fun role₂ hread₂ => ?_
    refine (readRole_follows hhere₃).bind fun role₃ hread₃ => ?_
    obtain ⟨hobject₁, hstands₁⟩ := role_stands hhere₁ hread₁
    obtain ⟨hobject₂, hstands₂⟩ := role_stands hhere₂ hread₂
    obtain ⟨hobject₃, hstands₃⟩ := role_stands hhere₃ hread₃
    have hstand : ([0, 1, 2].map fun i => d.textAt? ((c.location.item i).child "role")) =
        [role₁, role₂, role₃].map fun role => some (Named.name role) := by
      simp [← hat₁, ← hat₂, ← hat₃, hstands₁, hstands₂, hstands₃]
    have hfirst : ([Role.lead, .bass, .arpOrDrums].map (isPlayed c.location)).findSome?
        (·.rejection? d) = ((Named.all : List Role).find?
          fun role => role ∉ (Trio.mk role₁ role₂ role₃).toList).map
            (⟨.unplayedRole ·, c.location⟩) := findSome?_isPlayed harray hstand _
    cases hunplayed : (Named.all : List Role).find?
        fun role => role ∉ (Trio.mk role₁ role₂ role₃).toList with
    | some role => exact .fail_append (by rw [hfirst, hunplayed]; rfl)
    | none =>
      rw [hunplayed] at hfirst
      refine .passing (List.findSome?_eq_none_iff.1 hfirst) ?_
      refine (readVoice_follows hhere₁ hobject₁).bind fun voice₁ _ => ?_
      refine (readVoice_follows hhere₂ hobject₂).bind fun voice₂ _ => ?_
      rw [List.append_nil]
      exact (readVoice_follows hhere₃ hobject₃).bind_pure
  all_goals
    rw [if_neg (by simp only [List.length_cons, List.length_nil]; omega)] at hcounted
    exact .fail hcounted

end

/-! ### Songs -/

section

variable {d : Json} {root : Members}

/-- A text that may be absent is read along the check of its type. -/
theorem readMetadata_follows (hinside : root.In d) {name : String} :
    Follows d (readMetadata root name) [isExpected .text (root.location.child name)] := by
  rw [readMetadata]
  cases hmember : root.optional name with
  | none =>
    refine Follows.ok.append_passing ?_
    simp [isExpected, Check.rejection?_always, Demand.violation?,
      Members.at?_child_eq_none hinside hmember]
  | some c =>
    obtain ⟨hhere, hlocation⟩ := Members.optional_in hinside hmember
    rw [← hlocation]
    exact Cursor.text_follows hhere

/-- A document is read along its checks. -/
theorem Song.ofJson_follows (d : Json) : Follows d (Song.ofJson d) (songChecks d) := by
  have hhere : Cursor.In d ⟨d, []⟩ := rfl
  refine Cursor.object_follows hhere fun root hinside hlocation => ?_
  obtain ⟨entries, l⟩ := root
  obtain rfl : l = [] := hlocation
  simp only [List.append_assoc]
  refine Members.integerIn_bind_follows hinside admits_iff_tempo fun tempo => ?_
  refine Members.textIn_follows hinside (Named.mem_iff_isSome PitchClass rfl) fun key _ _ _ => ?_
  refine Members.textIn_follows hinside (Named.mem_iff_isSome Scale rfl) fun scale _ _ _ => ?_
  refine Members.member_follows hinside fun c hhere hlocation => ?_
  rw [← hlocation]
  refine (readVoices_follows hhere).bind fun voices _ => ?_
  refine (readMetadata_follows hinside).cons fun title _ => ?_
  refine (readMetadata_follows hinside).cons fun author _ => ?_
  exact (readMetadata_follows hinside).cons fun released _ => .ok

end

end SidTune
