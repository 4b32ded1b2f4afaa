import SidTune.Proofs.Json.RoundTrip
import SidTune.Proofs.Song.Given
import SidTune.Song.Document

/-!
# Songs written and read back

The document of a song gives the song and nothing else, whether the song is well formed or not. So
its text is read back as the song if the song is well formed, and is rejected for breaking a rule
if it is not. What is read from any text is well formed, so reading back what was read changes
nothing.

## Main results

* `SidTune.Song.givenBy_toJson`: the document of a song gives the song.
* `SidTune.Song.GivenBy.unique`: a document gives at most one song.
* `SidTune.Song.text_round_trip`: songs that are read back from their text are the well-formed ones.
-/

namespace SidTune

open Json

/-! ### The document of a song gives the song -/

@[simp] theorem Json.ordered_string (s : String) : (string s).ordered = string s := by
  rw [ordered]

@[simp] theorem Json.ordered_ofNat (n : Nat) : (ofNat n).ordered = ofNat n := by
  rw [ofNat, ordered]

@[simp] theorem Json.ordered_toJson {α : Type} [Named α] (a : α) :
    (Named.toJson a).ordered = Named.toJson a :=
  ordered_string _

@[simp] theorem Json.ordered_array (items : List Json) :
    (array items).ordered = array (items.map ordered) := by
  rw [ordered, orderedItems_eq_map]

/-- The document of a step gives the step. -/
theorem Step.givenBy_toJson (s : Step) : s.GivenBy s.toJson.ordered := by
  obtain ⟨pitch?, length⟩ := s
  cases pitch? <;> constructor <;>
    simp [Step.toJson, member?_ordered_object, List.lookup_cons, noteName, octaveNumber]

theorem stepsGivenBy_stepsJson (steps : List Step) :
    StepsGivenBy steps (stepsJson steps).ordered := by
  refine ⟨steps.map fun s => s.toJson.ordered, by simp [stepsJson, Function.comp_def], ?_⟩
  rw [List.forall₂_map_left_iff, List.forall₂_same]
  exact fun s _ => s.givenBy_toJson

theorem Envelope.givenBy_toJson (e : Envelope) : e.GivenBy e.toJson.ordered := by
  constructor <;> simp [Envelope.toJson, member?_ordered_object, List.lookup_cons]

theorem FilterWish.givenBy_toJson (w : FilterWish) : w.GivenBy w.toJson.ordered := by
  constructor <;> simp [FilterWish.toJson, member?_ordered_object, List.lookup_cons]

/-- The document of a voice gives the voice. -/
theorem Voice.givenBy_toJson (v : Voice) : v.GivenBy v.toJson.ordered := by
  obtain ⟨role, waveform, envelope, pulseWidth, filter, pattern⟩ := v
  cases pulseWidth <;> cases pattern <;> constructor <;>
    simp [Voice.toJson, Pattern.members, member?_ordered_object, List.lookup_cons, Pattern.GivenBy,
      envelope.givenBy_toJson, filter.givenBy_toJson, stepsGivenBy_stepsJson]

theorem voicesGivenBy_toJson (voices : Trio Voice) :
    VoicesGivenBy voices (array (voices.toList.map Voice.toJson)).ordered := by
  refine ⟨voices.toList.map fun v => v.toJson.ordered, by simp [Function.comp_def], ?_⟩
  rw [List.forall₂_map_left_iff, List.forall₂_same]
  exact fun v _ => v.givenBy_toJson

/-- The document of a song gives the song. -/
theorem Song.givenBy_toJson (s : Song) : s.GivenBy s.toJson.ordered := by
  have hvoices := voicesGivenBy_toJson s.voices
  rw [ordered_array, List.map_map] at hvoices
  constructor <;> simp [Song.toJson, member?_ordered_object, List.lookup_cons, TextGivenBy, hvoices]

/-! ### A document gives at most one song -/

theorem Json.ofNat_inj {m n : Nat} : ofNat m = ofNat n ↔ m = n := by
  simp [ofNat]

theorem Named.toJson_inj {α : Type} [Named α] [LawfulNamed α] {a b : α} :
    toJson a = toJson b ↔ a = b := by
  rw [toJson, toJson, Json.string.injEq, ← ofName?_eq_some, LawfulNamed.ofName?_name,
    Option.some_inj]

theorem named_unique {α : Type} [Named α] [LawfulNamed α] {o : Option Json} {a b : α}
    (ha : o = some (Named.toJson a)) (hb : o = some (Named.toJson b)) : a = b :=
  Named.toJson_inj.1 (Option.some.inj (ha.symm.trans hb))

theorem number_unique {o : Option Json} {m n : Nat} (hm : o = some (ofNat m))
    (hn : o = some (ofNat n)) : m = n :=
  ofNat_inj.1 (Option.some.inj (hm.symm.trans hn))

theorem member_unique {α : Type} {R : α → Json → Prop} {o : Option Json} {a b : α}
    (hunique : ∀ {v}, R a v → R b v → a = b) (ha : ∃ v, o = some v ∧ R a v)
    (hb : ∃ v, o = some v ∧ R b v) : a = b := by
  obtain ⟨v, hv, ha⟩ := ha
  obtain ⟨w, hw, hb⟩ := hb
  obtain rfl := Option.some.inj (hv.symm.trans hw)
  exact hunique ha hb

theorem Step.GivenBy.unique {s t : Step} {v : Json} (hs : s.GivenBy v) (ht : t.GivenBy v) :
    s = t := by
  have hread {s : Step} := readStep_eq_ok (c := ⟨v, []⟩) (s := s)
  exact Except.ok.inj ((hread.2 hs).symm.trans (hread.2 ht))

theorem StepsGivenBy.unique {s t : List Step} {v : Json} (hs : StepsGivenBy s v)
    (ht : StepsGivenBy t v) : s = t := by
  obtain ⟨items, rfl, hs⟩ := hs
  obtain ⟨_, hsame, ht⟩ := ht
  cases hsame
  have hfunctional : Relator.RightUnique fun item (s : Step) => s.GivenBy item :=
    fun _ _ _ => Step.GivenBy.unique
  exact List.right_unique_forall₂' hfunctional hs ht

theorem Envelope.GivenBy.unique {e f : Envelope} {v : Json} (he : e.GivenBy v) (hf : f.GivenBy v) :
    e = f := by
  obtain ⟨attack, decay, sustain, release⟩ := e
  obtain ⟨attack', decay', sustain', release'⟩ := f
  rw [Envelope.mk.injEq]
  exact ⟨Fin.ext (number_unique he.attack hf.attack), Fin.ext (number_unique he.decay hf.decay),
    Fin.ext (number_unique he.sustain hf.sustain), Fin.ext (number_unique he.release hf.release)⟩

theorem FilterWish.GivenBy.unique {w x : FilterWish} {v : Json} (hw : w.GivenBy v)
    (hx : x.GivenBy v) : w = x := by
  obtain ⟨kind, cutoff, resonance⟩ := w
  obtain ⟨kind', cutoff', resonance'⟩ := x
  rw [FilterWish.mk.injEq]
  exact ⟨named_unique hw.kind hx.kind, UInt16.toNat_inj.1 (number_unique hw.cutoff hx.cutoff),
    Fin.ext (number_unique hw.resonance hx.resonance)⟩

theorem Pattern.GivenBy.unique {p q : Pattern} {v : Json} (hp : p.GivenBy v) (hq : q.GivenBy v) :
    p = q := by
  cases p with
  | flat steps =>
    obtain ⟨hp, habsent⟩ := hp
    cases q with
    | flat steps' => exact congrArg Pattern.flat (member_unique StepsGivenBy.unique hp hq.1)
    | sections =>
      obtain ⟨-, _, hfound, -⟩ := hq
      cases habsent.symm.trans hfound
  | sections intro development cadence =>
    obtain ⟨-, c, hfound, hi, hd, hc⟩ := hp
    cases q with
    | flat steps' => cases hq.2.symm.trans hfound
    | sections intro' development' cadence' =>
      obtain ⟨-, c', hfound', hi', hd', hc'⟩ := hq
      obtain rfl := Option.some.inj (hfound.symm.trans hfound')
      rw [member_unique StepsGivenBy.unique hi hi', member_unique StepsGivenBy.unique hd hd',
        member_unique StepsGivenBy.unique hc hc']

theorem width_unique {o : Option Json} {w x : Option UInt16}
    (hw : o = w.map fun w => ofNat w.toNat) (hx : o = x.map fun w => ofNat w.toNat) : w = x := by
  have hsame := hw.symm.trans hx
  cases w <;> cases x <;> simp_all [ofNat_inj, UInt16.toNat_inj]

theorem Voice.GivenBy.unique {a b : Voice} {v : Json} (ha : a.GivenBy v) (hb : b.GivenBy v) :
    a = b := by
  obtain ⟨role, waveform, envelope, pulseWidth, filter, pattern⟩ := a
  obtain ⟨role', waveform', envelope', pulseWidth', filter', pattern'⟩ := b
  rw [Voice.mk.injEq]
  exact ⟨named_unique ha.role hb.role, named_unique ha.waveform hb.waveform,
    member_unique Envelope.GivenBy.unique ha.envelope hb.envelope,
    width_unique ha.pulseWidth hb.pulseWidth,
    member_unique FilterWish.GivenBy.unique ha.filter hb.filter, ha.pattern.unique hb.pattern⟩

theorem VoicesGivenBy.unique {a b : Trio Voice} {v : Json} (ha : VoicesGivenBy a v)
    (hb : VoicesGivenBy b v) : a = b := by
  obtain ⟨items, rfl, ha⟩ := ha
  obtain ⟨_, hsame, hb⟩ := hb
  cases hsame
  have hfunctional : Relator.RightUnique fun item (voice : Voice) => voice.GivenBy item :=
    fun _ _ _ => Voice.GivenBy.unique
  have hlists := List.right_unique_forall₂' hfunctional ha hb
  obtain ⟨a₁, a₂, a₃⟩ := a
  obtain ⟨b₁, b₂, b₃⟩ := b
  simpa [Trio.toList] using hlists

theorem TextGivenBy.unique {document : Json} {name s t : String} (hs : TextGivenBy document name s)
    (ht : TextGivenBy document name t) : s = t := by
  rcases hs with hs | ⟨hs, rfl⟩ <;> rcases ht with ht | ⟨ht, rfl⟩ <;> simp_all

theorem Tempo.bpm_inj {s t : Tempo} : s.bpm = t.bpm ↔ s = t := by
  cases s <;> cases t <;> decide

/-- A document gives at most one song. -/
theorem Song.GivenBy.unique {s t : Song} {document : Json} (hs : s.GivenBy document)
    (ht : t.GivenBy document) : s = t := by
  obtain ⟨tempo, key, scale, voices, title, author, released⟩ := s
  obtain ⟨tempo', key', scale', voices', title', author', released'⟩ := t
  rw [Song.mk.injEq]
  exact ⟨Tempo.bpm_inj.1 (number_unique hs.tempo ht.tempo), named_unique hs.key ht.key,
    named_unique hs.scale ht.scale, member_unique VoicesGivenBy.unique hs.voices ht.voices,
    hs.title.unique ht.title, hs.author.unique ht.author, hs.released.unique ht.released⟩

/-! ### Texts -/

section Plain

variable {room : Nat}

theorem Json.Plain.ofNat {n : Nat} (hsmall : n < 0x10000000000000000) : (ofNat n).Plain room :=
  .integer (by omega) (by omega)

theorem Json.Plain.toJson {α : Type} [Named α] (a : α) : (Named.toJson a).Plain room :=
  .string _

theorem Step.plain_toJson (s : Step) : s.toJson.Plain (room + 1) := by
  obtain ⟨pitch?, length⟩ := s
  have hduration : length.denominator < 0x10000000000000000 := by cases length <;> decide
  cases pitch? with
  | none => exact .object (by simp [Plain.string, Plain.ofNat, hduration])
  | some p =>
    have := p.octave.le_five
    have hoctave : p.octave.number < 0x10000000000000000 := by omega
    exact .object (by simp [Plain.string, Plain.ofNat, hoctave, hduration])

private theorem plain_stepsJson (steps : List Step) : (stepsJson steps).Plain (room + 2) := by
  refine .array fun item hmem => ?_
  obtain ⟨s, -, rfl⟩ := List.mem_map.1 hmem
  exact s.plain_toJson

theorem Envelope.plain_toJson (e : Envelope) : e.toJson.Plain (room + 1) := by
  have hsmall (n : Nibble) : (ofNat n).Plain room := .ofNat (by omega)
  exact .object (by simp [hsmall])

theorem FilterWish.plain_toJson (w : FilterWish) : w.toJson.Plain (room + 1) := by
  have hcutoff : (ofNat w.cutoff.toNat).Plain room := .ofNat (by have := w.cutoff.toNat_lt; omega)
  have hresonance : (ofNat w.resonance).Plain room := .ofNat (by omega)
  exact .object (by simp [Plain.toJson, hcutoff, hresonance])

/-- The document of a voice nests its pattern three deep. -/
theorem Pattern.plain_members {p : Pattern} {m : String × Json} (hmem : m ∈ p.members) :
    m.2.Plain (room + 3) := by
  cases p with
  | flat steps =>
    obtain rfl := List.mem_singleton.1 hmem
    exact plain_stepsJson steps
  | sections intro development cadence =>
    obtain rfl := List.mem_singleton.1 hmem
    exact .object (by simp [plain_stepsJson])

theorem Voice.plain_toJson (v : Voice) : v.toJson.Plain (room + 4) := by
  have hwidth (w : UInt16) : (ofNat w.toNat).Plain (room + 3) :=
    .ofNat (by have := w.toNat_lt; omega)
  refine .object fun m hmem => ?_
  simp only [List.mem_append, List.mem_cons, List.not_mem_nil, or_false, Option.mem_toList,
    Option.map_eq_some_iff] at hmem
  rcases hmem with ((rfl | rfl | rfl) | ⟨w, -, rfl⟩) | rfl | hmem
  · exact .toJson _
  · exact .toJson _
  · exact v.envelope.plain_toJson
  · exact hwidth w
  · exact v.filter.plain_toJson
  · exact Pattern.plain_members hmem

/-- The document of a song is nested six deep. -/
theorem Song.plain_toJson (s : Song) (room : Nat) : s.toJson.Plain (room + 6) := by
  have htempo : s.tempo.bpm < 0x10000000000000000 := by cases s.tempo <;> decide
  have hvoices : (array (s.voices.toList.map Voice.toJson)).Plain (room + 5) := by
    refine .array fun item hmem => ?_
    obtain ⟨v, -, rfl⟩ := List.mem_map.1 hmem
    exact v.plain_toJson
  exact .object (by simp [Plain.toJson, Plain.string, Plain.ofNat, htempo, hvoices])

end Plain

namespace Song

/-- The text of a song is the text of its document, with the members in the order of their names. -/
theorem parse_text (s : Song) : Json.parse s.text = .ok s.toJson.ordered :=
  parse_compact (s.plain_toJson 121)

/-- A text is read as a song exactly if it is JSON whose value gives the song, and the song is well
formed. -/
theorem parse_eq_ok {text : String} {s : Song} : Song.parse text = .ok s ↔
    ∃ document, Json.parse text = .ok document ∧ s.GivenBy document ∧ s.WellFormed := by
  simp only [Song.parse, ← ofJson_eq_ok]
  cases Json.parse text with
  | error problem => simp
  | ok document => cases h : Song.ofJson document <;> simp [h]

theorem WellFormed.parse_text {s : Song} (hwell : s.WellFormed) : Song.parse s.text = .ok s :=
  parse_eq_ok.2 ⟨_, s.parse_text, s.givenBy_toJson, hwell⟩

theorem eq_of_parse_text {s t : Song} (hread : Song.parse s.text = .ok t) :
    t = s ∧ s.WellFormed := by
  obtain ⟨document, hjson, hgiven, hwell⟩ := parse_eq_ok.1 hread
  obtain rfl := Except.ok.inj (s.parse_text.symm.trans hjson)
  obtain rfl := hgiven.unique s.givenBy_toJson
  exact ⟨rfl, hwell⟩

/-- The text of a song is JSON, so it is rejected only for breaking a rule. -/
theorem exists_rejection {s : Song} (hill : ¬s.WellFormed) :
    ∃ rejection, Song.parse s.text = .error (.rejected rejection) := by
  have hjson := s.parse_text
  cases hread : Song.ofJson s.toJson.ordered with
  | error rejection => exact ⟨rejection, by rw [Song.parse, hjson]; simp only [hread]⟩
  | ok t =>
    have hparsed : Song.parse s.text = .ok t := by rw [Song.parse, hjson]; simp only [hread]
    exact absurd (eq_of_parse_text hparsed).2 hill

/-- A song is read back from its text exactly if it is well formed, and its text is rejected for
breaking a rule exactly if it is not. Whatever is read from a text is well formed and is read back
from its own text, so that text is left as it is by reading and writing it. -/
theorem text_round_trip :
    (∀ s : Song, (Song.parse s.text = .ok s ↔ s.WellFormed) ∧
      ((∃ rejection, Song.parse s.text = .error (.rejected rejection)) ↔ ¬s.WellFormed)) ∧
    ∀ (text : String) (s : Song), Song.parse text = .ok s →
      s.WellFormed ∧ Song.parse s.text = .ok s ∧
        (Song.parse s.text).map Song.text = .ok s.text := by
  refine ⟨fun s => ⟨⟨fun hread => (eq_of_parse_text hread).2, WellFormed.parse_text⟩, ?_,
    exists_rejection⟩, fun text s hread => ?_⟩
  · rintro ⟨rejection, hrejected⟩ hwell
    cases hrejected.symm.trans hwell.parse_text
  · obtain ⟨_, -, -, hwell⟩ := parse_eq_ok.1 hread
    exact ⟨hwell, hwell.parse_text, by rw [hwell.parse_text]; rfl⟩

/-- A song with its lead alone three times breaks a rule, and the text of the one that obeys them is
read back. -/
theorem text_round_trip_sampleSong :
    (Song.parse sampleSong.text = .ok sampleSong ∧
      (Song.parse sampleSong.text).map Song.text = .ok sampleSong.text) ∧
    ∃ rejection, Song.parse { sampleSong with
      voices := ⟨sampleSong.voices.first, sampleSong.voices.first, sampleSong.voices.first⟩ }.text =
        .error (.rejected rejection) := by
  have hwell : sampleSong.WellFormed := wellFormed_of_ofJson ofJson_sampleSong
  have hread := (text_round_trip.1 sampleSong).1.2 hwell
  refine ⟨⟨hread, (text_round_trip.2 _ _ hread).2.2⟩, (text_round_trip.1 _).2.2 fun hwell => ?_⟩
  exact absurd (hwell.roles .bass) (by decide)

end Song

end SidTune
