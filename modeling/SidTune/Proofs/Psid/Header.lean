import Mathlib.Data.List.Basic
import SidTune.Psid.File

/-!
# Reading a header back

The numbers of a header are read back from its bytes, whatever follows them. A text is written with
one printable byte for each of its first 32 characters, and zero bytes after them. No character is
written as a zero byte, so the text that is read back ends where it was padded or cut, and nowhere
before. It takes its own 32 bytes and leaves the others as they are.

## Main definitions

* `SidTune.Psid.Header.textsRead`: the texts that are read from the bytes of a header.
* `SidTune.Psid.shown`, `SidTune.Psid.Metadata.shown`: texts as they are read back.
* `SidTune.Psid.IsShowable`: texts that are read back as they are.
* `SidTune.Psid.SameOutside`: byte strings that differ in one field at most.

## Main results

* `SidTune.Psid.Header.decode_encode`: a file that starts with the bytes of a header is read as that
  header, with the texts of its fields.
* `SidTune.Psid.textAt_append`: the text that is read where a text was written.
* `SidTune.Psid.shown_eq_self_iff`: the texts that are read back as they are.
* `SidTune.Psid.header_round_trip`: what is read back from the bytes of a header.
-/

namespace SidTune.Psid.Header

variable (h : Header) (rest : Bytes)

private theorem encode_append : h.encode ++ rest =
    (0x50 : UInt8) :: 0x53 :: 0x49 :: 0x44 ::
      (version >>> 8).toUInt8 :: version.toUInt8 ::
      (headerSize >>> 8).toUInt8 :: headerSize.toUInt8 ::
      (h.loadAddress >>> 8).toUInt8 :: h.loadAddress.toUInt8 ::
      (h.initAddress >>> 8).toUInt8 :: h.initAddress.toUInt8 ::
      (h.playAddress >>> 8).toUInt8 :: h.playAddress.toUInt8 ::
      (h.songs >>> 8).toUInt8 :: h.songs.toUInt8 ::
      (h.startSong >>> 8).toUInt8 :: h.startSong.toUInt8 ::
      (h.speed >>> 24).toUInt8 :: (h.speed >>> 16).toUInt8 :: (h.speed >>> 8).toUInt8 ::
        h.speed.toUInt8 ::
      (encodeText h.metadata.title ++ (encodeText h.metadata.author ++
        (encodeText h.metadata.released ++ rest))) := by
  simp only [encode, List.append_assoc]
  rfl

/-- The texts that are read from the bytes of a header. -/
def textsRead : Metadata :=
  ⟨textAt h.encode 22, textAt h.encode 54, textAt h.encode 86⟩

private theorem textAt_encode_append {i : Nat} (hinside : i + textWidth ≤ headerSize.toNat) :
    textAt (h.encode ++ rest) i = textAt h.encode i := by
  have hlength := h.length_encode
  rw [textAt, textAt, List.drop_append_of_le_length (by omega),
    List.take_append_of_le_length (by rw [List.length_drop]; omega)]

/-- A file that starts with the bytes of a header is read as that header, with the texts of its
fields. -/
theorem decode_encode :
    decode (h.encode ++ rest) = .ok { h with metadata := h.textsRead } := by
  have hlength : headerSize.toNat ≤ (h.encode ++ rest).length := by
    rw [List.length_append, h.length_encode]
    omega
  have hsize : headerSize.toNat = 118 := rfl
  have hmagic_eq : (h.encode ++ rest).take 4 = magic := by
    rw [encode_append]
    rfl
  have hword {i : Nat} (w : UInt16) (hhigh : byteAt (h.encode ++ rest) i = (w >>> 8).toUInt8)
      (hlow : byteAt (h.encode ++ rest) (i + 1) = w.toUInt8) : wordAt (h.encode ++ rest) i = w := by
    rw [wordAt, hhigh, hlow, wordOf_bytes]
  have hspeed : doubleWordAt (h.encode ++ rest) 18 = h.speed := by
    rw [encode_append]
    exact doubleWordOf_bytes h.speed
  have hversion_eq : wordAt (h.encode ++ rest) 4 = version := hword version ?_ ?_
  have hoffset_eq : wordAt (h.encode ++ rest) 6 = headerSize := hword headerSize ?_ ?_
  rw [decode, if_neg (by omega), if_neg (not_not_intro hmagic_eq), if_neg (by omega),
    if_neg (not_or_intro (not_not_intro hversion_eq) (not_not_intro hoffset_eq)),
    if_neg (by omega), hspeed, hword (i := 8) h.loadAddress, hword (i := 10) h.initAddress,
    hword (i := 12) h.playAddress, hword (i := 14) h.songs, hword (i := 16) h.startSong,
    textAt_encode_append h rest (by decide), textAt_encode_append h rest (by decide),
    textAt_encode_append h rest (by decide), textsRead]
  all_goals
    rw [encode_append]
    rfl

end SidTune.Psid.Header

namespace SidTune.Psid

/-! ### Texts as they are read back -/

/-- A character of printable ASCII. -/
def IsPrintable (c : Char) : Prop :=
  0x20 ≤ c.toNat ∧ c.toNat ≤ 0x7E

instance : DecidablePred IsPrintable :=
  fun c => inferInstanceAs (Decidable (0x20 ≤ c.toNat ∧ c.toNat ≤ 0x7E))

/-- A character as it is read back: a question mark if it is not printable ASCII. -/
def shownChar (c : Char) : Char :=
  if IsPrintable c then c else '?'

/-- A text as it is read back: its first 32 characters. -/
def shown (text : String) : String :=
  String.ofList ((text.toList.take 32).map shownChar)

/-- The texts of a header as they are read back. -/
def Metadata.shown (m : Metadata) : Metadata :=
  ⟨Psid.shown m.title, Psid.shown m.author, Psid.shown m.released⟩

/-- A text of at most 32 characters, all of printable ASCII. -/
def IsShowable (text : String) : Prop :=
  text.toList.length ≤ 32 ∧ ∀ c ∈ text.toList, IsPrintable c

theorem isPrintable_shownChar (c : Char) : IsPrintable (shownChar c) := by
  unfold shownChar
  split
  · next hprintable => exact hprintable
  · exact ⟨by decide, by decide⟩

theorem toNat_textByte (c : Char) : (textByte c).toNat = (shownChar c).toNat := by
  by_cases hprintable : IsPrintable c
  · have hbyte : textByte c = UInt8.ofNat c.toNat := if_pos hprintable
    have hfits : c.toNat < 2 ^ 8 := Nat.lt_of_le_of_lt hprintable.2 (by decide)
    rw [hbyte, shownChar, if_pos hprintable, UInt8.toNat_ofNat', Nat.mod_eq_of_lt hfits]
  · have hbyte : textByte c = 0x3F := if_neg hprintable
    rw [hbyte, shownChar, if_neg hprintable]
    rfl

private theorem textByte_lt (c : Char) : textByte c < 0x80 := by
  have hbounds := isPrintable_shownChar c
  rw [UInt8.lt_iff_toNat_lt, toNat_textByte]
  exact Nat.lt_of_le_of_lt hbounds.2 (by decide)

private theorem textByte_ne_zero (c : Char) : textByte c ≠ 0 := by
  have hbounds := isPrintable_shownChar c
  intro hzero
  have hvalue := toNat_textByte c
  rw [hzero] at hvalue
  exact absurd hbounds.1 (by rw [← hvalue]; decide)

theorem decodeLossy_map_textByte (cs : List Char) :
    Utf8.decodeLossy (cs.map textByte) = cs.map shownChar := by
  induction cs with
  | nil => exact Utf8.decodeLossy_nil
  | cons c cs ih =>
    rw [List.map_cons, List.map_cons, Utf8.decodeLossy_cons_ascii _ (textByte_lt c), ih,
      toNat_textByte, Char.ofNat_toNat]

private theorem takeWhile_encodeText (text : String) :
    (encodeText text).takeWhile (· != 0) = (text.toList.take 32).map textByte := by
  have hnonzero : ∀ b ∈ (text.toList.take textWidth).map textByte, (b != 0) = true := by
    intro b hmem
    obtain ⟨c, -, rfl⟩ := List.mem_map.1 hmem
    exact bne_iff_ne.2 (textByte_ne_zero c)
  rw [encodeText, List.takeWhile_append_of_pos hnonzero, List.takeWhile_replicate_eq_filter]
  simp [textWidth]

/-- Where a text was written, it is read as it is shown, whatever is around it. -/
theorem textAt_append (before : Bytes) (text : String) (after : Bytes) :
    textAt (before ++ (encodeText text ++ after)) before.length = shown text := by
  rw [textAt, List.drop_left, ← length_encodeText text, List.take_left, takeWhile_encodeText,
    Utf8.textLossy, decodeLossy_map_textByte, shown]

/-- A text is read back as it is exactly if it is short enough and printable. -/
theorem shown_eq_self_iff {text : String} : shown text = text ↔ IsShowable text := by
  have hunchanged {c : Char} : shownChar c = c ↔ IsPrintable c :=
    ⟨fun hsame => hsame ▸ isPrintable_shownChar c, fun hprintable => if_pos hprintable⟩
  rw [shown, ← String.toList_inj, String.toList_ofList, IsShowable]
  constructor
  · intro hsame
    have hshort : text.toList.length ≤ 32 := by
      have := congrArg List.length hsame
      rw [List.length_map, List.length_take] at this
      omega
    rw [List.take_of_length_le hshort] at hsame
    have heach := List.map_eq_map_iff.1 (hsame.trans (List.map_id _).symm)
    exact ⟨hshort, fun c hmem => hunchanged.1 (heach c hmem)⟩
  · rintro ⟨hshort, hprintable⟩
    rw [List.take_of_length_le hshort]
    exact (List.map_congr_left fun c hmem => hunchanged.2 (hprintable c hmem)).trans (List.map_id _)

theorem Metadata.shown_eq_self_iff {m : Metadata} :
    m.shown = m ↔ IsShowable m.title ∧ IsShowable m.author ∧ IsShowable m.released := by
  obtain ⟨title, author, released⟩ := m
  rw [Metadata.shown, Metadata.mk.injEq, Psid.shown_eq_self_iff, Psid.shown_eq_self_iff,
    Psid.shown_eq_self_iff]

/-! ### Headers -/

namespace Header

variable (h : Header)

theorem length_encodeNumbers : h.encodeNumbers.length = 0x16 := rfl

/-- The texts that are read from the bytes of a header are those that are shown. -/
theorem textsRead_eq : h.textsRead = h.metadata.shown := by
  have htitle := textAt_append h.encodeNumbers h.metadata.title
    (encodeText h.metadata.author ++ encodeText h.metadata.released)
  have hauthor := textAt_append (h.encodeNumbers ++ encodeText h.metadata.title) h.metadata.author
    (encodeText h.metadata.released)
  have hreleased := textAt_append
    (h.encodeNumbers ++ encodeText h.metadata.title ++ encodeText h.metadata.author)
    h.metadata.released []
  simp only [List.length_append, length_encodeText, length_encodeNumbers, textWidth, Nat.reduceAdd,
    List.append_nil, ← List.append_assoc] at htitle hauthor hreleased
  exact Metadata.mk.injEq .. ▸ ⟨htitle, hauthor, hreleased⟩

/-- A header is read back from its bytes alone exactly if its texts are. -/
theorem decode_encode_eq_self_iff : decode h.encode = .ok h ↔
    IsShowable h.metadata.title ∧ IsShowable h.metadata.author ∧
      IsShowable h.metadata.released := by
  have hread := h.decode_encode []
  rw [List.append_nil, textsRead_eq] at hread
  rw [hread, ← Metadata.shown_eq_self_iff]
  constructor
  · exact fun hsame => congrArg metadata (Except.ok.inj hsame)
  · exact fun hsame => by rw [hsame]

end Header

/-! ### Fields -/

/-- Two byte strings agree outside the 32 bytes from a position on. -/
def SameOutside (first : Nat) (b b' : Bytes) : Prop :=
  b.take first = b'.take first ∧ b.drop (first + 32) = b'.drop (first + 32)

private theorem sameOutside_append (before : Bytes) (text text' : String) (after : Bytes) :
    SameOutside before.length (before ++ (encodeText text ++ after))
      (before ++ (encodeText text' ++ after)) := by
  have hrest (text : String) :
      (before ++ (encodeText text ++ after)).drop (before.length + 32) = after := by
    rw [← List.drop_drop, List.drop_left]
    exact List.drop_left' (length_encodeText text)
  exact ⟨by rw [List.take_left, List.take_left], by rw [hrest, hrest]⟩

/-- A text of a header changes no byte outside its own field. -/
theorem Header.sameOutside_encode (h : Header) (text : String) :
    SameOutside 0x16 { h with metadata.title := text }.encode h.encode ∧
    SameOutside 0x36 { h with metadata.author := text }.encode h.encode ∧
    SameOutside 0x56 { h with metadata.released := text }.encode h.encode := by
  have htitle := sameOutside_append h.encodeNumbers text h.metadata.title
    (encodeText h.metadata.author ++ encodeText h.metadata.released)
  have hauthor := sameOutside_append (h.encodeNumbers ++ encodeText h.metadata.title) text
    h.metadata.author (encodeText h.metadata.released)
  have hreleased := sameOutside_append
    (h.encodeNumbers ++ encodeText h.metadata.title ++ encodeText h.metadata.author) text
    h.metadata.released []
  simp only [List.length_append, length_encodeText, length_encodeNumbers, textWidth, Nat.reduceAdd,
    List.append_nil, ← List.append_assoc] at htitle hauthor hreleased
  exact ⟨htitle, hauthor, hreleased⟩

/-- **Headers read back.** The bytes of a header are 118, and a file that starts with them is read
as the header with its texts as they are shown. So the header is read back from its bytes alone
exactly if its texts are short enough and printable, and no text changes what is outside its
field. -/
theorem header_round_trip :
    (∀ h : Header, h.encode.length = 0x76) ∧
    (∀ (h : Header) (rest : Bytes),
      Header.decode (h.encode ++ rest) = .ok { h with metadata := h.metadata.shown }) ∧
    (∀ h : Header, Header.decode h.encode = .ok h ↔ IsShowable h.metadata.title ∧
      IsShowable h.metadata.author ∧ IsShowable h.metadata.released) ∧
    ∀ (h : Header) (text : String),
      SameOutside 0x16 { h with metadata.title := text }.encode h.encode ∧
      SameOutside 0x36 { h with metadata.author := text }.encode h.encode ∧
      SameOutside 0x56 { h with metadata.released := text }.encode h.encode := by
  refine ⟨Header.length_encode, fun h rest => ?_, Header.decode_encode_eq_self_iff,
    Header.sameOutside_encode⟩
  rw [Header.decode_encode, Header.textsRead_eq]

end SidTune.Psid
