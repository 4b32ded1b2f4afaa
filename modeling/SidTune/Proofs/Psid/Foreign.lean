import SidTune.Proofs.Psid.Header

/-!
# Headers of foreign files

A file that was written by others is read if its first eight bytes are those of every header and it
is long enough. Its numbers are kept as they are. Its texts may hold anything: bytes after the end,
control bytes, well-formed or broken sequences of several bytes. All of that is gone when the header
is written again, and what was written so is not changed by being read and written once more.

## Main definitions

* `SidTune.Psid.opening`: the eight bytes with which every header starts.
* `SidTune.Psid.Flaw`: why a file has no header, in the order in which it is read.
* `SidTune.Psid.IsTextField`: printable bytes with nothing but zero bytes after them.
* `SidTune.Psid.Rewritten`: what is known of a header that is written again.

## Main results

* `SidTune.Psid.Header.decode_eq_ok_iff`: which files are read, and as what.
* `SidTune.Psid.Header.decode_eq_error_iff`: which files are not read, and why.
* `SidTune.Psid.encodeText_fieldText_eq_iff`: the fields that stay as they are.
* `SidTune.Psid.foreign_header_rewritten`: what becomes of the header of any file.
-/

namespace SidTune.Psid

/-! ### The opening -/

/-- The eight bytes with which every header starts: magic word, version and offset of the image. -/
def opening : Bytes :=
  [0x50, 0x53, 0x49, 0x44, 0x00, 0x02, 0x00, 0x76]

theorem opening_eq : opening = magic ++ Bytes.word version ++ Bytes.word headerSize := rfl

private theorem word_inj {v w : UInt16} : Bytes.word v = Bytes.word w ↔ v = w := by
  refine ⟨fun hsame => ?_, congrArg _⟩
  obtain ⟨hhigh, hlow⟩ := List.cons.inj hsame
  rw [← wordOf_bytes v, ← wordOf_bytes w, hhigh, (List.cons.inj hlow).1]

theorem byteAt_eq {b : Bytes} {i : Nat} (h : i < b.length) : byteAt b i = b[i] := by
  simp [byteAt, h]

theorem word_wordAt {b : Bytes} {i : Nat} (h : i + 2 ≤ b.length) :
    Bytes.word (wordAt b i) = (b.drop i).take 2 := by
  rw [wordAt, word_wordOf, byteAt_eq (by omega), byteAt_eq (by omega),
    List.drop_eq_getElem_cons (by omega), List.drop_eq_getElem_cons (by omega)]
  rfl

theorem doubleWord_doubleWordAt {b : Bytes} {i : Nat} (h : i + 4 ≤ b.length) :
    Bytes.doubleWord (doubleWordAt b i) = (b.drop i).take 4 := by
  rw [doubleWordAt, doubleWord_doubleWordOf, byteAt_eq (by omega), byteAt_eq (by omega),
    byteAt_eq (by omega), byteAt_eq (by omega), List.drop_eq_getElem_cons (by omega),
    List.drop_eq_getElem_cons (by omega), List.drop_eq_getElem_cons (by omega),
    List.drop_eq_getElem_cons (by omega)]
  rfl

private theorem take_eight {b : Bytes} (hstart : magic <+: b) (hlong : 8 ≤ b.length) :
    b.take 8 = magic ++ Bytes.word (wordAt b 4) ++ Bytes.word (wordAt b 6) := by
  have hfirst : b.take 4 = magic := (List.prefix_iff_eq_take.1 hstart).symm
  rw [word_wordAt (by omega), word_wordAt (by omega), ← hfirst, ← List.take_add, ← List.take_add]

theorem magic_prefix {b : Bytes} {v offset : UInt16}
    (hstart : magic ++ Bytes.word v ++ Bytes.word offset <+: b) : magic <+: b ∧ 8 ≤ b.length := by
  refine ⟨?_, hstart.length_le⟩
  rw [List.append_assoc] at hstart
  exact (List.prefix_append magic _).trans hstart

/-- A file opens with a version and an offset exactly if these are read from it. -/
theorem prefix_versioned_iff {b : Bytes} (hstart : magic <+: b) (hlong : 8 ≤ b.length)
    {v offset : UInt16} : magic ++ Bytes.word v ++ Bytes.word offset <+: b ↔
      wordAt b 4 = v ∧ wordAt b 6 = offset := by
  have height : (magic ++ Bytes.word v ++ Bytes.word offset).length = 8 := rfl
  rw [List.prefix_iff_eq_take, height, take_eight hstart hlong]
  constructor
  · intro hsame
    obtain ⟨hfront, hsecond⟩ := List.append_inj' hsame rfl
    exact ⟨(word_inj.1 (List.append_cancel_left hfront)).symm, (word_inj.1 hsecond).symm⟩
  · rintro ⟨rfl, rfl⟩
    rfl

/-! ### Which files are read -/

/-- Why a file has no header, in the order in which it is read. A file that ends too early is told
apart from one that goes on with other bytes. -/
inductive Flaw (b : Bytes) : HeaderError → Prop
  | endsInMagic (short : b.length < 4) : Flaw b .tooShort
  | otherMagic (long : 4 ≤ b.length) (other : ¬ magic <+: b) : Flaw b .notPsid
  | endsInVersion (start : magic <+: b) (short : b.length < 8) : Flaw b .tooShort
  | otherVersion {v offset : UInt16} (start : magic ++ Bytes.word v ++ Bytes.word offset <+: b)
      (other : ¬ (v = 0x0002 ∧ offset = 0x0076)) : Flaw b (.unsupported v offset)
  | endsInFields (start : opening <+: b) (short : b.length < 0x76) : Flaw b .tooShort

namespace Flaw

variable {b : Bytes}

/-- The files that end too early. -/
theorem exists_unexpectedEof_iff : (∃ e, Flaw b e ∧ e.kind = .unexpectedEof) ↔
    b.length < 4 ∨ magic <+: b ∧ b.length < 8 ∨ opening <+: b ∧ b.length < 0x76 := by
  constructor
  · rintro ⟨e, hflaw, hkind⟩
    cases hflaw with
    | endsInMagic hshort => exact .inl hshort
    | endsInVersion hstart hshort => exact .inr (.inl ⟨hstart, hshort⟩)
    | endsInFields hstart hshort => exact .inr (.inr ⟨hstart, hshort⟩)
    | otherMagic => cases hkind
    | otherVersion => cases hkind
  · rintro (hshort | ⟨hstart, hshort⟩ | ⟨hstart, hshort⟩)
    · exact ⟨_, .endsInMagic hshort, rfl⟩
    · exact ⟨_, .endsInVersion hstart hshort, rfl⟩
    · exact ⟨_, .endsInFields hstart hshort, rfl⟩

/-- The files that do not open as headers do. -/
theorem exists_invalidData_iff : (∃ e, Flaw b e ∧ e.kind = .invalidData) ↔
    4 ≤ b.length ∧ ¬ magic <+: b ∨ 8 ≤ b.length ∧ magic <+: b ∧ ¬ opening <+: b := by
  constructor
  · rintro ⟨e, hflaw, hkind⟩
    cases hflaw with
    | endsInMagic => cases hkind
    | endsInVersion => cases hkind
    | endsInFields => cases hkind
    | otherMagic hlong hother => exact .inl ⟨hlong, hother⟩
    | otherVersion hstart hother =>
      obtain ⟨hstart', hlong⟩ := magic_prefix hstart
      refine .inr ⟨hlong, hstart', fun hsame => hother ?_⟩
      obtain ⟨rfl, rfl⟩ := (prefix_versioned_iff hstart' hlong).1 hstart
      exact (prefix_versioned_iff hstart' hlong).1 (opening_eq ▸ hsame)
  · rintro (⟨hlong, hother⟩ | ⟨hlong, hstart, hother⟩)
    · exact ⟨_, .otherMagic hlong hother, rfl⟩
    · refine ⟨_, .otherVersion ((prefix_versioned_iff hstart hlong).2 ⟨rfl, rfl⟩)
        fun hsame => ?_, rfl⟩
      exact hother ((prefix_versioned_iff hstart hlong).2 hsame)

end Flaw

namespace Header

/-- The header that is read from a file that is found to have one. -/
def given (b : Bytes) : Header where
  loadAddress := wordAt b 8
  initAddress := wordAt b 10
  playAddress := wordAt b 12
  songs := wordAt b 14
  startSong := wordAt b 16
  speed := doubleWordAt b 18
  metadata := ⟨textAt b 22, textAt b 54, textAt b 86⟩

/-- A file with the magic word and two words after it is judged by these first, and then by its
length. -/
theorem decode_of_magic {b : Bytes} (hstart : magic <+: b) (hlong : 8 ≤ b.length) :
    decode b =
      if wordAt b 4 = version ∧ wordAt b 6 = headerSize then
        if b.length < 0x76 then .error .tooShort else .ok (given b)
      else .error (.unsupported (wordAt b 4) (wordAt b 6)) := by
  have hfound : b.take 4 = magic := (List.prefix_iff_eq_take.1 hstart).symm
  rw [decode, if_neg (by omega), if_neg (not_not_intro hfound), if_neg (by omega)]
  by_cases hsame : wordAt b 4 = version ∧ wordAt b 6 = headerSize
  · rw [if_pos hsame, if_neg (not_or_intro (not_not_intro hsame.1) (not_not_intro hsame.2))]
    rfl
  · rw [if_neg hsame, if_pos (Decidable.not_and_iff_not_or_not.1 hsame)]

theorem decode_of_opening {b : Bytes} (hstart : opening <+: b) (hlong : 0x76 ≤ b.length) :
    decode b = .ok (given b) := by
  rw [opening_eq] at hstart
  obtain ⟨hstart', -⟩ := magic_prefix hstart
  have hsame := (prefix_versioned_iff hstart' (by omega)).1 hstart
  rw [decode_of_magic hstart' (by omega), if_pos hsame, if_neg (by omega)]

theorem decode_of_flaw {b : Bytes} {e : HeaderError} (h : Flaw b e) : decode b = .error e := by
  cases h with
  | endsInMagic hshort => rw [decode, if_pos hshort]
  | otherMagic hlong hother =>
    have hother : b.take 4 ≠ magic := fun hsame => hother (List.prefix_iff_eq_take.2 hsame.symm)
    rw [decode, if_neg (by omega), if_pos hother]
  | endsInVersion hstart hshort =>
    have hlong : 4 ≤ b.length := hstart.length_le
    have hfound : b.take 4 = magic := (List.prefix_iff_eq_take.1 hstart).symm
    rw [decode, if_neg (by omega), if_neg (not_not_intro hfound), if_pos hshort]
  | @otherVersion v offset hstart hother =>
    obtain ⟨hstart', hlong⟩ := magic_prefix hstart
    obtain ⟨rfl, rfl⟩ := (prefix_versioned_iff hstart' hlong).1 hstart
    exact (decode_of_magic hstart' hlong).trans (if_neg hother)
  | endsInFields hstart hshort =>
    rw [opening_eq] at hstart
    obtain ⟨hstart', hlong⟩ := magic_prefix hstart
    have hsame := (prefix_versioned_iff hstart' hlong).1 hstart
    rw [decode_of_magic hstart' hlong, if_pos hsame, if_pos hshort]

/-- A file is read or has a flaw. -/
theorem opening_or_flaw (b : Bytes) :
    opening <+: b ∧ 0x76 ≤ b.length ∨ ∃ e, Flaw b e := by
  rcases Nat.lt_or_ge b.length 4 with hshort | hlong
  · exact .inr ⟨_, .endsInMagic hshort⟩
  by_cases hstart : magic <+: b
  case neg => exact .inr ⟨_, .otherMagic hlong hstart⟩
  rcases Nat.lt_or_ge b.length 8 with hshort | hlong
  · exact .inr ⟨_, .endsInVersion hstart hshort⟩
  by_cases hsame : wordAt b 4 = 0x0002 ∧ wordAt b 6 = 0x0076
  case neg =>
    exact .inr ⟨_, .otherVersion ((prefix_versioned_iff hstart hlong).2 ⟨rfl, rfl⟩) hsame⟩
  have hstart : opening <+: b := (prefix_versioned_iff hstart hlong).2 hsame
  rcases Nat.lt_or_ge b.length 0x76 with hshort | hlong
  · exact .inr ⟨_, .endsInFields hstart hshort⟩
  · exact .inl ⟨hstart, hlong⟩

/-- Which files are read, and as what. -/
theorem decode_eq_ok_iff {b : Bytes} {h : Header} :
    decode b = .ok h ↔ (opening <+: b ∧ 0x76 ≤ b.length) ∧ h = given b := by
  constructor
  · intro hread
    rcases opening_or_flaw b with ⟨hstart, hlong⟩ | ⟨e, hflaw⟩
    · rw [decode_of_opening hstart hlong] at hread
      exact ⟨⟨hstart, hlong⟩, (Except.ok.inj hread).symm⟩
    · rw [decode_of_flaw hflaw] at hread
      cases hread
  · rintro ⟨⟨hstart, hlong⟩, rfl⟩
    exact decode_of_opening hstart hlong

/-- Which files are not read, and why. -/
theorem decode_eq_error_iff {b : Bytes} {e : HeaderError} : decode b = .error e ↔ Flaw b e := by
  constructor
  · intro hfailed
    rcases opening_or_flaw b with ⟨hstart, hlong⟩ | ⟨e', hflaw⟩
    · rw [decode_of_opening hstart hlong] at hfailed
      cases hfailed
    · rw [decode_of_flaw hflaw] at hfailed
      exact Except.error.inj hfailed ▸ hflaw
  · exact decode_of_flaw

end Header

/-! ### Text fields -/

/-- Printable bytes with nothing but zero bytes after them. -/
def IsTextField (field : Bytes) : Prop :=
  ∃ letters n, (∀ b ∈ letters, 0x20 ≤ b ∧ b ≤ 0x7E) ∧ field = letters ++ List.replicate n 0

/-- The 32 bytes of the text at a position. -/
def fieldAt (b : Bytes) (i : Nat) : Bytes :=
  (b.drop i).take 32

/-- The text of a field: its bytes before the first zero byte. -/
def fieldText (field : Bytes) : String :=
  Utf8.textLossy (field.takeWhile (· != 0))

private theorem textByte_shownChar (c : Char) : textByte (shownChar c) = textByte c := by
  have hsame : shownChar (shownChar c) = shownChar c := if_pos (isPrintable_shownChar c)
  rw [← UInt8.toNat_inj, toNat_textByte, toNat_textByte, hsame]

private theorem textByte_ofNat {b : UInt8} (hlow : 0x20 ≤ b) (hhigh : b ≤ 0x7E) :
    textByte (Char.ofNat b.toNat) = b := by
  rw [UInt8.le_iff_toNat_le] at hlow hhigh
  have hvalid : b.toNat.isValidChar := .inl (Nat.lt_of_le_of_lt hhigh (by decide))
  have hcode : (Char.ofNat b.toNat).toNat = b.toNat := by
    rw [Char.ofNat, dif_pos hvalid]
    rfl
  rw [textByte, hcode, if_pos ⟨hlow, hhigh⟩, UInt8.ofNat_toNat]

/-- A text is written as it is shown. -/
theorem encodeText_shown (text : String) : encodeText (shown text) = encodeText text := by
  have hbytes : ((shown text).toList.take textWidth).map textByte =
      (text.toList.take textWidth).map textByte := by
    have hshort : ((text.toList.take 32).map shownChar).length ≤ textWidth := by
      rw [List.length_map]
      exact List.length_take_le ..
    rw [shown, String.toList_ofList, List.take_of_length_le hshort, List.map_map]
    exact List.map_congr_left fun c _ => textByte_shownChar c
  rw [encodeText, hbytes, encodeText]

private theorem isTextField_encodeText (text : String) : IsTextField (encodeText text) := by
  refine ⟨_, _, fun b hmem => ?_, rfl⟩
  obtain ⟨c, -, rfl⟩ := List.mem_map.1 hmem
  have hbounds := isPrintable_shownChar c
  rw [IsPrintable, ← toNat_textByte] at hbounds
  exact ⟨UInt8.le_iff_toNat_le.2 hbounds.1, UInt8.le_iff_toNat_le.2 hbounds.2⟩

/-- The text of a field of printable bytes is written as that field. -/
theorem encodeText_fieldText {field : Bytes} (hlength : field.length = 32)
    (h : IsTextField field) : encodeText (fieldText field) = field := by
  obtain ⟨letters, n, hprintable, rfl⟩ := h
  have hnonzero : ∀ b ∈ letters, (b != 0) = true := fun b hmem => by
    have hlow := (hprintable b hmem).1
    rw [UInt8.le_iff_toNat_le] at hlow
    exact bne_iff_ne.2 fun hzero => absurd hlow (by rw [hzero]; decide)
  -- Printable bytes are not zero, so the text of the field is all of its letters.
  have hstops : (letters ++ List.replicate n 0).takeWhile (· != 0) = letters := by
    rw [List.takeWhile_append_of_pos hnonzero, List.takeWhile_replicate_eq_filter]
    simp
  have hwritten : letters = (letters.map fun b => Char.ofNat b.toNat).map textByte := by
    rw [List.map_map]
    refine ((List.map_congr_left fun b hmem => ?_).trans (List.map_id _)).symm
    exact textByte_ofNat (hprintable b hmem).1 (hprintable b hmem).2
  rw [List.length_append, List.length_replicate] at hlength
  have hshort : letters.length ≤ 32 := by omega
  generalize hcs : letters.map (fun b => Char.ofNat b.toNat) = cs at hwritten
  have hshownText : fieldText (letters ++ List.replicate n 0) = shown (String.ofList cs) := by
    rw [fieldText, hstops, Utf8.textLossy, hwritten, decodeLossy_map_textByte, shown,
      String.toList_ofList, List.take_of_length_le]
    rwa [← hcs, List.length_map]
  rw [hshownText, encodeText_shown, encodeText, String.toList_ofList, List.take_of_length_le,
    ← hwritten]
  · rw [show textWidth - letters.length = n by rw [textWidth]; omega]
  · rwa [← hcs, List.length_map]

/-- The fields that stay as they are when their text is read and written. -/
theorem encodeText_fieldText_eq_iff {field : Bytes} (hlength : field.length = 32) :
    encodeText (fieldText field) = field ↔ IsTextField field :=
  ⟨fun hsame => hsame ▸ isTextField_encodeText _, encodeText_fieldText hlength⟩

/-! ### Writing a header again -/

namespace Header

theorem encode_shown (h : Header) : { h with metadata := h.metadata.shown }.encode = h.encode := by
  simp only [encode, Metadata.shown, encodeText_shown]
  rfl

/-- The numbers of a header are written as they were read. -/
theorem encodeNumbers_given {b : Bytes} (hstart : opening <+: b) (hlong : 0x76 ≤ b.length) :
    (given b).encodeNumbers = b.take 0x16 := by
  have height : magic ++ Bytes.word version ++ Bytes.word headerSize = b.take 8 :=
    List.prefix_iff_eq_take.1 hstart
  rw [encodeNumbers, height]
  dsimp only [given]
  rw [word_wordAt (by omega), word_wordAt (by omega), word_wordAt (by omega),
    word_wordAt (by omega), word_wordAt (by omega), doubleWord_doubleWordAt (by omega),
    ← List.take_add, ← List.take_add, ← List.take_add, ← List.take_add, ← List.take_add,
    ← List.take_add]

private theorem take_header (b : Bytes) :
    b.take 0x76 = b.take 0x16 ++ fieldAt b 0x16 ++ fieldAt b 0x36 ++ fieldAt b 0x56 := by
  rw [fieldAt, fieldAt, fieldAt, ← List.take_add, ← List.take_add, ← List.take_add]

/-- The header of a file is written as it was exactly if its texts are. -/
theorem encode_given_eq_iff {b : Bytes} (hstart : opening <+: b) (hlong : 0x76 ≤ b.length) :
    (given b).encode = b.take 0x76 ↔
      ∀ i ∈ [0x16, 0x36, 0x56], IsTextField (fieldAt b i) := by
  have hlength {i : Nat} (hinside : i + 32 ≤ 0x76) : (fieldAt b i).length = 32 := by
    rw [fieldAt, List.length_take, List.length_drop]
    omega
  have hfield {i : Nat} (hinside : i + 32 ≤ 0x76) :
      encodeText (textAt b i) = fieldAt b i ↔ IsTextField (fieldAt b i) :=
    encodeText_fieldText_eq_iff (hlength hinside)
  have hwidths {text : String} {i : Nat} (hinside : i + 32 ≤ 0x76) :
      (encodeText text).length = (fieldAt b i).length := by
    rw [length_encodeText, hlength hinside, textWidth]
  rw [encode, encodeNumbers_given hstart hlong, take_header, List.forall_mem_cons,
    List.forall_mem_cons, List.forall_mem_singleton, ← hfield (by decide), ← hfield (by decide),
    ← hfield (by decide)]
  constructor
  · intro hsame
    obtain ⟨hfront, hreleased⟩ := List.append_inj' hsame (hwidths (by decide))
    obtain ⟨hfront, hauthor⟩ := List.append_inj' hfront (hwidths (by decide))
    exact ⟨List.append_cancel_left hfront, hauthor, hreleased⟩
  · rintro ⟨htitle, hauthor, hreleased⟩
    dsimp only [given]
    rw [htitle, hauthor, hreleased]

end Header

/-- What is known of a header that was read from a file and is written again. -/
structure Rewritten (b : Bytes) (h : Header) : Prop where
  /-- Reading and writing it once more changes nothing. -/
  again : (Header.decode h.encode).map Header.encode = .ok h.encode
  /-- The bytes before the texts are those of the file. -/
  numbers : h.encode.take 0x16 = b.take 0x16
  /-- All bytes are those of the file exactly if its fields are text fields. -/
  unchanged : h.encode = b.take 0x76 ↔ ∀ i ∈ [0x16, 0x36, 0x56], IsTextField (fieldAt b i)

/-- **Foreign headers.** A file is read exactly if it is long enough and opens as headers do; if
not, the first flaw is told, which is of the kind of a file that ends too early or of one that opens
otherwise. The header that was read is written with the numbers of the file, and as it was exactly
if its fields are text fields; reading and writing it once more changes nothing. -/
theorem foreign_header_rewritten (b : Bytes) :
    ((∃ h, Header.decode b = .ok h) ↔
      0x76 ≤ b.length ∧ [0x50, 0x53, 0x49, 0x44, 0x00, 0x02, 0x00, 0x76] <+: b) ∧
    (∀ e, Header.decode b = .error e ↔ Flaw b e) ∧
    ((∃ e, Header.decode b = .error e ∧ e.kind = .unexpectedEof) ↔
      b.length < 4 ∨ magic <+: b ∧ b.length < 8 ∨ opening <+: b ∧ b.length < 0x76) ∧
    ((∃ e, Header.decode b = .error e ∧ e.kind = .invalidData) ↔
      4 ≤ b.length ∧ ¬ magic <+: b ∨ 8 ≤ b.length ∧ magic <+: b ∧ ¬ opening <+: b) ∧
    ∀ h, Header.decode b = .ok h → Rewritten b h := by
  simp only [Header.decode_eq_error_iff, Flaw.exists_unexpectedEof_iff, Flaw.exists_invalidData_iff,
    implies_true, true_and]
  refine ⟨?_, fun h hread => ?_⟩
  · simp only [Header.decode_eq_ok_iff, exists_and_left, exists_eq, and_true]
    exact and_comm
  obtain ⟨⟨hstart, hlong⟩, rfl⟩ := Header.decode_eq_ok_iff.1 hread
  refine ⟨?_, ?_, Header.encode_given_eq_iff hstart hlong⟩
  · have hreread := (Header.given b).decode_encode []
    rw [List.append_nil, Header.textsRead_eq] at hreread
    rw [hreread]
    exact congrArg Except.ok (Header.encode_shown _)
  · rw [← Header.encodeNumbers_given hstart hlong, Header.encode, List.append_assoc,
      List.append_assoc, ← Header.length_encodeNumbers, List.take_left]

/-- A file whose title holds a sequence of two bytes, a broken one, a control byte, and bytes after
its end; the other texts are empty, and an image follows. -/
def scratchedFile : Bytes :=
  opening ++ List.replicate 14 0x01
    ++ ([0x43, 0xC3, 0xA9, 0xE2, 0x82, 0x07, 0x00, 0x58] ++ List.replicate 24 0x59)
    ++ List.replicate 64 0x00 ++ [0x00, 0x10, 0x60]

theorem foreign_header_rewritten_scratchedFile :
    ∃ h, Header.decode scratchedFile = .ok h ∧ Rewritten scratchedFile h := by
  obtain ⟨haccepted, -, -, -, hrewritten⟩ := foreign_header_rewritten scratchedFile
  obtain ⟨h, hread⟩ := haccepted.2 ⟨by decide, List.prefix_append opening _⟩
  exact ⟨h, hread, hrewritten h hread⟩

end SidTune.Psid
