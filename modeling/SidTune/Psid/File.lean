import SidTune.Player.Programs
import SidTune.Text

/-!
# PSID files

A PSID file starts with 118 bytes: a magic word, the version, the offset of the image, three
addresses, the number of songs and the one to start with, a timing flag for each song, and three
texts of 32 bytes each. Numbers have their most significant byte first. A text is printable ASCII
followed by zero bytes; a character outside printable ASCII is written as a question mark, and what
does not fit is cut off. The header is followed by the image of the library layout, which starts
with its load address. An image that lacks the load address gets it.

## Main definitions

* `SidTune.Psid.Metadata`, `SidTune.Psid.Header`: what a header tells.
* `SidTune.Psid.Header.encode`: its bytes.
* `SidTune.Psid.Header.decode`, `SidTune.Psid.HeaderError`: reading the bytes, and why it fails,
  with `HeaderError.kind` and `HeaderError.text`.
* `SidTune.Psid.hasLoadAddress`, `SidTune.Psid.withLoadAddress`: the load address of an image.
* `SidTune.Psid.package`: the file of an image.
-/

namespace SidTune.Psid

/-! ### Contents -/

/-- The texts of a header. -/
structure Metadata where
  title : String
  author : String
  released : String
  deriving DecidableEq, Repr

/-- The texts of a song. -/
def Metadata.ofSong (s : Song) : Metadata :=
  ⟨s.title, s.author, s.released⟩

/-- What a header tells. -/
structure Header where
  /-- Where the image is loaded; zero leaves it to the first two bytes of the image. -/
  loadAddress : UInt16
  initAddress : UInt16
  playAddress : UInt16
  songs : UInt16
  startSong : UInt16
  /-- One bit for each song; zero means once a frame. -/
  speed : UInt32
  metadata : Metadata
  deriving DecidableEq, Repr

/-- The header of the library image of one song. -/
def Header.ofMetadata (m : Metadata) : Header where
  loadAddress := 0
  initAddress := Player.initEntry
  playAddress := Player.playEntry
  songs := 1
  startSong := 1
  speed := 0
  metadata := m

/-! ### Writing -/

/-- The first four bytes of a PSID file. -/
def magic : Bytes := [0x50, 0x53, 0x49, 0x44]

/-- The version of the format. -/
def version : UInt16 := 2

/-- The size of the header, which is also the offset of the image. -/
def headerSize : UInt16 := 0x76

/-- The width of a text. -/
def textWidth : Nat := 32

/-- The byte of a character of a text. -/
def textByte (c : Char) : UInt8 :=
  if 0x20 ≤ c.toNat ∧ c.toNat ≤ 0x7E then UInt8.ofNat c.toNat else 0x3F

/-- The bytes of a text, padded or cut to its width. -/
def encodeText (text : String) : Bytes :=
  let bytes := (text.toList.take textWidth).map textByte
  bytes ++ List.replicate (textWidth - bytes.length) 0

/-- The bytes before the texts. -/
def Header.encodeNumbers (h : Header) : Bytes :=
  magic ++ Bytes.word version ++ Bytes.word headerSize ++ Bytes.word h.loadAddress
    ++ Bytes.word h.initAddress ++ Bytes.word h.playAddress ++ Bytes.word h.songs
    ++ Bytes.word h.startSong ++ Bytes.doubleWord h.speed

/-- The bytes of a header. -/
def Header.encode (h : Header) : Bytes :=
  h.encodeNumbers ++ encodeText h.metadata.title ++ encodeText h.metadata.author
    ++ encodeText h.metadata.released

/-- A text takes its whole width, however long it is. -/
@[simp] theorem length_encodeText (text : String) : (encodeText text).length = textWidth := by
  simp only [encodeText, List.length_append, List.length_map, List.length_take,
    List.length_replicate]
  omega

theorem Header.length_encode (h : Header) : h.encode.length = headerSize.toNat := by
  simp only [encode, List.length_append, length_encodeText]
  rfl

/-! ### Reading -/

/-- Why bytes are no header. -/
inductive HeaderError where
  | tooShort
  | notPsid
  | unsupported (version dataOffset : UInt16)
  deriving DecidableEq, Repr

/-- The kinds of errors of reading. -/
inductive ReadErrorKind where
  | unexpectedEof
  | invalidData
  deriving DecidableEq, Repr

/-- The kind of an error: bytes that end too early are told apart from bytes that are no header
whatever follows. -/
def HeaderError.kind : HeaderError → ReadErrorKind
  | tooShort => .unexpectedEof
  | notPsid => .invalidData
  | unsupported .. => .invalidData

/-- A number in hexadecimal without leading zeros. -/
def hexNumber (n : Nat) : String :=
  String.ofList ('0' :: 'x' :: Nat.toDigits 16 n)

/-- The message about bytes that are no header. -/
def HeaderError.text : HeaderError → String
  | tooShort => "failed to fill whole buffer"
  | notPsid => "not a PSID file"
  | unsupported version dataOffset =>
    "unsupported PSID version " ++ version.toNat.repr ++ " with data offset "
      ++ hexNumber dataOffset.toNat

/-- The byte at a position, zero past the end. -/
def byteAt (bytes : Bytes) (i : Nat) : UInt8 :=
  bytes.getD i 0

/-- The word at a position. -/
def wordAt (bytes : Bytes) (i : Nat) : UInt16 :=
  wordOf (byteAt bytes i) (byteAt bytes (i + 1))

/-- The double word at a position. -/
def doubleWordAt (bytes : Bytes) (i : Nat) : UInt32 :=
  doubleWordOf (byteAt bytes i) (byteAt bytes (i + 1)) (byteAt bytes (i + 2)) (byteAt bytes (i + 3))

/-- The text at a position: the bytes of its field before the first zero byte. -/
def textAt (bytes : Bytes) (i : Nat) : String :=
  Utf8.textLossy (((bytes.drop i).take textWidth).takeWhile (· != 0))

/-- The header at the start of a file. The magic word is looked at before the version, and the
version before the rest. -/
def Header.decode (bytes : Bytes) : Except HeaderError Header :=
  if bytes.length < 4 then .error .tooShort
  else if bytes.take 4 ≠ magic then .error .notPsid
  else if bytes.length < 8 then .error .tooShort
  else if wordAt bytes 4 ≠ version ∨ wordAt bytes 6 ≠ headerSize then
    .error (.unsupported (wordAt bytes 4) (wordAt bytes 6))
  else if bytes.length < headerSize.toNat then .error .tooShort
  else .ok
    { loadAddress := wordAt bytes 8
      initAddress := wordAt bytes 10
      playAddress := wordAt bytes 12
      songs := wordAt bytes 14
      startSong := wordAt bytes 16
      speed := doubleWordAt bytes 18
      metadata := ⟨textAt bytes 22, textAt bytes 54, textAt bytes 86⟩ }

/-! ### Packaging -/

/-- The load address of the library layout, least significant byte first. -/
def loadAddress : Bytes := [0x00, 0x10]

/-- Whether an image starts with its load address. -/
def hasLoadAddress (image : Bytes) : Bool :=
  image.take 2 == loadAddress

/-- An image with its load address. -/
def withLoadAddress (image : Bytes) : Bytes :=
  if hasLoadAddress image then image else loadAddress ++ image

/-- The file of an image. -/
def package (image : Bytes) (m : Metadata) : Bytes :=
  (Header.ofMetadata m).encode ++ withLoadAddress image

/-- An image with its load address has it. -/
theorem take_withLoadAddress (image : Bytes) : (withLoadAddress image).take 2 = loadAddress := by
  unfold withLoadAddress
  split
  · next h => simpa [hasLoadAddress] using h
  · rfl

end SidTune.Psid
