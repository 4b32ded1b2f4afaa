import SidTune.Command.Run
import SidTune.Proofs.Build.Outcome
import SidTune.Proofs.Host.Directories
import SidTune.Proofs.Song.RoundTrip

/-!
# What a command does

A command reads a song first. If there is none, because the file cannot be read, is not UTF-8, is
not JSON or breaks a rule, the status is one and the disk is left as it was. Checking a song writes
nothing either. Compiling a song makes the directory of the output and builds. The status is zero if
both end well, and the disk is left as the build leaves it.

## Main definitions

* `SidTune.Command.Gives`, `SidTune.Command.GivesNone`: files that give a song, and those that do
  not.
* `SidTune.Command.Housed`, `SidTune.Command.Unhoused`: the directory of an output is there or can
  be made, or it cannot.
* `SidTune.Command.Compiled`: the status and the disk with which compiling a song ends.
* `SidTune.Command.Classified`: both ways to read a song from a file agree.
* `SidTune.Command.Effects`: the status of a command and what it leaves on the disk.

## Main results

* `SidTune.Command.names_output`: a command line names an output unless it only checks.
* `SidTune.Command.run_effects`: every command line that asks for a run has these effects.
-/

namespace SidTune.Command

open Build

variable {h : Host} {p : Path}

/-! ### Songs in files -/

/-- A file gives a song: it can be read, it is UTF-8, its text is JSON, and the value is read as the
song. -/
def Gives (h : Host) (p : Path) (s : Song) : Prop :=
  ∃ bytes text document, h.disk.read h.working p = .ok bytes ∧ bytes.toText? = some text ∧
    Json.parse text = .ok document ∧ Song.ofJson document = .ok s

/-- Why a file gives no song. -/
inductive GivesNone (h : Host) (p : Path) : Prop where
  | unreadable {error : OsError} (refused : h.disk.read h.working p = .error error)
  | notText {bytes : Bytes} (read : h.disk.read h.working p = .ok bytes)
      (notUtf8 : bytes.toText? = none)
  | notJson {bytes : Bytes} {text : String} {problem : Json.Malformed}
      (read : h.disk.read h.working p = .ok bytes) (utf8 : bytes.toText? = some text)
      (malformed : Json.parse text = .error problem)
  | invalid {bytes : Bytes} {text : String} {document : Json} {rejection : Rejection}
      (read : h.disk.read h.working p = .ok bytes) (utf8 : bytes.toText? = some text)
      (json : Json.parse text = .ok document) (rejected : Song.ofJson document = .error rejection)

/-- A text is read from a file that can be read and is UTF-8. -/
theorem readText_eq_ok {text : String} : h.readText p = .ok text ↔
    ∃ bytes, h.disk.read h.working p = .ok bytes ∧ bytes.toText? = some text := by
  simp only [Host.readText, Except.bind_eq_ok]
  refine exists_congr fun bytes => and_congr_right fun _ => ?_
  cases bytes.toText? <;> simp

private theorem givesNone_of_readText {error : OsError} (hfailed : h.readText p = .error error) :
    GivesNone h p := by
  cases hread : h.disk.read h.working p with
  | error error => exact .unreadable hread
  | ok bytes =>
    cases hutf8 : bytes.toText? with
    | none => exact .notText hread hutf8
    | some text => exact nomatch hfailed.symm.trans (readText_eq_ok.2 ⟨bytes, hread, hutf8⟩)

/-- A file gives a song, breaks a rule, or fails to be read, and both ways to read it tell. -/
theorem reads (h : Host) (p : Path) :
    (∃ s, Gives h p s ∧ readSong h p = .ok (.valid s) ∧ h.songAt p = .ok s) ∨
    GivesNone h p ∧
      ((∃ rejection, readSong h p = .ok (.invalid rejection) ∧
          h.songAt p = .error (.document (.rejected rejection))) ∨
        ∃ chain error, readSong h p = .error chain ∧ h.songAt p = .error error ∧
          ∀ rejection, error ≠ .document (.rejected rejection)) := by
  unfold readSong Host.songAt
  cases htext : h.readText p with
  | error error => exact .inr ⟨givesNone_of_readText htext, .inr ⟨_, _, rfl, rfl, nofun⟩⟩
  | ok text' =>
    obtain ⟨bytes, hread, hutf8⟩ := readText_eq_ok.1 htext
    dsimp only
    unfold Song.parse
    cases hjson : Json.parse text' with
    | error problem => exact .inr ⟨.notJson hread hutf8 hjson, .inr ⟨_, _, rfl, rfl, nofun⟩⟩
    | ok document =>
      dsimp only
      cases hsong : Song.ofJson document with
      | error rejection => exact .inr ⟨.invalid hread hutf8 hjson hsong, .inl ⟨_, rfl, rfl⟩⟩
      | ok s => exact .inl ⟨s, ⟨bytes, text', document, hread, hutf8, hjson, hsong⟩, rfl, rfl⟩

/-- A file gives one song only, and none if there is a reason why not. -/
theorem Gives.unique {s t : Song} (hgiven : Gives h p s) (hgiven' : Gives h p t) : s = t := by
  obtain ⟨bytes, text, document, hread, hutf8, hjson, hsong⟩ := hgiven
  obtain ⟨bytes', text', document', hread', hutf8', hjson', hsong'⟩ := hgiven'
  obtain rfl := Except.ok.inj (hread.symm.trans hread')
  obtain rfl := Option.some.inj (hutf8.symm.trans hutf8')
  obtain rfl := Except.ok.inj (hjson.symm.trans hjson')
  exact Except.ok.inj (hsong.symm.trans hsong')

theorem GivesNone.not_gives {s : Song} (hnone : GivesNone h p) : ¬ Gives h p s := by
  rintro ⟨bytes, text, document, hread, hutf8, hjson, hsong⟩
  cases hnone with
  | unreadable hrefused => exact nomatch hrefused.symm.trans hread
  | notText hread' hnotUtf8 =>
    obtain rfl := Except.ok.inj (hread.symm.trans hread')
    exact nomatch hnotUtf8.symm.trans hutf8
  | notJson hread' hutf8' hmalformed =>
    obtain rfl := Except.ok.inj (hread.symm.trans hread')
    obtain rfl := Option.some.inj (hutf8.symm.trans hutf8')
    exact nomatch hmalformed.symm.trans hjson
  | invalid hread' hutf8' hjson' hrejected =>
    obtain rfl := Except.ok.inj (hread.symm.trans hread')
    obtain rfl := Option.some.inj (hutf8.symm.trans hutf8')
    obtain rfl := Except.ok.inj (hjson.symm.trans hjson')
    exact nomatch hrejected.symm.trans hsong

/-- Both ways to read a song from a file give the same song, tell the same broken rule, or fail. -/
structure Classified (h : Host) (p : Path) : Prop where
  valid : ∀ s, readSong h p = .ok (.valid s) ↔ h.songAt p = .ok s
  invalid : ∀ rejection, readSong h p = .ok (.invalid rejection) ↔
    h.songAt p = .error (.document (.rejected rejection))
  failed : (∃ chain, readSong h p = .error chain) ↔
    ∃ error, h.songAt p = .error error ∧ ∀ rejection, error ≠ .document (.rejected rejection)

private theorem classified (h : Host) (p : Path) : Classified h p := by
  obtain ⟨s, -, hfirst, hsecond⟩ |
    ⟨-, ⟨rejection, hfirst, hsecond⟩ | ⟨chain, error, hfirst, hsecond, hother⟩⟩ := reads h p
  all_goals constructor <;> simp_all

/-! ### Checking and compiling -/

/-- The directory of an output is there or can be made, if the output names one; `ready` is the disk
with it. -/
inductive Housed (output : Path) (working : Location) (d : Disk) : Disk → Prop where
  | unnamed (none : ∀ directory, output.parent? = some directory → directory.text = "") :
      Housed output working d d
  | there {directory : Path} (parent : output.parent? = some directory)
      (there : d.isDirectory working directory) : Housed output working d d
  | made {directory : Path} {ready : Disk} (parent : output.parent? = some directory)
      (made : d.makeDirectories working directory = (.ok (), ready))
      (there : ready.isDirectory working directory) : Housed output working d ready

/-- The directory of an output cannot be made; `left` is the disk with what was made of it. -/
def Unhoused (output : Path) (working : Location) (d left : Disk) : Prop :=
  ∃ directory error, output.parent? = some directory ∧ directory.text ≠ "" ∧
    d.makeDirectories working directory = (.error error, left)

/-- An output names no directory if it has none before its name, or an empty one. -/
theorem makeOutputDirectory_unnamed {output : Path}
    (hnone : ∀ directory, output.parent? = some directory → directory.text = "") :
    makeOutputDirectory output h = (.ok (), h) := by
  have hfiltered : output.parent?.filter (fun directory => directory.text ≠ "") = .none := by
    simpa [Option.filter_eq_none_iff] using hnone
  simp only [makeOutputDirectory, hfiltered]

/-- An output in a directory makes the directory. -/
theorem makeOutputDirectory_named {output directory : Path}
    (hparent : output.parent? = some directory) (hnamed : directory.text ≠ "") :
    makeOutputDirectory output h = match h.disk.makeDirectories h.working directory with
      | (.ok (), disk) => (.ok (), { h with disk := disk })
      | (.error error, disk) =>
        (.error ["failed to create output directory: " ++ directory.text, error.text],
          { h with disk := disk }) := by
  have hfiltered : output.parent?.filter (fun directory => directory.text ≠ "") = directory := by
    simp [hparent, hnamed]
  rcases hmade : h.disk.makeDirectories h.working directory with ⟨error | _, disk⟩ <;>
    simp only [makeOutputDirectory, hfiltered, hmade]

/-- The directory of an output is made exactly if it is there or can be made. -/
theorem makeOutputDirectory_eq_ok {output : Path} {after : Host} :
    makeOutputDirectory output h = (.ok (), after) ↔
      ∃ ready, Housed output h.working h.disk ready ∧ after = { h with disk := ready } := by
  constructor
  · intro hmade
    by_cases hnone : ∀ directory, output.parent? = some directory → directory.text = ""
    · rw [makeOutputDirectory_unnamed hnone] at hmade
      cases hmade
      exact ⟨_, .unnamed hnone, rfl⟩
    · push Not at hnone
      obtain ⟨directory, hparent, hnamed⟩ := hnone
      rw [makeOutputDirectory_named hparent hnamed] at hmade
      split at hmade
      · next disk hhere =>
        cases hmade
        exact ⟨disk, .made hparent hhere (Disk.isDirectory_of_makeDirectories hnamed hhere), rfl⟩
      · cases hmade
  · rintro ⟨ready, housed, rfl⟩
    cases housed with
    | unnamed hnone => exact makeOutputDirectory_unnamed hnone
    | there hparent hthere =>
      rw [makeOutputDirectory_named hparent (Disk.text_ne_of_isDirectory hthere),
        Disk.makeDirectories_of_isDirectory hthere]
    | made hparent hmade hthere =>
      rw [makeOutputDirectory_named hparent (Disk.text_ne_of_isDirectory hthere), hmade]

/-- The status of a command that has ended so. -/
def Verdict.status : Verdict → UInt8
  | exit status => status
  | failed _ => 1

private theorem status_printed (r : Result) : r.printed.status = r.verdict.status := by
  obtain ⟨output, verdict⟩ := r
  cases verdict <;> rfl

/-- A build that fails ends with status one, whether that is reported or is a failure of the
command. -/
theorem status_failureResult (output : Path) (failure : Failure) :
    (failureResult output failure).verdict.status = 1 := by
  cases failure <;> rfl

/-- The directory of an output is made on one disk only. -/
theorem Housed.unique {output : Path} {ready ready' : Disk}
    (housed : Housed output h.working h.disk ready)
    (housed' : Housed output h.working h.disk ready') : ready = ready' := by
  have hmade := makeOutputDirectory_eq_ok.2 ⟨ready, housed, rfl⟩
  have hmade' := makeOutputDirectory_eq_ok.2 ⟨ready', housed', rfl⟩
  exact congrArg (fun host => host.2.disk) (hmade.symm.trans hmade')

private theorem makeOutputDirectory_of_unhoused {output : Path} {left : Disk}
    (hunhoused : Unhoused output h.working h.disk left) :
    ∃ chain, makeOutputDirectory output h = (.error chain, { h with disk := left }) := by
  obtain ⟨directory, error, hparent, hnamed, hfailed⟩ := hunhoused
  exact ⟨_, by rw [makeOutputDirectory_named hparent hnamed, hfailed]⟩

/-- What compiling a song ends with: the status is zero exactly if the directory of the output is
there or can be made and the build succeeds, and the disk is the one that the build leaves, or the
one that is left where the directory cannot be made. -/
structure Compiled (s : Song) (output : Path) (settings : Settings) (h : Host) (status : UInt8)
    (d : Disk) : Prop where
  binary : status = 0 ∨ status = 1
  status_iff : status = 0 ↔ ∃ ready r, Housed output h.working h.disk ready ∧
    ((Build.make s output settings).run { h with disk := ready }).1 = .ok r
  housed : ∀ ready, Housed output h.working h.disk ready →
    d = ((Build.make s output settings).run { h with disk := ready }).2.disk
  unhoused : ∀ left, Unhoused output h.working h.disk left → d = left

theorem compiled_build (s : Song) (output : Path) (settings : Settings) (h : Host) :
    Compiled s output settings h (build s output settings h).1.verdict.status
      (build s output settings h).2.disk := by
  unfold build
  cases hmade : makeOutputDirectory output h with
  | mk result after =>
  cases result with
  | error chain =>
    have hapart : (1 : UInt8) ≠ 0 := by decide
    have hnot_housed (ready : Disk) : ¬ Housed output h.working h.disk ready := fun housed =>
      nomatch hmade.symm.trans (makeOutputDirectory_eq_ok.2 ⟨ready, housed, rfl⟩)
    refine ⟨.inr rfl, iff_of_false hapart ?_, fun ready housed => absurd housed (hnot_housed ready),
      fun left hunhoused => ?_⟩
    · rintro ⟨ready, -, housed, -⟩
      exact hnot_housed ready housed
    · obtain ⟨chain', hfailed⟩ := makeOutputDirectory_of_unhoused hunhoused
      exact congrArg (fun host => host.2.disk) (hmade.symm.trans hfailed)
  | ok _ =>
    obtain ⟨ready, housed, rfl⟩ := makeOutputDirectory_eq_ok.1 hmade
    have hnot_unhoused (left : Disk) : ¬ Unhoused output h.working h.disk left := fun hunhoused =>
      (makeOutputDirectory_of_unhoused hunhoused).elim fun _ hfailed =>
        nomatch hmade.symm.trans hfailed
    dsimp only
    cases hran : (Build.make s output settings).run { h with disk := ready } with
    | mk result last =>
    have hdisk (ready' : Disk) (housed' : Housed output h.working h.disk ready') :
        last.disk = ((Build.make s output settings).run { h with disk := ready' }).2.disk := by
      obtain rfl := housed.unique housed'
      rw [hran]
    cases result with
    | ok r =>
      exact ⟨.inl rfl, iff_of_true rfl ⟨ready, r, housed, by rw [hran]⟩, hdisk,
        fun left hunhoused => absurd hunhoused (hnot_unhoused left)⟩
    | error failure =>
      have hone := status_failureResult output failure
      refine ⟨.inr hone, iff_of_false (by dsimp only; rw [hone]; decide) ?_, hdisk,
        fun left hunhoused => absurd hunhoused (hnot_unhoused left)⟩
      rintro ⟨ready', r, housed', hsucceeded⟩
      obtain rfl := housed.unique housed'
      rw [hran] at hsucceeded
      cases hsucceeded

/-- Checking writes nothing and tells by its status whether the file gives a song. -/
theorem check_effects (h : Host) (input : Path) :
    (check input h).2.disk = h.disk ∧
      ((check input h).1.verdict.status = 0 ∧ (∃ s, Gives h input s) ∨
        (check input h).1.verdict.status = 1 ∧ GivesNone h input) := by
  unfold check
  obtain ⟨s, hgiven, hread, -⟩ | ⟨hnone, ⟨rejection, hread, -⟩ | ⟨chain, error, hread, -⟩⟩ :=
    reads h input
  all_goals rw [hread]
  · exact ⟨rfl, .inl ⟨rfl, s, hgiven⟩⟩
  · exact ⟨rfl, .inr ⟨rfl, hnone⟩⟩
  · exact ⟨rfl, .inr ⟨rfl, hnone⟩⟩

theorem compile_of_none {input output : Path} {settings : Settings} (hnone : GivesNone h input) :
    (compile input output settings h).1.verdict.status = 1 ∧
      (compile input output settings h).2.disk = h.disk := by
  unfold compile
  obtain ⟨s, hgiven, -⟩ | ⟨-, ⟨rejection, hread, -⟩ | ⟨chain, error, hread, -⟩⟩ := reads h input
  · exact absurd hgiven hnone.not_gives
  all_goals
    rw [hread]
    exact ⟨rfl, rfl⟩

theorem compile_of_gives {input output : Path} {settings : Settings} {s : Song}
    (hgiven : Gives h input s) :
    Compiled s output settings (h.note .debug ((Finding.valid s).line input))
      (compile input output settings h).1.verdict.status
      (compile input output settings h).2.disk := by
  unfold compile
  obtain ⟨s', hgiven', hread, -⟩ | ⟨hnone, -⟩ := reads h input
  · obtain rfl := hgiven.unique hgiven'
    rw [hread]
    exact compiled_build s output settings _
  · exact absurd hgiven hnone.not_gives

/-! ### Command lines -/

/-- A draft asks for a run with an output unless it only checks. -/
theorem Draft.names_output {d : Draft} {o : Options} (hasked : d.finish? = some (.run o)) :
    o.checkOnly ∨ ∃ output, o.output? = some output := by
  unfold finish? at hasked
  dsimp only at hasked
  split at hasked
  · cases hasked
    exact .inr ⟨_, rfl⟩
  · split at hasked
    · next honly =>
      cases hasked
      exact .inl honly
    · cases hasked
  · cases hasked

private theorem readPaths?_names_output {d : Draft} {arguments : List String} {o : Options}
    (hasked : readPaths? d arguments = some (.run o)) :
    o.checkOnly ∨ ∃ output, o.output? = some output := by
  induction arguments generalizing d with
  | nil => exact Draft.names_output hasked
  | cons argument rest ih =>
    obtain ⟨d', -, hasked⟩ := Option.bind_eq_some_iff.1 hasked
    exact ih hasked

private theorem shortOptions?_ne_run {d : Draft} {letters : List Char} {o : Options} :
    shortOptions? d letters ≠ some (.inr (.run o)) := by
  fun_induction shortOptions? d letters <;> simp_all

private theorem readArguments?_names_output {d : Draft} {arguments : List String} {o : Options}
    (hasked : readArguments? d arguments = some (.run o)) :
    o.checkOnly ∨ ∃ output, o.output? = some output := by
  -- An argument changes the draft, which is read on, or it ends the command line.
  have hgoesOn {draft? : Option Draft} {rest : List String}
      (ih : ∀ d, readArguments? d rest = some (.run o) →
        o.checkOnly ∨ ∃ output, o.output? = some output)
      (hasked : (draft?.bind fun d => readArguments? d rest) = some (.run o)) :
      o.checkOnly ∨ ∃ output, o.output? = some output := by
    obtain ⟨d, -, hasked⟩ := Option.bind_eq_some_iff.1 hasked
    exact ih d hasked
  fun_induction readArguments? d arguments with
  | case1 => exact Draft.names_output hasked
  | case3 => exact readPaths?_names_output hasked
  | case5 d argument rest letters hshort request hletters_eq =>
    obtain rfl := Option.some.inj hasked
    exact absurd hletters_eq shortOptions?_ne_run
  | case4 | case8 => exact ‹readArguments? _ _ = _ → _› hasked
  | case2 | case7 | case11 | case13 => exact hgoesOn ‹_› hasked
  | case6 | case9 | case10 | case12 | case14 => cases hasked

/-- A command line that asks for a run names an output unless it only checks. -/
theorem names_output {arguments : List String} {o : Options}
    (hasked : parseArguments arguments = some (.run o)) :
    o.checkOnly ∨ ∃ output, o.output? = some output :=
  readArguments?_names_output hasked

/-- What a command line that asks for a run does: the status that it ends with, and the disk that it
leaves. -/
structure Effects (o : Options) (h : Host) (status : UInt8) (d : Disk) : Prop where
  binary : status = 0 ∨ status = 1
  none : GivesNone h o.input → status = 1 ∧ d = h.disk
  checked : o.checkOnly → d = h.disk ∧ (status = 0 ↔ ∃ s, Gives h o.input s)
  compiled : ¬ o.checkOnly → ∃ output, o.output? = some output ∧ ∀ s, Gives h o.input s →
    Compiled s output o.settings (h.note .debug ((Finding.valid s).line o.input)) status d

/-- Doing what options ask for, which name an output unless they only ask to check. -/
theorem effects_perform {o : Options} (hnamed : o.checkOnly ∨ ∃ output, o.output? = some output)
    (h : Host) : Effects o h (perform o h).1.verdict.status (perform o h).2.disk := by
  unfold perform
  by_cases honly : o.checkOnly
  · rw [if_pos honly]
    obtain ⟨hsame, ⟨hzero, s, hgiven⟩ | ⟨hone, hnone⟩⟩ := check_effects h o.input
    · exact ⟨.inl hzero, fun hnone => absurd hgiven hnone.not_gives,
        fun _ => ⟨hsame, iff_of_true hzero ⟨s, hgiven⟩⟩, fun hother => absurd honly hother⟩
    · refine ⟨.inr hone, fun _ => ⟨hone, hsame⟩, fun _ => ⟨hsame, ?_⟩,
        fun hother => absurd honly hother⟩
      exact iff_of_false (by rw [hone]; decide) fun ⟨s, hgiven⟩ => hnone.not_gives hgiven
  · obtain ⟨output, houtput_eq⟩ := hnamed.resolve_left honly
    rw [if_neg honly, houtput_eq]
    dsimp only
    refine ⟨?_, compile_of_none, fun hother => absurd hother honly,
      fun _ => ⟨output, houtput_eq, fun s hgiven => compile_of_gives hgiven⟩⟩
    obtain ⟨s, hgiven, -⟩ | ⟨hnone, -⟩ := reads h o.input
    · exact (compile_of_gives hgiven).binary
    · exact .inr (compile_of_none hnone).1

/-- **Effects of commands.** Every command line that asks for a run ends with status zero or one.
If the file gives no song, the status is one and the disk is as it was. Checking leaves the disk as
it was, and the status tells whether the file gives a song, with or without an output. Compiling a
song ends with status zero exactly if the directory of the output is there or can be made and the
build succeeds, and leaves the disk as the build does. Both ways to read a song from a file agree on
every file. -/
theorem run_effects :
    (∀ arguments o h, parseArguments arguments = some (.run o) →
      Effects o h (run arguments h).1.status (run arguments h).2.disk) ∧
    ∀ h p, Classified h p := by
  refine ⟨fun arguments o h hasked => ?_, classified⟩
  have heffects := effects_perform (names_output hasked) h
  rw [← status_printed] at heffects
  simpa only [run, hasked] using heffects

private theorem toText?_ofText (text : String) : (Bytes.ofText text).toText? = some text := by
  have hvalid : (⟨text.toUTF8.data.toList.toArray⟩ : ByteArray).IsValidUTF8 := text.isValidUTF8
  exact dif_pos hvalid

/-- A host with one file, which gives a song. -/
def songHost : Host where
  disk := { entries := [(["song.json"], .file (Bytes.ofText sampleSong.text) false)] }
  working := []
  assemblerVariable := none
  searchPath := []
  load := fun _ => none
  log := []

/-- What is asked for when the song of that file is to be compiled into a new directory. -/
def asks : Options :=
  ⟨⟨"song.json"⟩, some ⟨"new/song.asm"⟩, none, 60, false, 0⟩

/-- The disk of that host with the directory of the output. -/
def readyDisk : Disk :=
  songHost.disk.put ["new"] .directory

private theorem gives_songHost : Gives songHost ⟨"song.json"⟩ sampleSong := by
  have hwell : sampleSong.WellFormed := Song.wellFormed_of_ofJson ofJson_sampleSong
  exact ⟨_, _, _, rfl, toText?_ofText _, sampleSong.parse_text,
    Song.ofJson_eq_ok.2 ⟨sampleSong.givenBy_toJson, hwell⟩⟩

private theorem housed_songHost : Housed ⟨"new/song.asm"⟩ [] songHost.disk readyDisk := by
  have hparent : Path.parent? ⟨"new/song.asm"⟩ = some ⟨"new"⟩ := by decide
  exact .made hparent rfl rfl

theorem artifacts_newSong : Artifacts.ofOutput ⟨"new/song.asm"⟩ =
    ⟨⟨"new/song.asm"⟩, ⟨"new/song_sid.asm"⟩, ⟨"new/song_sid.prg"⟩, ⟨"new/song.sid"⟩⟩ := by
  decide

private theorem prepared_readyDisk (sources : Player.Sources) :
    ∃ d, Prepared sources (.ofOutput ⟨"new/song.asm"⟩) [] readyDisk d := by
  let d₁ := readyDisk.put ["new", "song.asm"] (.file (Bytes.ofText sources.standalone) false)
  let d₂ := d₁.put ["new", "song_sid.asm"] (.file (Bytes.ofText sources.library) false)
  rw [artifacts_newSong]
  have hstandalone : readyDisk.write [] ⟨"new/song.asm"⟩ (Bytes.ofText sources.standalone) =
    .ok d₁ := rfl
  have hlibrary : d₁.write [] ⟨"new/song_sid.asm"⟩ (Bytes.ofText sources.library) = .ok d₂ := rfl
  exact ⟨d₂, .intro hstandalone hlibrary (.missing rfl) (.missing rfl)⟩

/-- Without an assembler a build ends well there and leaves its sources. -/
theorem make_readyDisk (s : Song) {settings : Settings} (hunnamed : settings.assembler? = none)
    {h : Host} {message : String} (hnoted : h = songHost.note .debug message) :
    let run := (Build.make s ⟨"new/song.asm"⟩ settings).run { h with disk := readyDisk }
    (∃ r, run.1 = .ok r) ∧ HoldsSources s ⟨"new/song.asm"⟩ songHost run.2.disk := by
  obtain ⟨result, d, ⟨log, hrun⟩, hcourse⟩ :=
    exists_course s ⟨"new/song.asm"⟩ settings { h with disk := readyDisk }
  have hcandid (place : Location) : readyDisk.refusal .remove place ≠ some .notFound := by
    intro hdenied
    exact nomatch (rfl : readyDisk.refusal .remove place = none).symm.trans hdenied
  have hcareful (contents : Bytes) (program : Host.Program)
      (hloaded : h.load contents = some program) : Careful program := by
    subst hnoted
    exact nomatch (rfl : songHost.load contents = none).symm.trans hloaded
  have htold : Told s ⟨"new/song.asm"⟩ settings { h with disk := readyDisk } result d :=
    hcourse.told hcandid hcareful
  have hdistinct : (Artifacts.ofOutput ⟨"new/song.asm"⟩).conflict? = none := by
    rw [artifacts_newSong]
    rfl
  subst hnoted
  obtain ⟨before, hprepared⟩ := prepared_readyDisk (sourcesOf s)
  have habsent : located? settings (songHost.after before []) = none := by
    rw [located?, hunnamed]
    rfl
  obtain ⟨r, rfl, hnone⟩ :=
    htold.sourcesOnly_iff.2 ⟨hdistinct, before, hprepared, unlocated_iff.2 habsent⟩
  rw [hrun]
  exact ⟨⟨r, rfl⟩, (htold.sourcesOnly r rfl hnone).1⟩

/-- The song of a file is found valid and compiled into a new directory, and from a file that is
absent nothing is compiled: not even the directory of the output is made. -/
theorem run_effects_songHost :
    parseArguments ["--check", "song.json"] =
      some (.run ⟨⟨"song.json"⟩, none, none, 60, true, 0⟩) ∧
    (run ["--check", "song.json"] songHost).1.status = 0 ∧
    parseArguments ["absent.json", "new/song.asm"] =
      some (.run ⟨⟨"absent.json"⟩, some ⟨"new/song.asm"⟩, none, 60, false, 0⟩) ∧
    (run ["absent.json", "new/song.asm"] songHost).1.status = 1 ∧
    (run ["absent.json", "new/song.asm"] songHost).2.disk = songHost.disk ∧
    parseArguments ["song.json", "new/song.asm"] = some (.run asks) ∧
    (run ["song.json", "new/song.asm"] songHost).1.status = 0 ∧
    HoldsSources sampleSong ⟨"new/song.asm"⟩ songHost
      (run ["song.json", "new/song.asm"] songHost).2.disk := by
  have hasked : parseArguments ["--check", "song.json"] =
      some (.run ⟨⟨"song.json"⟩, none, none, 60, true, 0⟩) := by decide
  have hasked' : parseArguments ["absent.json", "new/song.asm"] =
      some (.run ⟨⟨"absent.json"⟩, some ⟨"new/song.asm"⟩, none, 60, false, 0⟩) := by decide
  have hasked'' : parseArguments ["song.json", "new/song.asm"] = some (.run asks) := by decide
  have habsent : GivesNone songHost ⟨"absent.json"⟩ := .unreadable rfl
  have heffects := run_effects.1 _ _ songHost hasked
  have heffects' := run_effects.1 _ _ songHost hasked'
  obtain ⟨output, houtput_eq, hcompiled⟩ :=
    (run_effects.1 _ _ songHost hasked'').compiled Bool.false_ne_true
  obtain rfl := Option.some.inj houtput_eq
  have hcompiled := hcompiled sampleSong gives_songHost
  obtain ⟨⟨r, hmade⟩, hsources⟩ :=
    make_readyDisk sampleSong (show asks.settings.assembler? = none from rfl) rfl
  refine ⟨hasked, (heffects.checked rfl).2.2 ⟨_, gives_songHost⟩, hasked',
    (heffects'.none habsent).1, (heffects'.none habsent).2, hasked'', ?_, ?_⟩
  · exact hcompiled.status_iff.2 ⟨_, r, housed_songHost, hmade⟩
  · rw [hcompiled.housed _ housed_songHost]
    exact hsources

end SidTune.Command
