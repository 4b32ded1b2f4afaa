import SidTune.Build.Make

/-!
# The course of a build

A build changes nothing of its host but the disk and the log. So it is told by what it gives and the
disk that it leaves. It may be refused because two of its files would be one, be halted while it
writes the sources and clears the way, or come as far as the assembler, which decides how it ends.

## Main definitions

* `SidTune.Build.Leaves`: what a job gives on a host and the disk that it leaves.
* `SidTune.Build.Prepared`, `SidTune.Build.Halted`: how the part before the assembler ends.
* `SidTune.Build.Assembly`: how a run of the assembler ends.
* `SidTune.Build.Course`: how a build ends.

## Main results

* `SidTune.Build.exists_course`: every build takes one of these courses.
-/

namespace SidTune

/-- A host with another disk and log. -/
def Host.after (h : Host) (disk : Disk) (log : List Host.Record) : Host :=
  { h with disk := disk, log := log }

@[simp] theorem Host.after_disk (h : Host) (disk : Disk) (log : List Host.Record) :
    (h.after disk log).disk = disk := rfl

@[simp] theorem Host.after_after (h : Host) (disk disk' : Disk) (log log' : List Host.Record) :
    (h.after disk log).after disk' log' = h.after disk' log' := rfl

/-- A program is looked for without regard to the log. -/
theorem Host.executableIn_after (h : Host) (log : List Host.Record) (name : String) (told : OsError)
    (directories : List Path) : (h.after h.disk log).executableIn name told directories =
      h.executableIn name told directories := by
  induction directories generalizing told with
  | nil => rfl
  | cons directory rest ih =>
    unfold executableIn
    generalize directory.child name = p
    have hhere : (h.after h.disk log).executableAt p = h.executableAt p := rfl
    simp only [hhere, ih]

@[simp] theorem Host.run_after (h : Host) (log : List Host.Record) (p : Path)
    (arguments : List String) : (h.after h.disk log).run p arguments = h.run p arguments := by
  have hresolved : (h.after h.disk log).resolve p = h.resolve p := by
    have hhere : (h.after h.disk log).executableAt p = h.executableAt p := rfl
    simp only [resolve, hhere]
    exact congrArg _ (executableIn_after h log _ _ _)
  simp only [run, hresolved]
  rfl

namespace Build

variable {α β : Type} {h : Host} {d d' : Disk}

/-! ### Jobs -/

/-- What a job gives on a host, and the disk that it leaves. -/
def Leaves (job : Job α) (h : Host) (result : Except Failure α) (d : Disk) : Prop :=
  ∃ log, job.run h = (result, h.after d log)

/-- A job in two parts goes on after the first unless that fails. -/
theorem run_bind (job : Job α) (next : α → Job β) (h : Host) : (job >>= next).run h =
    match job.run h with
    | (.ok a, h) => (next a).run h
    | (.error failure, h) => (.error failure, h) := by
  have hran : job.run h = StateT.run (ExceptT.run job) h := rfl
  change StateT.run (ExceptT.run (job >>= next)) h = _
  rw [ExceptT.run_bind, StateT.run_bind, hran]
  rcases StateT.run (ExceptT.run job) h with ⟨_ | _, _⟩ <;> rfl

/-- A job with a second one for its failures starts the second if the first fails. -/
theorem run_tryCatch (job : Job α) (second : Failure → Job α) (h : Host) :
    (tryCatch job second).run h = match job.run h with
      | (.ok a, h) => (.ok a, h)
      | (.error failure, h) => (second failure).run h := by
  simp only [tryCatch, tryCatchThe, MonadExceptOf.tryCatch, ExceptT.tryCatch, ExceptT.run,
    ExceptT.mk, bind, StateT.bind]
  rcases job h with ⟨_ | _, _⟩ <;> rfl

namespace Leaves

variable {job : Job α} {next : α → Job β} {a : α} {failure : Failure} {result : Except Failure β}

theorem pure (a : α) : Leaves (Pure.pure a) h (.ok a) h.disk :=
  ⟨h.log, rfl⟩

theorem throw (failure : Failure) :
    Leaves (MonadExcept.throw failure : Job α) h (.error failure) h.disk :=
  ⟨h.log, rfl⟩

theorem note (level : Host.Level) (message : String) :
    Leaves (Build.note level message) h (.ok ()) h.disk :=
  ⟨_, rfl⟩

/-- A job goes on with what the first part gives, on the disk that it leaves. -/
theorem bind (hfirst : Leaves job h (.ok a) d)
    (hrest : ∀ log, Leaves (next a) (h.after d log) result d') :
    Leaves (job >>= next) h result d' := by
  obtain ⟨log, hfirst⟩ := hfirst
  obtain ⟨log', hrest⟩ := hrest log
  exact ⟨log', by rw [run_bind, hfirst]; exact hrest⟩

theorem bind_error (hfirst : Leaves job h (.error failure) d) :
    Leaves (job >>= next) h (.error failure) d := by
  obtain ⟨log, hfirst⟩ := hfirst
  exact ⟨log, by rw [run_bind, hfirst]⟩

theorem get_bind {next : Host → Job α} {result : Except Failure α}
    (hrest : Leaves (next h) h result d) : Leaves (MonadState.get >>= next) h result d := by
  obtain ⟨log, hrest⟩ := hrest
  exact ⟨log, by rw [run_bind]; exact hrest⟩

theorem map {f : α → β} (hfirst : Leaves job h (.ok a) d) : Leaves (f <$> job) h (.ok (f a)) d := by
  have hsplit : f <$> job = job >>= fun a => Pure.pure (f a) := map_eq_pure_bind f job
  rw [hsplit]
  exact .bind hfirst fun log => .pure (f a)

theorem map_error {f : α → β} (hfirst : Leaves job h (.error failure) d) :
    Leaves (f <$> job) h (.error failure) d := by
  have hsplit : f <$> job = job >>= fun a => Pure.pure (f a) := map_eq_pure_bind f job
  rw [hsplit]
  exact .bind_error hfirst

theorem tryCatch {second : Failure → Job α} (hfirst : Leaves job h (.ok a) d) :
    Leaves (MonadExcept.tryCatch job second) h (.ok a) d := by
  obtain ⟨log, hfirst⟩ := hfirst
  exact ⟨log, by rw [run_tryCatch, hfirst]⟩

/-- The second job starts on the disk that the first leaves. -/
theorem tryCatch_error {second : Failure → Job α} {result : Except Failure α}
    (hfirst : Leaves job h (.error failure) d)
    (hrest : ∀ log, Leaves (second failure) (h.after d log) result d') :
    Leaves (MonadExcept.tryCatch job second) h result d' := by
  obtain ⟨log, hfirst⟩ := hfirst
  obtain ⟨log', hrest⟩ := hrest log
  exact ⟨log', by rw [run_tryCatch, hfirst]; exact hrest⟩

theorem set (log : List Host.Record) :
    Leaves (MonadState.set (h.after d log) : Job PUnit) h (.ok ⟨⟩) d :=
  ⟨log, rfl⟩

end Leaves

/-! ### Before the assembler -/

/-- A disk on which nothing is at a path that may have led to a file of another disk. -/
inductive Cleared (d : Disk) (working : Location) (p : Path) : Disk → Prop where
  | removed {d' : Disk} (removed : d.remove working p = .ok d') : Cleared d working p d'
  | missing (missing : d.remove working p = .error .notFound) : Cleared d working p d

section Files

variable {p : Path} {contents : Bytes} {cause : OsError}

theorem leaves_store (hwritten : h.disk.write h.working p contents = .ok d) :
    Leaves (store p contents) h (.ok ()) d :=
  .get_bind (by simp only [hwritten]; exact .set h.log)

theorem leaves_store_error (hfailed : h.disk.write h.working p contents = .error cause) :
    Leaves (store p contents) h (.error (.notWritten p cause)) h.disk :=
  .get_bind (by simp only [hfailed]; exact .throw _)

theorem leaves_writeSource {text : String}
    (hwritten : h.disk.write h.working p (Bytes.ofText text) = .ok d) :
    Leaves (writeSource p text) h (.ok ()) d :=
  .bind (leaves_store hwritten) fun _ => .note _ _

theorem leaves_writeSource_error {text : String}
    (hfailed : h.disk.write h.working p (Bytes.ofText text) = .error cause) :
    Leaves (writeSource p text) h (.error (.notWritten p cause)) h.disk :=
  .bind_error (leaves_store_error hfailed)

theorem leaves_discard (hcleared : Cleared h.disk h.working p d) :
    Leaves (discard p) h (.ok ()) d := by
  refine .get_bind ?_
  cases hcleared with
  | removed hremoved =>
    simp only [hremoved]
    exact .bind (.set h.log) fun _ => .note _ _
  | missing hmissing =>
    simp only [hmissing]
    exact .pure ()

theorem leaves_discard_error (hfailed : h.disk.remove h.working p = .error cause)
    (hthere : cause ≠ .notFound) : Leaves (discard p) h (.error (.notWritten p cause)) h.disk := by
  refine .get_bind ?_
  simp only [hfailed]
  cases cause <;> first | exact absurd rfl hthere | exact .throw _

end Files

/-- The disk of a build before the assembler is looked for: both sources have been written, and what
an earlier build may have left has been removed. -/
inductive Prepared (sources : Player.Sources) (a : Artifacts) (working : Location) (d₀ : Disk) :
    Disk → Prop where
  | intro {d₁ d₂ d₃ d : Disk}
      (standalone : d₀.write working a.standaloneSource (Bytes.ofText sources.standalone) = .ok d₁)
      (library : d₁.write working a.librarySource (Bytes.ofText sources.library) = .ok d₂)
      (image : Cleared d₂ working a.image d₃) (packaged : Cleared d₃ working a.packaged d) :
      Prepared sources a working d₀ d

/-- A build that is halted by an operation on one of its files, and the disk on which it is. -/
inductive Halted (sources : Player.Sources) (a : Artifacts) (working : Location) (d₀ : Disk) :
    Path → OsError → Disk → Prop where
  | standalone {cause : OsError}
      (failed : d₀.write working a.standaloneSource (Bytes.ofText sources.standalone) =
        .error cause) :
      Halted sources a working d₀ a.standaloneSource cause d₀
  | library {d₁ : Disk} {cause : OsError}
      (standalone : d₀.write working a.standaloneSource (Bytes.ofText sources.standalone) = .ok d₁)
      (failed : d₁.write working a.librarySource (Bytes.ofText sources.library) = .error cause) :
      Halted sources a working d₀ a.librarySource cause d₁
  | image {d₁ d₂ : Disk} {cause : OsError}
      (standalone : d₀.write working a.standaloneSource (Bytes.ofText sources.standalone) = .ok d₁)
      (library : d₁.write working a.librarySource (Bytes.ofText sources.library) = .ok d₂)
      (failed : d₂.remove working a.image = .error cause) (there : cause ≠ .notFound) :
      Halted sources a working d₀ a.image cause d₂
  | packaged {d₁ d₂ d₃ : Disk} {cause : OsError}
      (standalone : d₀.write working a.standaloneSource (Bytes.ofText sources.standalone) = .ok d₁)
      (library : d₁.write working a.librarySource (Bytes.ofText sources.library) = .ok d₂)
      (image : Cleared d₂ working a.image d₃)
      (failed : d₃.remove working a.packaged = .error cause) (there : cause ≠ .notFound) :
      Halted sources a working d₀ a.packaged cause d₃

section Unique

variable {working : Location} {p : Path} {sources : Player.Sources} {a : Artifacts} {d₀ : Disk}

/-- What clearing a path leaves is determined. -/
theorem Cleared.unique {d₁ d₂ : Disk} (hcleared : Cleared d working p d₁)
    (hcleared' : Cleared d working p d₂) : d₁ = d₂ := by
  cases hcleared with
  | removed hremoved =>
    cases hcleared' with
    | removed hremoved' => exact Except.ok.inj (hremoved.symm.trans hremoved')
    | missing hmissing => exact nomatch hremoved.symm.trans hmissing
  | missing hmissing =>
    cases hcleared' with
    | removed hremoved => exact nomatch hmissing.symm.trans hremoved
    | missing => rfl

/-- A path that is cleared does not halt a build. -/
theorem Cleared.not_failed {cause : OsError} (hcleared : Cleared d working p d')
    (hfailed : d.remove working p = .error cause) : cause = .notFound := by
  cases hcleared with
  | removed hremoved => exact nomatch hremoved.symm.trans hfailed
  | missing hmissing => exact (Except.error.inj (hmissing.symm.trans hfailed)).symm

/-- There is one disk on which the assembler is looked for. -/
theorem Prepared.unique (hprepared : Prepared sources a working d₀ d)
    (hprepared' : Prepared sources a working d₀ d') : d = d' := by
  obtain ⟨hstandalone, hlibrary, himage, hpackaged⟩ := hprepared
  obtain ⟨hstandalone', hlibrary', himage', hpackaged'⟩ := hprepared'
  obtain rfl := Except.ok.inj (hstandalone.symm.trans hstandalone')
  obtain rfl := Except.ok.inj (hlibrary.symm.trans hlibrary')
  obtain rfl := himage.unique himage'
  exact hpackaged.unique hpackaged'

/-- A build that comes as far as the assembler is not halted before. -/
theorem Prepared.not_halted {cause : OsError} (hprepared : Prepared sources a working d₀ d) :
    ¬ Halted sources a working d₀ p cause d' := by
  obtain ⟨hstandalone, hlibrary, himage, hpackaged⟩ := hprepared
  intro hhalted
  cases hhalted with
  | standalone hfailed => exact nomatch hstandalone.symm.trans hfailed
  | library hstandalone' hfailed =>
    obtain rfl := Except.ok.inj (hstandalone.symm.trans hstandalone')
    exact nomatch hlibrary.symm.trans hfailed
  | image hstandalone' hlibrary' hfailed hthere =>
    obtain rfl := Except.ok.inj (hstandalone.symm.trans hstandalone')
    obtain rfl := Except.ok.inj (hlibrary.symm.trans hlibrary')
    exact hthere (himage.not_failed hfailed)
  | packaged hstandalone' hlibrary' himage' hfailed hthere =>
    obtain rfl := Except.ok.inj (hstandalone.symm.trans hstandalone')
    obtain rfl := Except.ok.inj (hlibrary.symm.trans hlibrary')
    obtain rfl := himage.unique himage'
    exact hthere (hpackaged.not_failed hfailed)

end Unique

/-! ### The assembler -/

/-- The path of the assembler, if there is one. -/
def located? (s : Settings) (h : Host) : Option Path :=
  match s.assembler? with
  | some path => if h.disk.exists? h.working path then some path else none
  | none => variableChoice? h <|> h.search? assemblerName

/-- What becomes of a run of the assembler that is there. -/
def Ran (s : Settings) (source output : Path) (h : Host) (outcome : Host.Outcome) : Prop :=
  ∃ assembler, located? s h = some assembler ∧
    h.run assembler (arguments source output) = .ok outcome

/-- How the step of the assembler ends: what it gives, and the disk that it leaves. -/
inductive Assembly (s : Settings) (source output : Path) (h : Host) :
    Except Failure Bytes → Disk → Prop where
  | unavailable (absent : located? s h = none) :
      Assembly s source output h (.error .noAssembler) h.disk
  | notStarted {assembler : Path} {cause : OsError} (located : located? s h = some assembler)
      (failed : h.run assembler (arguments source output) = .error cause) :
      Assembly s source output h (.error (.notStarted cause)) h.disk
  | failed {outcome : Host.Outcome} {status : UInt8} (ran : Ran s source output h outcome)
      (ended : outcome.ending = .exited status) (nonzero : status ≠ 0) :
      Assembly s source output h
        (.error (.assemblerError status.toNat (errorText s outcome.errors))) outcome.disk
  | killed {outcome : Host.Outcome} (ran : Ran s source output h outcome)
      (ended : outcome.ending = .killed) :
      Assembly s source output h (.error (.assemblerError (-1) (errorText s outcome.errors)))
        outcome.disk
  | outOfTime {outcome : Host.Outcome} (ran : Ran s source output h outcome)
      (ended : outcome.ending = .stillRunning) :
      Assembly s source output h (.error (.outOfTime s.timeLimit)) outcome.disk
  | noImage {outcome : Host.Outcome} (ran : Ran s source output h outcome)
      (ended : outcome.ending = .exited 0)
      (absent : outcome.disk.exists? h.working output = false) :
      Assembly s source output h (.error (.noImage output)) outcome.disk
  | unreadable {outcome : Host.Outcome} {cause : OsError} (ran : Ran s source output h outcome)
      (ended : outcome.ending = .exited 0)
      (failed : outcome.disk.read h.working output = .error cause) :
      Assembly s source output h (.error (.unreadable cause)) outcome.disk
  | assembled {outcome : Host.Outcome} {image : Bytes} (ran : Ran s source output h outcome)
      (ended : outcome.ending = .exited 0)
      (read : outcome.disk.read h.working output = .ok image) :
      Assembly s source output h (.ok image) outcome.disk

theorem Ran.unique {s : Settings} {source output : Path} {outcome outcome' : Host.Outcome}
    (hran : Ran s source output h outcome) (hran' : Ran s source output h outcome') :
    outcome = outcome' := by
  obtain ⟨assembler, hlocated, hrun⟩ := hran
  obtain ⟨assembler', hlocated', hrun'⟩ := hran'
  obtain rfl := Option.some.inj (hlocated.symm.trans hlocated')
  exact Except.ok.inj (hrun.symm.trans hrun')

theorem leaves_locate {s : Settings} {assembler : Path} (hlocated : located? s h = some assembler) :
    Leaves (locate s) h (.ok assembler) h.disk := by
  refine .get_bind ?_
  unfold located? at hlocated
  cases hgiven : s.assembler? with
  | some path =>
    simp only [hgiven] at hlocated
    split at hlocated
    · next hthere =>
      simp only [hthere, if_true]
      exact Option.some_inj.1 hlocated ▸ .pure path
    · cases hlocated
  | none =>
    simp only [hgiven] at hlocated
    simp only [hlocated]
    exact .pure assembler

theorem leaves_locate_error {s : Settings} (habsent : located? s h = none) :
    Leaves (locate s) h (.error .noAssembler) h.disk := by
  refine .get_bind ?_
  unfold located? at habsent
  cases hgiven : s.assembler? with
  | some path =>
    simp only [hgiven] at habsent
    split at habsent
    · cases habsent
    · next hmissing =>
      simp only [hmissing]
      exact .bind (.note _ _) fun _ => .throw _
  | none =>
    simp only [hgiven] at habsent
    simp only [habsent]
    exact .throw _

theorem leaves_checkEnding_error {s : Settings} {errors : Bytes} {status : UInt8}
    (hnonzero : status ≠ 0) : Leaves (checkEnding s errors (.exited status)) h
      (.error (.assemblerError status.toNat (errorText s errors))) h.disk := by
  unfold checkEnding
  split
  · next h => cases h; exact absurd rfl hnonzero
  · next h => cases h; exact .throw _
  · next h => cases h
  · next h => cases h

/-- What is done once a run of the assembler is over. -/
def collect (s : Settings) (output : Path) (working : Location) (outcome : Host.Outcome) :
    Job Bytes := do
  checkEnding s outcome.errors outcome.ending
  if !outcome.disk.exists? working output then throw (.noImage output)
  match outcome.disk.read working output with
  | .error error => throw (.unreadable error)
  | .ok image => return image

theorem leaves_assemble {s : Settings} {source output : Path} {outcome : Host.Outcome}
    {result : Except Failure Bytes} (hran : Ran s source output h outcome)
    (hrest : ∀ log, Leaves (collect s output h.working outcome) (h.after outcome.disk log) result d)
    (log : List Host.Record) :
    Leaves (assemble s source output) (h.after h.disk log) result d := by
  obtain ⟨assembler, hlocated, hrun⟩ := hran
  refine .bind (leaves_locate (h := h.after h.disk log) hlocated) fun _ => .bind (.note _ _)
    fun log => .get_bind ?_
  simp only [Host.after_disk, Host.after_after, Host.run_after, hrun]
  exact .bind (.set log) hrest

/-- Every step of the assembler ends in one of these ways, whatever the log says. -/
theorem exists_assembly (s : Settings) (source output : Path) (h : Host) :
    ∃ result d, (∀ log, Leaves (assemble s source output) (h.after h.disk log) result d) ∧
      Assembly s source output h result d := by
  -- One case for each point at which the step can stop, in the order in which it comes to them.
  cases hlocated : located? s h with
  | none =>
    exact ⟨_, _, fun log => .bind_error (leaves_locate_error (h := h.after h.disk log) hlocated),
      .unavailable hlocated⟩
  | some assembler =>
  cases hrun : h.run assembler (arguments source output) with
  | error cause =>
    refine ⟨_, _, fun log => .bind (leaves_locate (h := h.after h.disk log) hlocated) fun _ =>
      .bind (.note _ _) fun log => .get_bind ?_, .notStarted hlocated hrun⟩
    simp only [Host.after_disk, Host.after_after, Host.run_after, hrun]
    exact .throw _
  | ok outcome =>
    have hran : Ran s source output h outcome := ⟨assembler, hlocated, hrun⟩
    cases hended : outcome.ending with
    | killed =>
      refine ⟨_, _, leaves_assemble hran fun log => .bind_error ?_, .killed hran hended⟩
      rw [hended]
      exact .throw _
    | stillRunning =>
      refine ⟨_, _, leaves_assemble hran fun log => .bind_error ?_, .outOfTime hran hended⟩
      rw [hended]
      exact .throw _
    | exited status =>
    by_cases hzero : status = 0
    · subst hzero
      have hwell (log : List Host.Record) : Leaves (checkEnding s outcome.errors outcome.ending)
          (h.after outcome.disk log) (.ok ()) outcome.disk := by
        rw [hended]
        exact .pure ()
      cases hthere : outcome.disk.exists? h.working output with
      | false =>
        refine ⟨_, _, leaves_assemble hran fun log => .bind (hwell log) fun log => ?_,
          .noImage hran hended hthere⟩
        simp only [hthere]
        exact .bind_error (.throw _)
      | true =>
      cases hread : outcome.disk.read h.working output with
      | error cause =>
        refine ⟨_, _, leaves_assemble hran fun log => .bind (hwell log) fun log => ?_,
          .unreadable hran hended hread⟩
        simp only [hthere, hread]
        exact .throw _
      | ok image =>
        refine ⟨_, _, leaves_assemble hran fun log => .bind (hwell log) fun log => ?_,
          .assembled hran hended hread⟩
        simp only [hthere, hread]
        exact .pure image
    · refine ⟨_, _, leaves_assemble hran fun log => .bind_error ?_, .failed hran hended hzero⟩
      rw [hended]
      exact leaves_checkEnding_error hzero

section Available

variable {s : Settings} {a : Artifacts}

theorem leaves_assembleIfAvailable {image : Bytes}
    (hassembled : Leaves (assemble s a.librarySource a.image) h (.ok image) d) :
    Leaves (assembleIfAvailable s a) h (.ok (some image)) d :=
  .tryCatch (.map hassembled)

theorem leaves_assembleIfAvailable_none
    (hunavailable : Leaves (assemble s a.librarySource a.image) h (.error .noAssembler) d) :
    Leaves (assembleIfAvailable s a) h (.ok none) d :=
  .tryCatch_error (.map_error hunavailable) fun _ => .bind (.note _ _) fun _ => .pure none

theorem leaves_assembleIfAvailable_error {failure : Failure} (havailable : failure ≠ .noAssembler)
    (hfailed : Leaves (assemble s a.librarySource a.image) h (.error failure) d) :
    Leaves (assembleIfAvailable s a) h (.error failure) d := by
  refine .tryCatch_error (.map_error hfailed) fun log => ?_
  have hother : failure.isUnavailable = false := by
    cases failure <;> first | exact absurd rfl havailable | rfl
  simp only [hother]
  exact .bind_error (.throw failure)

end Available

/-! ### Builds -/

/-- A packaged file and its contents. -/
def Packaged.ofContents (path : Path) (contents : Bytes) : Packaged :=
  ⟨path, contents.length, (Blake3.hash contents).toHex⟩

section Package

variable {p : Path} {image : Bytes} {m : Psid.Metadata}

theorem leaves_packageImage_of {result : Except Failure Packaged}
    (hrest : ∀ log, Leaves (store p (Psid.package image m) >>= fun _ =>
      note .info ("wrote " ++ p.text ++ " (" ++ (Psid.package image m).length.repr ++ " bytes)")
        >>= fun _ => pure (.ofContents p (Psid.package image m))) (h.after h.disk log) result d) :
    Leaves (packageImage p image m) h result d := by
  unfold packageImage
  cases Psid.hasLoadAddress image with
  | true => exact hrest h.log
  | false => exact .bind (.note _ _) fun log => hrest log

theorem leaves_packageImage
    (hwritten : h.disk.write h.working p (Psid.package image m) = .ok d) :
    Leaves (packageImage p image m) h (.ok (.ofContents p (Psid.package image m))) d :=
  leaves_packageImage_of fun log => .bind (leaves_store (h := h.after h.disk log) hwritten) fun _ =>
    .bind (.note _ _) fun _ => .pure _

theorem leaves_packageImage_error {cause : OsError}
    (hfailed : h.disk.write h.working p (Psid.package image m) = .error cause) :
    Leaves (packageImage p image m) h (.error (.notWritten p cause)) h.disk :=
  leaves_packageImage_of fun log =>
    .bind_error (leaves_store_error (h := h.after h.disk log) hfailed)

end Package

/-- The sources of a song. -/
def sourcesOf (song : Song) : Player.Sources :=
  .ofTune (.ofSong song)

/-- The contents of the packaged file of a song and its image. -/
def packagedContents (song : Song) (image : Bytes) : Bytes :=
  Psid.package image { title := song.title, author := song.author, released := song.released }

section Builds

variable (song : Song) (output : Path) (s : Settings) (h : Host)

/-- What a build does with the image that it has, or without one. -/
def finish : Option Bytes → Job Result
  | none => return ⟨.ofOutput output, none⟩
  | some image => do
    let packaged ← packageImage (Artifacts.ofOutput output).packaged image
      (Psid.Metadata.ofSong song)
    return ⟨.ofOutput output, some packaged⟩

/-- A build that comes as far as the assembler, what that gives, and the disk that it leaves. -/
inductive Reached : Except Failure Bytes → Disk → Prop where
  | intro {given : Except Failure Bytes} {d d' : Disk}
      (distinct : (Artifacts.ofOutput output).conflict? = none)
      (prepared : Prepared (sourcesOf song) (.ofOutput output) h.working h.disk d)
      (assembly : Assembly s (Artifacts.ofOutput output).librarySource
        (Artifacts.ofOutput output).image (h.after d h.log) given d') :
      Reached given d'

/-- How a build ends: what it gives, and the disk that it leaves. -/
inductive Course : Except Failure Result → Disk → Prop where
  | shared {path : Path} (conflict : (Artifacts.ofOutput output).conflict? = some path) :
      Course (.error (.sharedPath path)) h.disk
  | halted {path : Path} {cause : OsError} {d : Disk}
      (distinct : (Artifacts.ofOutput output).conflict? = none)
      (halted : Halted (sourcesOf song) (.ofOutput output) h.working h.disk path cause d) :
      Course (.error (.notWritten path cause)) d
  | sourcesOnly {d : Disk} (reached : Reached song output s h (.error .noAssembler) d) :
      Course (.ok ⟨.ofOutput output, none⟩) d
  | failed {d : Disk} {failure : Failure} (reached : Reached song output s h (.error failure) d)
      (available : failure ≠ .noAssembler) : Course (.error failure) d
  | unpackaged {d : Disk} {image : Bytes} {cause : OsError}
      (reached : Reached song output s h (.ok image) d)
      (failed : d.write h.working (Artifacts.ofOutput output).packaged
        (packagedContents song image) = .error cause) :
      Course (.error (.notWritten (Artifacts.ofOutput output).packaged cause)) d
  | packaged {d d' : Disk} {image : Bytes} (reached : Reached song output s h (.ok image) d)
      (written : d.write h.working (Artifacts.ofOutput output).packaged
        (packagedContents song image) = .ok d') :
      Course (.ok ⟨.ofOutput output, some (.ofContents (Artifacts.ofOutput output).packaged
        (packagedContents song image))⟩) d'

variable {song output s h}

/-- How a build goes on that has come as far as the assembler. -/
theorem exists_course_of_prepared {d : Disk}
    (hdistinct : (Artifacts.ofOutput output).conflict? = none)
    (hprepared : Prepared (sourcesOf song) (.ofOutput output) h.working h.disk d) :
    ∃ result d', (∀ log, Leaves (assembleIfAvailable s (.ofOutput output) >>= finish song output)
      (h.after d log) result d') ∧ Course song output s h result d' := by
  obtain ⟨given, d', hleaves, hassembly⟩ := exists_assembly s
    (Artifacts.ofOutput output).librarySource (Artifacts.ofOutput output).image (h.after d h.log)
  have hreached : Reached song output s h given d' := ⟨hdistinct, hprepared, hassembly⟩
  cases given with
  | error failure =>
    by_cases hunavailable : failure = .noAssembler
    · subst hunavailable
      exact ⟨_, _, fun log => .bind (leaves_assembleIfAvailable_none (hleaves log)) fun log =>
        .pure _, .sourcesOnly hreached⟩
    · exact ⟨_, _, fun log =>
        .bind_error (leaves_assembleIfAvailable_error hunavailable (hleaves log)),
        .failed hreached hunavailable⟩
  | ok image =>
    cases hwritten : d'.write h.working (Artifacts.ofOutput output).packaged
      (packagedContents song image) with
    | error cause =>
      exact ⟨_, _, fun log => .bind (leaves_assembleIfAvailable (hleaves log)) fun log =>
        .bind_error (leaves_packageImage_error (h := h.after d' log) hwritten),
        .unpackaged hreached hwritten⟩
    | ok d'' =>
      exact ⟨_, _, fun log => .bind (leaves_assembleIfAvailable (hleaves log)) fun log =>
        .bind (leaves_packageImage (h := h.after d' log) hwritten) fun log => .pure _,
        .packaged hreached hwritten⟩

theorem leaves_forM_note (level : Host.Level) (lines : List String) :
    Leaves (lines.forM (note level)) h (.ok ()) h.disk := by
  induction lines generalizing h with
  | nil => exact .pure ()
  | cons line rest ih => exact .bind (.note level line) fun log => ih (h := h.after h.disk log)

/-- Every build takes one of these courses. -/
theorem exists_course (song : Song) (output : Path) (s : Settings) (h : Host) :
    ∃ result d, Leaves (make song output s) h result d ∧ Course song output s h result d := by
  unfold make
  cases hconflict : (Artifacts.ofOutput output).conflict? with
  | some path =>
    refine ⟨_, _, .bind_error ?_, .shared hconflict⟩
    rw [Artifacts.ensureDistinct, hconflict]
    exact .throw _
  | none =>
  have hdistinct : Leaves (make.liftExcept (Artifacts.ofOutput output).ensureDistinct) h (.ok ())
      h.disk := by
    rw [Artifacts.ensureDistinct, hconflict]
    exact .pure ()
  have hstart {rest : Unit → Job Result} {result : Except Failure Result} {d : Disk}
      (hleaves : ∀ log, Leaves (rest ()) (h.after h.disk log) result d) :
      Leaves (make.liftExcept (Artifacts.ofOutput output).ensureDistinct >>= fun _ =>
        (tuneLines (.ofSong song)).forM (note .debug) >>= rest) h result d :=
    .bind hdistinct fun log => .bind (leaves_forM_note _ _ (h := h.after h.disk log)) hleaves
  cases hstandalone : h.disk.write h.working (Artifacts.ofOutput output).standaloneSource
      (Bytes.ofText (sourcesOf song).standalone) with
  | error cause =>
    exact ⟨_, _, hstart fun log => .bind_error (leaves_writeSource_error hstandalone),
      .halted hconflict (.standalone hstandalone)⟩
  | ok d₁ =>
  cases hlibrary : d₁.write h.working (Artifacts.ofOutput output).librarySource
      (Bytes.ofText (sourcesOf song).library) with
  | error cause =>
    exact ⟨_, _, hstart fun log => .bind (leaves_writeSource hstandalone) fun log =>
      .bind_error (leaves_writeSource_error hlibrary),
      .halted hconflict (.library hstandalone hlibrary)⟩
  | ok d₂ =>
  -- A file that is missing counts as cleared; every other refusal halts the build.
  have hclear (d : Disk) (p : Path) : (∃ d', Cleared d h.working p d') ∨
      ∃ cause, d.remove h.working p = .error cause ∧ cause ≠ .notFound := by
    cases hremoved : d.remove h.working p with
    | ok d' => exact .inl ⟨d', .removed hremoved⟩
    | error cause =>
      by_cases hmissing : cause = .notFound
      · exact .inl ⟨d, .missing (hmissing ▸ hremoved)⟩
      · exact .inr ⟨cause, rfl, hmissing⟩
  rcases hclear d₂ (Artifacts.ofOutput output).image with ⟨d₃, himage⟩ | ⟨cause, hfailed, hthere⟩
  · rcases hclear d₃ (Artifacts.ofOutput output).packaged with
      ⟨d₄, hpackaged⟩ | ⟨cause, hfailed, hthere⟩
    · obtain ⟨result, d, hleaves, hcourse⟩ := exists_course_of_prepared (s := s) hconflict
        ⟨hstandalone, hlibrary, himage, hpackaged⟩
      exact ⟨result, d, hstart fun log => .bind (leaves_writeSource hstandalone) fun log =>
        .bind (leaves_writeSource hlibrary) fun log => .bind (leaves_discard himage) fun log =>
          .bind (leaves_discard hpackaged) hleaves, hcourse⟩
    · exact ⟨_, _, hstart fun log => .bind (leaves_writeSource hstandalone) fun log =>
        .bind (leaves_writeSource hlibrary) fun log => .bind (leaves_discard himage) fun log =>
          .bind_error (leaves_discard_error hfailed hthere),
        .halted hconflict (.packaged hstandalone hlibrary himage hfailed hthere)⟩
  · exact ⟨_, _, hstart fun log => .bind (leaves_writeSource hstandalone) fun log =>
      .bind (leaves_writeSource hlibrary) fun log =>
        .bind_error (leaves_discard_error hfailed hthere),
      .halted hconflict (.image hstandalone hlibrary hfailed hthere)⟩

end Builds

end Build

end SidTune
