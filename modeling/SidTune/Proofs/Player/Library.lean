import SidTune.Proofs.Player.Keeping
import SidTune.Proofs.Player.Setup

/-!
# The library

A host loads the library, calls its first entry point once and its second one for each frame. In
between it does what it likes, except that it neither writes to the image nor switches decimal mode
on. Whatever it does, the calls write to the chip what the sequencer writes, and memory tells the
state of the sequencer after every call.

## Main definitions

* `SidTune.Player.Leaves`: what a host may do.
* `SidTune.Player.Session`: the calls of a host, with their records.
* `SidTune.Player.Hosted`: a host that calls the library of an accepted song.

## Main results

* `SidTune.Player.exists_session`: a session goes on for as many frames as the host likes.
* `SidTune.Player.Session.plays`: every session goes like the sequencer.
* `SidTune.Player.library_writes_score`: the library of an accepted song writes its score.
-/

namespace SidTune.Player

open Assembly Assembly.Mnemonic Processor

/-! ### Single calls -/

section Calls

variable {t : Tune} {m : Machine} {q : Playing}

/-- What follows the second entry point of the library. -/
def playBody (t : Tune) : Program :=
  pushAll ++ ([] ++ .code jsr (.label frameLabel) ::
    (pullAll ++ .code rts .implied :: .blank :: shared t))

theorem libraryBody_eq (t : Tune) : libraryBody t =
    .label "init" :: .code jmp (.label setupLabel) :: .label "play" :: playBody t := rfl

/-- Where the entry points of the library are. -/
theorem spot_entries (t : Tune) :
    spot 0x1000 (libraryBody t)
        (.code jmp (.label setupLabel) :: .label "play" :: playBody t) = 0x1000 ∧
      spot 0x1000 (libraryBody t) (playBody t) = 0x1003 := by
  have hfirst : spot 0x1000 (libraryBody t) (libraryBody t) = 0x1000 := by simp [spot]
  have hwhole := List.suffix_refl (libraryBody t)
  rw [libraryBody_eq] at hfirst hwhole ⊢
  have hrest := (List.suffix_cons _ _).trans hwhole
  rw [Linked.spot_cons ((List.suffix_cons _ _).trans hrest), Linked.spot_cons hrest,
    Linked.spot_cons hwhole, hfirst]
  exact ⟨rfl, rfl⟩

/-- A call of the first entry point sets up. -/
theorem call_init (ht : t.Playable) (hr : Resident (library t) t m.memory)
    (hdecimal : m.flags.decimal = false) :
    ∃ record n, Calls (library t) 0x1000 m record n ∧ Stands m n m.pc m.stack ∧
      Stretch (library t) m.stack 4 (m.enter 0x1000) record n (setupWrites (library t) t)
        (setupReads t) := by
  have hc := carries_library ht
  have hsame (cell : UInt16) (h : inStack cell = false) := memory_enter m 0x1000 h
  have hsuffix : .code jmp (.label setupLabel) :: .label "play" :: playBody t <:+ libraryBody t :=
    List.suffix_cons (Item.label "init") _
  obtain ⟨n₁, hjump, h₁⟩ := hc.passes_jump (m := m.enter 0x1000) hsuffix (spot_entries t).1.symm
  obtain ⟨n₂, hreturns⟩ := hc.setup (m := n₁) ht (by
    rw [h₁]
    exact hc.resident_congr hsame hr) (by rw [h₁]; exact hdecimal) hjump.stands.pc_eq
  obtain ⟨record, hcalls, hstands, hstretch⟩ :=
    ((hjump.mono (by decide)).returns hreturns (by decide)).calls (by decide)
  exact ⟨record, n₂, hcalls, hstands, hstretch⟩

/-- A call of the second entry point plays a frame and keeps the registers. -/
theorem call_play (ht : t.Playable) (hr : Resident (library t) t m.memory)
    (hdecimal : m.flags.decimal = false) (hq : stateOf (library t) m.memory = q)
    (hvalid : q.Valid t) :
    ∃ record n, Calls (library t) 0x1003 m record n ∧ Stands m n m.pc m.stack ∧
      Stretch (library t) m.stack 9 (m.enter 0x1003) record n (frameWrites (library t) t q)
        (frameReads t q) ∧ n.a = m.a ∧ n.x = m.x ∧ n.y = m.y := by
  have hc := carries_library ht
  have hsame (cell : UInt16) (h : inStack cell = false) := memory_enter m 0x1003 h
  have hsuffix : playBody t <:+ libraryBody t :=
    (List.suffix_cons _ _).trans ((List.suffix_cons _ _).trans (List.suffix_cons _ _))
  have hnothing (k : Machine) : ∃ n, Leads (library t).locate [] k n [] [] :=
    ⟨k, [], rfl, rfl, rfl, by simp⟩
  obtain ⟨n₁, hplayed, ha, hx, hy⟩ :=
    hc.guarded_frame ht hsuffix (spot_entries t).2.symm rfl hnothing (by simp)
      (hc.resident_congr hsame hr) hdecimal ((hc.stateOf_congr hsame).trans hq) hvalid
  have hleads : Leads (library t).locate [] n₁ n₁ [] [] := ⟨[], rfl, rfl, rfl, by simp⟩
  have hback : [] ++ .code rts .implied :: .blank :: shared t <:+ libraryBody t :=
    (List.suffix_append pullAll _).trans ((List.suffix_cons _ _).trans
      ((List.suffix_append pushAll _).trans hsuffix))
  obtain ⟨n₂, hreturns, ha', hx', hy'⟩ :=
    hc.returns_straight [] rfl hback hplayed.stands.pc_eq hleads (by simp)
  obtain ⟨record, hcalls, hstands, hstretch⟩ :=
    (hplayed.returns (hreturns.mono (by decide)) (by decide)).calls (by decide)
  exact ⟨record, n₂, hcalls, hstands, by simpa using hstretch, ha'.trans ha, hx'.trans hx,
    hy'.trans hy⟩

end Calls

/-! ### Sessions -/

/-- What a host does between calls: it keeps the image and does not switch decimal mode on.
Everything else, registers, stack and program counter among it, is up to the host. -/
def Leaves (p : Program) (n m : Machine) : Prop :=
  (∀ c ∈ p.image, m.memory c.1 = n.memory c.1) ∧
    (n.flags.decimal = false → m.flags.decimal = false)

/-- The calls of a host that sets up from a machine `m` and then plays a number of frames, with the
records of all calls and the machine after the last; `host` is what the host does before each
frame. -/
inductive Session (p : Program) (host : Nat → Machine → Machine) (m : Machine) :
    Nat → List (List Moment) → Machine → Prop
  | setup {record : List Moment} {n : Machine} (call : Calls p 0x1000 m record n) :
    Session p host m 0 [record] n
  | play {i : Nat} {records : List (List Moment)} {record : List Moment} {k n : Machine}
    (before : Session p host m i records k) (call : Calls p 0x1003 (host i k) record n) :
    Session p host m (i + 1) (records ++ [record]) n

/-- Where setting up and each of a number of frames read the tables. -/
def scoreReads (t : Tune) (i : Nat) : List (List (String × Nat)) :=
  setupReads t :: (List.range i).map fun j => frameReads t (playingAfter t j)

theorem scoreReads_succ (t : Tune) (i : Nat) :
    scoreReads t (i + 1) = scoreReads t i ++ [frameReads t (playingAfter t i)] := by
  simp [scoreReads, List.range_succ]

/-- What is known of a machine when a call is over: memory holds the tables and tells the state of
the sequencer. -/
structure Plays (p : Program) (t : Tune) (q : Playing) (n : Machine) : Prop where
  resident : Resident p t n.memory
  state : stateOf p n.memory = q
  decimal : n.flags.decimal = false

theorem Plays.leaves {p body : Program} {start : UInt16} {t : Tune} {q : Playing} {n m : Machine}
    (hc : Carries p start body t) (h : Plays p t q n) (host : Leaves p n m) : Plays p t q m where
  resident := hc.resident_image host.1 h.resident
  state := (hc.stateOf_image host.1).trans h.state
  decimal := host.2 h.decimal

section Sessions

variable {t : Tune} {host : Nat → Machine → Machine} {m k n : Machine} {i : Nat}
  {record : List Moment} {records : List (List Moment)}

/-- What a call of the first entry point does. -/
theorem plays_init (ht : t.Playable) (hr : Resident (library t) t m.memory)
    (hdecimal : m.flags.decimal = false) (hcall : Calls (library t) 0x1000 m record n) :
    Plays (library t) t (begin t).2 n ∧ chipWrites (writesOf record) = (begin t).1 ∧
      readsOf record = setupReads t := by
  have hc := carries_library ht
  obtain ⟨record', n', hcall', hstands, hstretch⟩ := call_init ht hr hdecimal
  obtain ⟨rfl, rfl⟩ := hcall.unique hcall'
  have hsame (cell : UInt16) (h : inStack cell = false) :=
    hstretch.memory_outside h
  have hentered : Resident (library t) t (m.enter 0x1000).memory :=
    hc.resident_congr (fun _ => memory_enter m 0x1000) hr
  refine ⟨⟨hc.resident_congr hsame (hc.resident_after (confined_setupWrites _ t) hentered), ?_,
    hstands.decimal_eq.trans hdecimal⟩, ?_, hstretch.reads_eq⟩
  · rw [hc.stateOf_congr hsame, hc.stateOf_setupWrites ht]
  · rw [← chipWrites_outside, hstretch.writes_eq, hc.chipWrites_setupWrites]

/-- What a call of the second entry point does. -/
theorem plays_play (ht : t.Playable) (h : Plays (library t) t (playingAfter t i) m)
    (hcall : Calls (library t) 0x1003 m record n) :
    Plays (library t) t (playingAfter t (i + 1)) n ∧
      chipWrites (writesOf record) = ((playingAfter t i).frame t).1 ∧
      readsOf record = frameReads t (playingAfter t i) := by
  have hc := carries_library ht
  have hvalid := valid_playingAfter ht i
  obtain ⟨record', n', hcall', hstands, hstretch, -⟩ :=
    call_play ht h.resident h.decimal h.state hvalid
  obtain ⟨rfl, rfl⟩ := hcall.unique hcall'
  have hsame (cell : UInt16) (h : inStack cell = false) :=
    hstretch.memory_outside h
  have hentered : Resident (library t) t (m.enter 0x1003).memory :=
    hc.resident_congr (fun _ => memory_enter m 0x1003) h.resident
  have hstate : stateOf (library t) (m.enter 0x1003).memory = playingAfter t i :=
    (hc.stateOf_congr fun _ => memory_enter m 0x1003).trans h.state
  refine ⟨⟨hc.resident_congr hsame (hc.resident_after (confined_frameWrites _ t _) hentered), ?_,
    hstands.decimal_eq.trans h.decimal⟩, ?_, hstretch.reads_eq⟩
  · rw [hc.stateOf_congr hsame, hc.stateOf_frameWrites ht hstate hvalid]
    rfl
  · rw [← chipWrites_outside, hstretch.writes_eq, hc.chipWrites_frameWrites]

/-- Every session goes like the sequencer. -/
theorem Session.plays (ht : t.Playable) (hr : Resident (library t) t m.memory)
    (hdecimal : m.flags.decimal = false) (hcareful : ∀ i n, Leaves (library t) n (host i n))
    (h : Session (library t) host m i records n) :
    Plays (library t) t (playingAfter t i) n ∧
      records.map (fun record => chipWrites (writesOf record)) = scoreWrites t i ∧
      records.map readsOf = scoreReads t i := by
  have hc := carries_library ht
  induction h with
  | setup hcall =>
    obtain ⟨hplays, hwrites, hreads⟩ := plays_init ht hr hdecimal hcall
    exact ⟨hplays, by simp [hwrites, scoreWrites], by simp [hreads, scoreReads]⟩
  | play hbefore hcall ih =>
    obtain ⟨hplays, hwrites, hreads⟩ := ih
    obtain ⟨hplays', hwrites', hreads'⟩ := plays_play ht (hplays.leaves hc (hcareful _ _)) hcall
    refine ⟨hplays', ?_, ?_⟩
    · rw [List.map_append, hwrites, scoreWrites_succ, List.map_singleton, hwrites']
    · rw [List.map_append, hreads, scoreReads_succ, List.map_singleton, hreads']

/-- A session goes on for as many frames as the host likes. -/
theorem exists_session (ht : t.Playable) (hr : Resident (library t) t m.memory)
    (hdecimal : m.flags.decimal = false) (hcareful : ∀ i n, Leaves (library t) n (host i n))
    (i : Nat) : ∃ records n, Session (library t) host m i records n := by
  have hc := carries_library ht
  induction i with
  | zero =>
    obtain ⟨record, n, hcall, -⟩ := call_init ht hr hdecimal
    exact ⟨_, n, .setup hcall⟩
  | succ i ih =>
    obtain ⟨records, k, hbefore⟩ := ih
    have hplays := (hbefore.plays ht hr hdecimal hcareful).1.leaves hc (hcareful i k)
    obtain ⟨record, n, hcall, -⟩ :=
      call_play ht hplays.resident hplays.decimal hplays.state (valid_playingAfter ht i)
    exact ⟨_, n, .play hbefore hcall⟩

/-- A session is determined by the machine before it and the host. -/
theorem Session.unique {p : Program} {records' : List (List Moment)} {n' : Machine}
    (h : Session p host m i records n) (h' : Session p host m i records' n') :
    records = records' ∧ n = n' := by
  induction h generalizing records' n' with
  | setup hcall =>
    cases h' with
    | setup hcall' =>
      obtain ⟨rfl, rfl⟩ := hcall.unique hcall'
      exact ⟨rfl, rfl⟩
  | play hbefore hcall ih =>
    cases h' with
    | play hbefore' hcall' =>
      obtain ⟨rfl, rfl⟩ := ih hbefore'
      obtain ⟨rfl, rfl⟩ := hcall.unique hcall'
      exact ⟨rfl, rfl⟩

end Sessions

/-! ### The score -/

/-- A host that loads the library of an accepted song, has decimal mode off, and is careful between
calls. -/
structure Hosted (s : Song) (host : Nat → Machine → Machine) (m : Machine) : Prop where
  accepted : ∃ document, Song.ofJson document = .ok s
  loaded : ∀ c ∈ (library (Tune.ofSong s)).image, m.memory c.1 = c.2
  decimal : m.flags.decimal = false
  careful : ∀ i n, Leaves (library (Tune.ofSong s)) n (host i n)

namespace Hosted

variable {s : Song} {host : Nat → Machine → Machine} {m : Machine}

theorem playable (h : Hosted s host m) : (Tune.ofSong s).Playable :=
  let ⟨_, haccepted⟩ := h.accepted
  Tune.playable_ofJson haccepted

theorem resident (h : Hosted s host m) :
    Resident (library (Tune.ofSong s)) (Tune.ofSong s) m.memory :=
  (carries_library h.playable).resident h.loaded

end Hosted

/-- A machine into which a program was loaded. -/
def loadedMachine (p : Program) : Machine where
  a := 0
  x := 0
  y := 0
  stack := 0xff
  pc := 0xC000
  flags := ⟨false, false, false, false, false, false⟩
  memory := p.load fun _ => 0

theorem loadedMachine_memory {p body : Program} {start : UInt16} (hl : Linked p start body) :
    ∀ c ∈ p.image, (loadedMachine p).memory c.1 = c.2 :=
  hl.load_eq fun _ => 0

theorem hosted_sampleSong : Hosted sampleSong (fun _ k => k)
    (loadedMachine (library (Tune.ofSong sampleSong))) where
  accepted := ⟨_, ofJson_sampleSong⟩
  loaded := loadedMachine_memory
    (carries_library (Tune.playable_ofJson ofJson_sampleSong)).toLinked
  decimal := rfl
  careful _ _ := ⟨fun _ _ => rfl, fun h => h⟩

/-- The library of an accepted song, loaded and called, writes to the chip call by call what the
sequencer writes, for however many frames, and there is no other way for these calls to go. -/
theorem library_writes_score {s : Song} {host : Nat → Machine → Machine} {m : Machine}
    (h : Hosted s host m) (frames : Nat) :
    ∃ records n, Session (library (Tune.ofSong s)) host m frames records n ∧
      (∀ records' n', Session (library (Tune.ofSong s)) host m frames records' n' →
        records' = records ∧ n' = n) ∧
      records.map (fun record => chipWrites (writesOf record)) =
        scoreWrites (Tune.ofSong s) frames := by
  obtain ⟨records, n, hsession⟩ :=
    exists_session h.playable h.resident h.decimal h.careful frames
  exact ⟨records, n, hsession, fun _ _ hother => hother.unique hsession,
    (hsession.plays h.playable h.resident h.decimal h.careful).2.1⟩

theorem library_writes_score_sampleSong :
    Hosted sampleSong (fun _ k => k) (loadedMachine (library (Tune.ofSong sampleSong))) ∧
      ∃ records n, Session (library (Tune.ofSong sampleSong)) (fun _ k => k)
          (loadedMachine (library (Tune.ofSong sampleSong))) 2 records n ∧
        (∀ records' n', Session (library (Tune.ofSong sampleSong)) (fun _ k => k)
          (loadedMachine (library (Tune.ofSong sampleSong))) 2 records' n' →
            records' = records ∧ n' = n) ∧
        records.map (fun record => chipWrites (writesOf record)) =
          scoreWrites (Tune.ofSong sampleSong) 2 :=
  ⟨hosted_sampleSong, library_writes_score hosted_sampleSong 2⟩

end SidTune.Player
