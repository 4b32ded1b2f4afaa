import SidTune.Proofs.Player.Library

/-!
# The library is safe to call

Whatever state the player has reached, every call comes back to where it was made with the stack
pointer as it was. It writes to the chip, to the seven bytes of state and to free cells of the
stack, so that code and tables stay as they are, it reads every table inside its bounds, and no sum
is too large for a byte. A frame also gives the registers back and leaves envelopes, pulse widths
and the filter as they were set up.

## Main definitions

* `SidTune.Player.Permitted`: the writes that a call may make.
* `SidTune.Player.InTable`: the places of tables that may be read.
* `SidTune.Player.SafeCall`, `SidTune.Player.SafeFrame`: what is safe about a call.

## Main results

* `SidTune.Player.library_calls_safe`: all calls of the library of an accepted song are safe.
-/

namespace SidTune.Player

open Assembly Assembly.Mnemonic Processor

/-! ### What is safe -/

/-- A write to the chip, to the state, or to one of the twelve cells of the stack from a value of
the stack pointer down. -/
def Permitted (p : Program) (top : UInt8) (w : Write) : Prop :=
  isChip w.address ∨ (∃ name ∈ stateNames, w.address = p.locate name) ∨
    ∃ d < 12, w.address = stackCell (top - UInt8.ofNat d)

/-- A place in one of the tables; octaves start from two on. -/
def InTable (t : Tune) (r : String × Nat) : Prop :=
  ∃ bytes, (r.1, bytes) ∈ constants t ∧ r.2 < bytes.length ∧ (r.1 = "octave_offset" → 2 ≤ r.2)

/-- What is safe about a call: it is the only one there is, it comes back, it writes what it may and
nothing where code or a table is placed, it reads inside the tables, and its sums fit a byte. -/
structure SafeCall (p : Program) (t : Tune) (entry : UInt16) (m : Machine) (record : List Moment)
    (n : Machine) : Prop where
  call : Calls p entry m record n
  unique : ∀ record' n', Calls p entry m record' n' → record' = record ∧ n' = n
  returns : n.pc = m.pc
  balanced : n.stack = m.stack
  permitted : ∀ w ∈ writesOf record, Permitted p m.stack w
  intact : ∀ w ∈ writesOf record, ∀ a ∈ p.placed 0, (∀ name ∈ stateNames, a.1 ≠ p.locate name) →
    w.address.toNat < a.1.toNat ∨ a.1.toNat + a.2.size ≤ w.address.toNat
  inside : ∀ r ∈ readsOf record, InTable t r
  sums : ∀ k ∈ record, k.NoCarry p.locate

/-- The registers of the chip that are written in a frame: the frequencies and the controls of the
voices, and the volume. -/
def Sounding (cell : UInt16) : Prop :=
  cell = 0xD418 ∨ ∃ voice < 3, ∃ offset ∈ [0, 1, 4], cell = register voice offset

/-- What is safe about a frame: it also keeps the registers, and leaves all of the chip alone but
what sounds. -/
structure SafeFrame (p : Program) (t : Tune) (m : Machine) (record : List Moment) (n : Machine) :
    Prop extends SafeCall p t 0x1003 m record n where
  registers : n.a = m.a ∧ n.x = m.x ∧ n.y = m.y
  sounding : ∀ w ∈ writesOf record, isChip w.address → Sounding w.address
  steady : ∀ cell, isChip cell → ¬ Sounding cell → n.memory cell = m.memory cell

/-! ### Tables -/

section Tables

variable {t : Tune} {voice : Nat} {track : Track} {step : Nat}

/-- The tables of a voice have a place for every step. -/
theorem inTable_column (ht : t.tracks.get? voice = some track) (hinside : step < track.length)
    {c : String × Bytes} (hc : c ∈ columns voice track) : InTable t (c.1, step) := by
  have hlength : ∀ c ∈ columns voice track, c.2.length = track.length := by
    simp [columns, Track.noteColumn, Track.octaveColumn, Track.tickColumn, Track.length]
  have hother : ∀ name ∈ (columns voice track).map Prod.fst, name ≠ "octave_offset" := by
    change ∀ name ∈ ["notes", "octaves", "ticks"].map (labelOf voice), name ≠ "octave_offset"
    rcases Trio.get?_eq_some.1 ht with ⟨rfl, -⟩ | ⟨rfl, -⟩ | ⟨rfl, -⟩ <;> decide
  exact ⟨c.2, mem_constants ht hc, by rw [hlength c hc]; exact hinside,
    fun heq => absurd heq (hother _ (List.mem_map_of_mem hc))⟩

private theorem inTable_pitchReads (ht : t.tracks.get? voice = some track)
    (hinside : step < track.length) (pitch? : Option Pitch) :
    ∀ r ∈ pitchReads voice step pitch?, InTable t r := by
  have hcolumn := inTable_column ht hinside (.tail _ List.mem_cons_self)
  cases pitch? with
  | none => simp [pitchReads]
  | some pitch =>
    have hoctave := pitch.octave.le_five
    have hindex := pitch.tableIndex_lt
    simp only [pitchReads, List.forall_mem_cons, List.not_mem_nil, false_implies, implies_true,
      and_true]
    refine ⟨hcolumn, ⟨octaveStarts, by simp [constants], ?_, fun _ => pitch.octave.two_le⟩,
      ⟨wordLowBytes, by simp [constants], ?_, by simp⟩,
      ⟨wordHighBytes, by simp [constants], ?_, by simp⟩⟩
    · simp only [octaveStarts, List.length_cons, List.length_nil]
      omega
    · simpa [wordLowBytes, length_wordTable] using hindex
    · simpa [wordHighBytes, length_wordTable] using hindex

theorem inTable_advanceReads (ht : t.tracks.get? voice = some track)
    (hinside : step < track.length) : ∀ r ∈ advanceReads voice track step, InTable t r := by
  have hnotes := inTable_column ht hinside List.mem_cons_self
  have hticks := inTable_column ht hinside (.tail _ (.tail _ List.mem_cons_self))
  rw [advanceReads, List.forall_mem_append, List.forall_mem_cons]
  exact ⟨⟨hnotes, inTable_pitchReads ht hinside _⟩, by simpa using hticks⟩

private theorem inTable_countReads (ht : t.tracks.get? voice = some track) {h : Head}
    (hvalid : h.Valid track) : ∀ r ∈ countReads voice track h, InTable t r := by
  unfold countReads
  split
  · exact inTable_advanceReads ht hvalid.step_lt
  · simp

theorem inTable_setupReads (ht : t.Playable) : ∀ r ∈ setupReads t, InTable t r := by
  simp only [setupReads, List.forall_mem_append]
  exact ⟨⟨inTable_advanceReads t.tracks.get?_first ht.first.start_lt,
    inTable_advanceReads t.tracks.get?_second ht.second.start_lt⟩,
    inTable_advanceReads t.tracks.get?_third ht.third.start_lt⟩

theorem inTable_frameReads {q : Playing} (hvalid : q.Valid t) :
    ∀ r ∈ frameReads t q, InTable t r := by
  simp only [frameReads, List.forall_mem_append]
  exact ⟨⟨inTable_countReads t.tracks.get?_first hvalid.first,
    inTable_countReads t.tracks.get?_second hvalid.second⟩,
    inTable_countReads t.tracks.get?_third hvalid.third⟩

end Tables

/-! ### Writes -/

/-- A stretch with confined writes makes permitted ones. -/
theorem permitted_of_confined {p : Program} {top : UInt8} {depth : Nat} {m n : Machine}
    {record : List Moment} {writes : List Write} {reads : List (String × Nat)}
    (h : Stretch p top depth m record n writes reads) (hle : depth < 12)
    (hw : ∀ w ∈ writes, Confined p stateNames w) : ∀ w ∈ writesOf record, Permitted p top w := by
  intro w hmem
  cases hs : inStack w.address with
  | true =>
    obtain ⟨s, ⟨d, hd, rfl⟩, heq⟩ := h.pushed w hmem hs
    exact .inr (.inr ⟨d, by omega, heq⟩)
  | false =>
    have hout : w ∈ writes := by
      rw [← h.writes_eq]
      exact List.mem_filter.2 ⟨hmem, by simp [hs]⟩
    exact (hw w hout).imp_right .inl

/-- Permitted writes leave code and tables as they are. -/
theorem Carries.intact {p body : Program} {start : UInt16} {t : Tune} (hc : Carries p start body t)
    {top : UInt8} {w : Write} (hw : Permitted p top w) {a : UInt16 × Item} (ha : a ∈ p.placed 0)
    (hfresh : ∀ name ∈ stateNames, a.1 ≠ p.locate name) :
    w.address.toNat < a.1.toNat ∨ a.1.toNat + a.2.size ≤ w.address.toNat := by
  have hbounds := hc.placed_bounds ha
  rcases hw with hchip | ⟨name, hname, heq⟩ | ⟨d, -, heq⟩
  · rw [isChip_iff] at hchip
    omega
  · have hstate := hc.mem_placed (hc.state_isInfix hname)
    rcases hc.placed_apart ha hstate with rfl | hbefore | hafter
    · exact absurd rfl (hfresh name hname)
    · rw [heq]
      exact .inr hbefore
    · rw [heq]
      simp only [Item.size, List.length_cons, List.length_nil] at hafter
      omega
  · have := toNat_stackCell (top - UInt8.ofNat d)
    have := (top - UInt8.ofNat d).toNat_lt
    rw [heq]
    omega

theorem sounding_startStep {voice : Nat} (hv : voice < 3) (t : Tune) (track : Track) (step : Nat) :
    ∀ w ∈ startStep t voice track step, Sounding w.address := by
  have hown {offset : UInt16} (h : offset ∈ [0, 1, 4]) : Sounding (register voice offset) :=
    .inr ⟨voice, hv, offset, h, rfl⟩
  have hlow : Sounding (register voice 0) := hown (by decide)
  have hhigh : Sounding (register voice 1) := hown (by decide)
  have hcontrol : Sounding (register voice 4) := hown (by decide)
  unfold startStep
  split <;> simp [hlow, hhigh, hcontrol]

theorem sounding_frame (t : Tune) (q : Playing) : ∀ w ∈ (q.frame t).1, Sounding w.address := by
  have htick {voice : Nat} (hv : voice < 3) (track : Track) (h : Head) :
      ∀ w ∈ (h.tick t voice track).1, Sounding w.address := by
    unfold Head.tick
    split
    · exact sounding_startStep hv t track h.step
    · simp
  simp only [Playing.frame, List.forall_mem_cons, List.forall_mem_append]
  exact ⟨.inl rfl, ⟨htick (by decide) _ _, htick (by decide) _ _⟩, htick (by decide) _ _⟩

/-! ### Calls -/

variable {t : Tune} {m : Machine} {q : Playing}

/-- What the two kinds of calls have in common. -/
theorem safeCall_of_stretch {entry : UInt16} {record : List Moment} {n : Machine}
    {writes : List Write} {reads : List (String × Nat)} {depth : Nat} (ht : t.Playable)
    (hcall : Calls (library t) entry m record n) (hstands : Stands m n m.pc m.stack)
    (hstretch : Stretch (library t) m.stack depth (m.enter entry) record n writes reads)
    (hle : depth < 12) (hconfined : ∀ w ∈ writes, Confined (library t) stateNames w)
    (hinside : ∀ r ∈ reads, InTable t r) : SafeCall (library t) t entry m record n where
  call := hcall
  unique _ _ hother := hother.unique hcall
  returns := hstands.pc_eq
  balanced := hstands.stack_eq
  permitted := permitted_of_confined hstretch hle hconfined
  intact w hw _ ha hfresh :=
    (carries_library ht).intact (permitted_of_confined hstretch hle hconfined w hw) ha hfresh
  inside := hstretch.reads_eq ▸ hinside
  sums := hstretch.sums

theorem safe_init (ht : t.Playable) (hr : Resident (library t) t m.memory)
    (hdecimal : m.flags.decimal = false) :
    ∃ record n, SafeCall (library t) t 0x1000 m record n := by
  obtain ⟨record, n, hcall, hstands, hstretch⟩ := call_init ht hr hdecimal
  exact ⟨record, n, safeCall_of_stretch ht hcall hstands hstretch (by decide)
    (confined_setupWrites _ t) (inTable_setupReads ht)⟩

theorem safe_frame (ht : t.Playable) (h : Plays (library t) t q m) (hvalid : q.Valid t) :
    ∃ record n, SafeFrame (library t) t m record n := by
  have hc := carries_library ht
  obtain ⟨record, n, hcall, hstands, hstretch, hregisters⟩ :=
    call_play ht h.resident h.decimal h.state hvalid
  have hsafe := safeCall_of_stretch ht hcall hstands hstretch (by decide)
    (confined_frameWrites _ t q) (inTable_frameReads hvalid)
  have hsounding : ∀ w ∈ writesOf record, isChip w.address → Sounding w.address := by
    intro w hw hchip
    have hseen : w ∈ chipWrites (writesOf record) := List.mem_filter.2 ⟨hw, hchip⟩
    rw [← chipWrites_outside, hstretch.writes_eq, hc.chipWrites_frameWrites] at hseen
    exact sounding_frame t q w hseen
  refine ⟨record, n, hsafe, hregisters, hsounding, fun cell hchip hsilent => ?_⟩
  rw [hstretch.runs.memory_eq, Memory.after_of_unwritten _ fun w hw heq => hsilent ?_,
    memory_enter m 0x1003 (inStack_of_isChip hchip)]
  rw [heq] at hchip ⊢
  exact hsounding w hw hchip

/-- All calls of the library of an accepted song are safe: the first one, and in whatever state
the calls of a host have left the player, setting up again and playing the next frame. -/
theorem library_calls_safe {s : Song} {host : Nat → Machine → Machine} {m : Machine}
    (h : Hosted s host m) :
    (∃ record n, SafeCall (library (Tune.ofSong s)) (Tune.ofSong s) 0x1000 m record n) ∧
      ∀ frames records n, Session (library (Tune.ofSong s)) host m frames records n →
        (∃ record k, SafeCall (library (Tune.ofSong s)) (Tune.ofSong s) 0x1000 (host frames n)
          record k) ∧
        ∃ record k, SafeFrame (library (Tune.ofSong s)) (Tune.ofSong s) (host frames n) record
          k := by
  have ht := h.playable
  refine ⟨safe_init ht h.resident h.decimal, fun frames records n hsession => ?_⟩
  have hplays := (hsession.plays ht h.resident h.decimal h.careful).1.leaves (carries_library ht)
    (h.careful frames n)
  exact ⟨safe_init ht hplays.resident hplays.decimal,
    safe_frame ht hplays (valid_playingAfter ht frames)⟩

theorem library_calls_safe_sampleSong :
    Hosted sampleSong (fun _ k => k) (loadedMachine (library (Tune.ofSong sampleSong))) ∧
      (∃ record n, SafeCall (library (Tune.ofSong sampleSong)) (Tune.ofSong sampleSong) 0x1000
        (loadedMachine (library (Tune.ofSong sampleSong))) record n) ∧
      ∀ frames records n, Session (library (Tune.ofSong sampleSong)) (fun _ k => k)
          (loadedMachine (library (Tune.ofSong sampleSong))) frames records n →
        (∃ record k, SafeCall (library (Tune.ofSong sampleSong)) (Tune.ofSong sampleSong) 0x1000
          n record k) ∧
        ∃ record k, SafeFrame (library (Tune.ofSong sampleSong)) (Tune.ofSong sampleSong) n record
          k :=
  ⟨hosted_sampleSong, library_calls_safe hosted_sampleSong⟩

end SidTune.Player
